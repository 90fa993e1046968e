import RemotePkgInstaller.Installer
import RemotePkgInstaller.Requests

/-! The endpoints that uninstall, query and steer download tasks. -/
namespace RemotePkgInstaller
namespace Endpoints

open ContentId HttpText Installer Responses Requests TinyJson

/-- What a handler answers and returns, the identifiers and numbers it hands to the
installer's functions, and the service calls these make. -/
structure Handled where
  reply : Answer
  status : Bool
  ids : List Bytes
  numbers : List ℤ
  calls : List SceCall

/-- A failed helper has answered already, and the handler just stops. -/
def finish (r : Except Answer Handled) : Handled :=
  match r with
  | .error reply => ⟨reply,false,[],[],[]⟩
  | .ok handled => handled

/-- The answer to a call: the text of a success, or the code stored in `*error`. -/
def resultJson {α : Type} (out : Outcome α) (text : α → Bytes) : Answer :=
  match out.result with
  | some value => kickResultHeaderJson++[.write (text value)]
  | none => kickErrorJson (out.error.getD 0)

structure UninstallAction where
  path : Bytes
  fn : Services → Bytes → Outcome Unit
  field : Bytes
  idSize : ℕ

def uninstallActions : List UninstallAction :=
  [⟨bytes "/api/uninstall_game",appInstUtilUninstallGame,bytes "title_id",pkgTitleIdSize+1⟩,
   ⟨bytes "/api/uninstall_ac",appInstUtilUninstallAc,bytes "content_id",pkgContentIdSize+1⟩,
   ⟨bytes "/api/uninstall_patch",appInstUtilUninstallPatch,bytes "title_id",pkgTitleIdSize+1⟩,
   ⟨bytes "/api/uninstall_theme",appInstUtilUninstallTheme,bytes "content_id",pkgContentIdSize+1⟩]

structure TaskAction where
  path : Bytes
  fn : Services → ℤ → Outcome Unit

def taskActions : List TaskAction :=
  [⟨bytes "/api/start_task",bgftDownloadStartTask⟩,
   ⟨bytes "/api/stop_task",bgftDownloadStopTask⟩,
   ⟨bytes "/api/pause_task",bgftDownloadPauseTask⟩,
   ⟨bytes "/api/resume_task",bgftDownloadResumeTask⟩,
   ⟨bytes "/api/unregister_task",bgftDownloadUnregisterTask⟩]

variable (sdk : TextSdk) (sv : Services)

def notFound (text : Bytes) : Handled :=
  ⟨kickError sdk 404 (bytes "Not found") text,false,[],[],[]⟩

def handleApiUninstall (path : Bytes) (inData : Option Bytes) : Handled :=
  match uninstallActions.find? fun action => action.path = path with
  | none => notFound sdk (bytes "Unknown uninstall action")
  | some action => finish do
    let nodes ← requestParse sdk inData
    let id ← requestId sdk nodes action.field action.idSize
    let out := action.fn sv id
    pure ⟨resultJson out fun _ => statusSuccess,true,[id],[],out.calls⟩

def existsText (present : Bool) : Bytes :=
  bytes "\x7b \"status\": \"success\", \"exists\": \""++bytes (if present then "true" else "false")

def handleApiIsExists (inData : Option Bytes) : Handled := finish do
  let nodes ← requestParse sdk inData
  let titleId ← requestId sdk nodes (bytes "title_id") (pkgTitleIdSize+1)
  let out := appInstUtilIsExists sv titleId
  if out.result = some true then
    let size := appInstUtilGetSize sv titleId
    let text := existsText true++bytes "\", \"size\": 0x"++
      hexText (size.result.getD (2^64-1))++bytes " \x7d\n"
    pure ⟨kickResultHeaderJson++[.write text],true,[titleId,titleId],[],out.calls++size.calls⟩
  else
    pure ⟨resultJson out fun _ => existsText false++bytes "\" \x7d\n",true,[titleId],[],out.calls⟩

def handleApiTaskAction (path : Bytes) (inData : Option Bytes) : Handled :=
  match taskActions.find? fun action => action.path = path with
  | none => notFound sdk (bytes "Unknown task action")
  | some action => finish do
    let nodes ← requestParse sdk inData
    let taskId ← requestTaskId sdk nodes
    let out := action.fn sv taskId
    pure ⟨resultJson out fun _ => statusSuccess,true,[],[taskId],out.calls⟩

def progressText (info : TaskProgressInfo) : Bytes :=
  bytes "\x7b \"status\": \"success\", \"bits\": 0x"++hexText info.bits++
  bytes ", \"error\": "++intText info.errorResult++
  bytes ", \"length\": 0x"++hexText info.length++
  bytes ", \"transferred\": 0x"++hexText info.transferred++
  bytes ", \"length_total\": 0x"++hexText info.lengthTotal++
  bytes ", \"transferred_total\": 0x"++hexText info.transferredTotal++
  bytes ", \"num_index\": "++Decimal.text info.numIndex++
  bytes ", \"num_total\": "++Decimal.text info.numTotal++
  bytes ", \"rest_sec\": "++Decimal.text info.restSec++
  bytes ", \"rest_sec_total\": "++Decimal.text info.restSecTotal++
  bytes ", \"preparing_percent\": "++intText info.preparingPercent++
  bytes ", \"local_copy_percent\": "++intText info.localCopyPercent++bytes " \x7d\n"

def handleApiGetTaskProgress (inData : Option Bytes) : Handled := finish do
  let nodes ← requestParse sdk inData
  let taskId ← requestTaskId sdk nodes
  let out := bgftDownloadGetTaskProgress sv taskId
  pure ⟨resultJson out progressText,true,[],[taskId],out.calls⟩

def handleApiFindTask (inData : Option Bytes) : Handled := finish do
  let nodes ← requestParse sdk inData
  let contentId ← requestId sdk nodes (bytes "content_id") (pkgContentIdSize+1)
  let subType ← requestInt sdk nodes (bytes "sub_type")
  let out := bgftDownloadFindTaskByContentId sv contentId subType
  let text := fun taskId =>
    bytes "\x7b \"status\": \"success\", \"task_id\": "++intText taskId++bytes " \x7d\n"
  pure ⟨resultJson out text,true,[contentId],[subType],out.calls⟩

end Endpoints
end RemotePkgInstaller
