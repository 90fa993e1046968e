import RemotePkgInstaller.ContentId

/-! `installer.c`: the console's install and download services behind their guards. -/
namespace RemotePkgInstaller
namespace Installer

open ContentId

/-- A call of the console's services, with what identifies its object. -/
inductive SceCall
  | appUnInstall (titleId : Bytes)
  | appUnInstallAddcont (titleId label : Bytes)
  | appUnInstallPat (titleId : Bytes)
  | appUnInstallTheme (contentId : Bytes)
  | appExists (titleId : Bytes)
  | appGetSize (titleId : Bytes)
  | downloadStartTask (taskId : ℤ)
  | downloadStopTask (taskId : ℤ)
  | downloadPauseTask (taskId : ℤ)
  | downloadResumeTask (taskId : ℤ)
  | downloadUnregisterTask (taskId : ℤ)
  | downloadGetProgress (taskId : ℤ)
  | downloadFindTaskByContentId (contentId : Bytes) (subType : ℤ)
  deriving DecidableEq

structure TaskProgressInfo where
  bits : ℕ
  errorResult : ℤ
  length : ℕ
  transferred : ℕ
  lengthTotal : ℕ
  transferredTotal : ℕ
  numIndex : ℕ
  numTotal : ℕ
  restSec : ℕ
  restSecTotal : ℕ
  preparingPercent : ℤ
  localCopyPercent : ℤ

/-- The two services, whether they are initialised, what their calls return and
store, and the constants of the console's headers. -/
structure Services where
  appInstUtilInitialized : Bool
  bgftInitialized : Bool
  ret : SceCall → ℤ
  existsFlag : Bytes → ℤ
  size32 : Bytes → UInt32
  progress : ℤ → TaskProgressInfo
  foundTask : Bytes → ℤ → ℤ
  errorEnxio : ℤ
  errorEinval : ℤ
  subTypeUnknown : ℤ
  subTypeMax : ℤ

/-- What a function returns, what it stores in `*error`, and the calls it makes. -/
structure Outcome (α : Type) where
  result : Option α
  error : Option ℤ
  calls : List SceCall

variable (sv : Services) {α : Type}

def refuse (code : ℤ) : Outcome α := ⟨none,some code,[]⟩

/-- One service call; `value` is what it stores when it returns zero. -/
def request (call : SceCall) (value : α) : Outcome α :=
  if sv.ret call ≠ 0 then ⟨none,some (sv.ret call),[call]⟩ else ⟨some value,none,[call]⟩

def appInstUtilRequest (call : SceCall) (value : α) : Outcome α :=
  if sv.appInstUtilInitialized = false then refuse sv.errorEnxio else request sv call value

/-- The functions on a task refuse a negative id. -/
def bgftRequest (call : ℤ → SceCall) (value : ℤ → α) (taskId : ℤ) : Outcome α :=
  if sv.bgftInitialized = false then refuse sv.errorEnxio
  else if taskId < 0 then refuse sv.errorEinval
  else request sv (call taskId) (value taskId)

def appInstUtilUninstallGame (titleId : Bytes) : Outcome Unit :=
  appInstUtilRequest sv (.appUnInstall titleId) ()

def appInstUtilUninstallAc (contentId : Bytes) : Outcome Unit :=
  if sv.appInstUtilInitialized = false then refuse sv.errorEnxio
  else
    match pkgParseContentId contentId with
    | none => refuse sv.errorEinval
    | some info => request sv (.appUnInstallAddcont info.titleId info.label) ()

def appInstUtilUninstallPatch (titleId : Bytes) : Outcome Unit :=
  appInstUtilRequest sv (.appUnInstallPat titleId) ()

def appInstUtilUninstallTheme (contentId : Bytes) : Outcome Unit :=
  appInstUtilRequest sv (.appUnInstallTheme contentId) ()

def appInstUtilIsExists (titleId : Bytes) : Outcome Bool :=
  appInstUtilRequest sv (.appExists titleId) (sv.existsFlag titleId ≠ 0)

def appInstUtilGetSize (titleId : Bytes) : Outcome ℕ :=
  appInstUtilRequest sv (.appGetSize titleId) (sv.size32 titleId).toNat

def bgftDownloadStartTask (taskId : ℤ) : Outcome Unit :=
  bgftRequest sv .downloadStartTask (fun _ => ()) taskId

def bgftDownloadStopTask (taskId : ℤ) : Outcome Unit :=
  bgftRequest sv .downloadStopTask (fun _ => ()) taskId

def bgftDownloadPauseTask (taskId : ℤ) : Outcome Unit :=
  bgftRequest sv .downloadPauseTask (fun _ => ()) taskId

def bgftDownloadResumeTask (taskId : ℤ) : Outcome Unit :=
  bgftRequest sv .downloadResumeTask (fun _ => ()) taskId

def bgftDownloadUnregisterTask (taskId : ℤ) : Outcome Unit :=
  bgftRequest sv .downloadUnregisterTask (fun _ => ()) taskId

def bgftDownloadGetTaskProgress (taskId : ℤ) : Outcome TaskProgressInfo :=
  bgftRequest sv .downloadGetProgress sv.progress taskId

def bgftDownloadFindTaskByContentId (contentId : Bytes) (subType : ℤ) : Outcome ℤ :=
  if sv.bgftInitialized = false then refuse sv.errorEnxio
  else if ¬ (sv.subTypeUnknown < subType ∧ subType < sv.subTypeMax) then refuse sv.errorEinval
  else request sv (.downloadFindTaskByContentId contentId subType) (sv.foundTask contentId subType)

@[simp] theorem request_calls (call : SceCall) (value : α) :
    (request sv call value).calls = [call] := by
  unfold request
  split_ifs <;> rfl

theorem appInstUtilRequest_calls (call : SceCall) (value : α) :
    (appInstUtilRequest sv call value).calls =
      if sv.appInstUtilInitialized then [call] else [] := by
  unfold appInstUtilRequest
  cases sv.appInstUtilInitialized <;> simp [refuse]

theorem bgftRequest_calls (call : ℤ → SceCall) (value : ℤ → α) (taskId : ℤ) :
    (bgftRequest sv call value taskId).calls =
      if sv.bgftInitialized = true ∧ 0 ≤ taskId then [call taskId] else [] := by
  unfold bgftRequest
  cases sv.bgftInitialized
  · simp [refuse]
  · by_cases h : taskId < 0
    · simp [refuse,h]
    · simp [h,not_lt.mp h]

end Installer
end RemotePkgInstaller
