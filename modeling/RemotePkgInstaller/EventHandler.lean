import Mathlib.Data.List.Infix
import RemotePkgInstaller.Answers
import RemotePkgInstaller.ReceivedRequests
import RemotePkgInstaller.SettingsSteps

/-! `event_handler`: which handler a request goes to, with which payload, and the calls on
the stream that come of it. -/
namespace RemotePkgInstaller
namespace EventHandler

open Answers Endpoints HttpText InstallHandlers InstallPieces Installer Programs Program
  ReceivedRequests Requests Responses SendStream ServerCalls Settings SettingsSteps Util

def queryDataSize : ℕ := 2048

inductive Method
  | get | post
  deriving DecidableEq

inductive Handler
  | handleStatic | handleApiInstall | handleApiUninstall | handleApiIsExists | handleApiTaskAction
  | handleApiGetTaskProgress | handleApiFindTask | handleApiSettings
  deriving DecidableEq

structure HandlerDesc where
  path : Bytes
  handler : Handler
  methods : List Method
  needPartialMatch : Bool
  deriving DecidableEq

/-- `s_handlers`. -/
def sHandlers : List HandlerDesc :=
  [⟨bytes "/static/",.handleStatic,[.get],true⟩,
   ⟨bytes "/api/install",.handleApiInstall,[.get,.post],false⟩,
   ⟨bytes "/api/uninstall_game",.handleApiUninstall,[.get,.post],false⟩,
   ⟨bytes "/api/uninstall_ac",.handleApiUninstall,[.get,.post],false⟩,
   ⟨bytes "/api/uninstall_patch",.handleApiUninstall,[.get,.post],false⟩,
   ⟨bytes "/api/uninstall_theme",.handleApiUninstall,[.get,.post],false⟩,
   ⟨bytes "/api/is_exists",.handleApiIsExists,[.get,.post],false⟩,
   ⟨bytes "/api/start_task",.handleApiTaskAction,[.get,.post],false⟩,
   ⟨bytes "/api/stop_task",.handleApiTaskAction,[.get,.post],false⟩,
   ⟨bytes "/api/pause_task",.handleApiTaskAction,[.get,.post],false⟩,
   ⟨bytes "/api/resume_task",.handleApiTaskAction,[.get,.post],false⟩,
   ⟨bytes "/api/unregister_task",.handleApiTaskAction,[.get,.post],false⟩,
   ⟨bytes "/api/get_task_progress",.handleApiGetTaskProgress,[.get,.post],false⟩,
   ⟨bytes "/api/find_task",.handleApiFindTask,[.get,.post],false⟩,
   ⟨bytes "/api/settings",.handleApiSettings,[.get,.post],false⟩]

def HandlerDesc.serves (desc : HandlerDesc) (wanted : Method) (path : Bytes) : Bool :=
  wanted ∈ desc.methods && if desc.needPartialMatch then startsWith path desc.path else path = desc.path

def findHandler (wanted : Method) (path : Bytes) : Option HandlerDesc :=
  sHandlers.find? fun desc => desc.serves wanted path

def wantedMethod (method : Bytes) : Option Method :=
  if sameNoCase method (bytes "GET") then some .get
  else if sameNoCase method (bytes "POST") then some .post
  else none

/-- The payload of a request; without a result its query does not fit the buffer. -/
def requestData (r : ReceivedRequest) : Method → Option (Option Bytes)
  | .post =>
    if 0 < r.dataIdx ∧ r.dataIdx < r.expectedRecvLen then
      some (some ((r.recvBuf.drop r.dataIdx).take (r.expectedRecvLen-r.dataIdx)))
    else some none
  | .get =>
    match sbGetVar r (bytes "data") queryDataSize with
    | (.success,data) => some (some (cstr data))
    | (.truncated,_) => none
    | _ => some none

/-- What becomes of a request. -/
inductive Dispatch
  | options
  | unsupportedMethod
  | unknownEndpoint
  | queryDataTooLong
  | call (handler : Handler) (method path : Bytes) (inData : Option Bytes)
  deriving DecidableEq

def dispatch (r : ReceivedRequest) : Dispatch :=
  if sameNoCase r.method (bytes "OPTIONS") then .options
  else
    match wantedMethod r.method with
    | none => .unsupportedMethod
    | some wanted =>
      match findHandler wanted r.path with
      | none => .unknownEndpoint
      | some desc =>
        match requestData r wanted with
        | none => .queryDataTooLong
        | some inData => .call desc.handler r.method r.path inData

/-- The calls that an answer makes on the stream. -/
def streamCalls (reply : Answer) : List StreamCall := reply.map .sb

section Handlers

variable (calls : InstallCalls) (stream : StreamId) (sv : Services) (host : Host)

def endsWithNocase (haystack needle : Bytes) : Bool :=
  sameNoCase (haystack.drop (haystack.length-needle.length)) needle

def contentType (realPath : Bytes) : Bytes :=
  if endsWithNocase realPath (bytes ".json") then bytes "application/json"
  else if endsWithNocase realPath (bytes ".png") then bytes "image/png"
  else bytes "application/octet-stream"

/-- The answer that a file begins with. -/
def fileHeader (realPath : Bytes) : Answer :=
  [.sendStatus 200 (bytes "OK"),connectionClose,
   .sendHeader (bytes "Content-Type") (contentType realPath)]

/-- The answer with a file of which `open` and `fstat` have said this. -/
def fileCalls (sdk : TextSdk) (realPath : Bytes) (fd : ℤ) (size : Option ℕ) : List StreamCall :=
  let head := streamCalls (fileHeader realPath)
  let sent := (Stream.received.queue head).perform (.sendFile realPath fd size)
  if sent.1 = .success then head++[.sendFile realPath fd size]
  else
    head++.sendFile realPath fd size::streamCalls
      (kickError sdk 500 (bytes "Internal server error") (sbErrorStr sent.1))

/-- `handle_static` from the point where it has found a regular file. -/
def sendStatic (sdk : TextSdk) (realPath : Bytes) : ServerProgram Empty (List StreamCall) := do
  let fd ← ask (.openFile realPath)
  if fd ≤ 0 then pure (fileCalls sdk realPath fd none)
  else do
    let size ← ask (.fstat realPath)
    pure (fileCalls sdk realPath fd size)

def handleStatic (sdk : TextSdk) (path : Bytes) : ServerProgram Empty (List StreamCall) :=
  if startsWith path (bytes "/static/") = false ∨ bytes ":/" <:+: path ∨ bytes ".." <:+: path then
    pure (streamCalls (kickError sdk 400 (bytes "Bad request") (bytes "Invalid path")))
  else do
    let realPath := strlcpy (workDir++bytes "/"++path.drop (bytes "/static/").length) 1024
    let isRegular ← ask (.stat realPath)
    match isRegular with
    | none => pure (streamCalls (kickError sdk 404 (bytes "Not found") (bytes "Page not found")))
    | some false =>
      pure (streamCalls (kickError sdk 403 (bytes "Forbidden") (bytes "Access is denied")))
    | some true => sendStatic sdk realPath

/-- A handler that has answered, with success or not, leaves its answer on the stream. -/
def respond (p : ServerProgram Answer Answer) : ServerProgram Empty (List StreamCall) := do
  let r ← caught p
  pure (streamCalls (replyOf r))

def Handler.run (method path : Bytes) (inData : Option Bytes) :
    Handler → ServerProgram Empty (List StreamCall)
  | handleStatic => EventHandler.handleStatic calls.text path
  | handleApiInstall => respond (InstallHandlers.handleApiInstall calls stream sv host inData)
  | handleApiUninstall =>
    pure (streamCalls (Endpoints.handleApiUninstall calls.text sv path inData).reply)
  | handleApiIsExists =>
    pure (streamCalls (Endpoints.handleApiIsExists calls.text sv inData).reply)
  | handleApiTaskAction =>
    pure (streamCalls (Endpoints.handleApiTaskAction calls.text sv path inData).reply)
  | handleApiGetTaskProgress =>
    pure (streamCalls (Endpoints.handleApiGetTaskProgress calls.text sv inData).reply)
  | handleApiFindTask =>
    pure (streamCalls (Endpoints.handleApiFindTask calls.text sv inData).reply)
  | handleApiSettings => respond (handleApiSettingsSteps calls.text method inData)

/-- The calls on the stream that a request leads to. -/
def eventHandler (r : ReceivedRequest) : ServerProgram Empty (List StreamCall) :=
  let kick := fun code title error => pure (streamCalls (kickError calls.text code title error))
  match dispatch r with
  | .options => pure (streamCalls kickResultHeaderJson)
  | .unsupportedMethod => kick 400 (bytes "Bad request") (bytes "Unsupported method")
  | .unknownEndpoint => kick 404 (bytes "Not found") (bytes "Unknown endpoint")
  | .queryDataTooLong => kick 400 (bytes "Bad request") (bytes "Query data too long")
  | .call handler method path inData => handler.run calls stream sv host method path inData

end Handlers

end EventHandler
end RemotePkgInstaller
