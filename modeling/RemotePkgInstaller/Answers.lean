import RemotePkgInstaller.Endpoints
import RemotePkgInstaller.InstallHandlers

/-! The shapes of the answers: an error is reported by `kick_error`, and every other answer
is one json text behind the header of a result. -/
namespace RemotePkgInstaller
namespace Answers

open Endpoints HttpState HttpText InstallHandlers InstallPieces Installer PkgSetup Programs Program
  Requests Responses ServerCalls Settings TinyJson

def replyOf : Except Answer Answer → Answer
  | .error reply => reply
  | .ok reply => reply

/-- The titles that errors are reported under. -/
def kickTitles : List Bytes :=
  [bytes "Bad request",bytes "Internal server error",bytes "Not found",bytes "Forbidden"]

/-- An answer of `kick_error`. -/
def IsKickError (reply : Answer) : Prop :=
  ∃ sdk code title error, title ∈ kickTitles ∧ reply = kickError sdk code title error

/-- A json text behind `kick_result_header_json`. -/
def IsResultJson (reply : Answer) : Prop := ∃ text, reply = kickResultHeaderJson++[.write text]

/-- When it fails, the client has been told by `kick_error`. -/
def FailsWithKick {α : Type} (x : Except Answer α) : Prop :=
  ∀ reply, x = .error reply → IsKickError reply

section Requests

variable {sdk : TextSdk} {nodes : List Node} {α β : Type}

theorem failsWithKick_ok (a : α) : FailsWithKick (.ok a) := fun _ h => nomatch h

theorem isKickError_badRequest (text : Bytes) :
    IsKickError (kickError sdk 400 (bytes "Bad request") text) :=
  ⟨sdk,400,_,text,by decide,rfl⟩

theorem isKickError_throwInternalError (text : Bytes) : IsKickError (throwInternalError sdk text) :=
  ⟨sdk,500,bytes "Internal server error",_,by decide,rfl⟩

theorem failsWithKick_error {reply : Answer} (h : IsKickError reply) :
    FailsWithKick (.error reply : Except Answer α) := by
  rintro reply' h'
  injection h' with h'
  exact h' ▸ h

theorem failsWithKick_badRequest (text : Bytes) :
    FailsWithKick (.error (badRequest sdk text) : Except Answer α) :=
  failsWithKick_error (isKickError_badRequest _)

theorem FailsWithKick.bind {x : Except Answer α} {f : α → Except Answer β} (h : FailsWithKick x)
    (hf : ∀ a, FailsWithKick (f a)) : FailsWithKick (x >>= f) := by
  cases x with
  | error e =>
    rintro reply he
    exact h reply (by injection he with he; rw [he])
  | ok a => exact hf a

theorem failsWithKick_requestParse (inData : Option Bytes) :
    FailsWithKick (requestParse sdk inData) := by
  unfold requestParse
  split
  · exact failsWithKick_error (isKickError_badRequest _)
  · split_ifs
    · exact failsWithKick_error (isKickError_badRequest _)
    · split
      · exact failsWithKick_error (isKickError_badRequest _)
      · exact failsWithKick_ok _

theorem failsWithKick_requestField (name : Bytes) (type : JsonType) :
    FailsWithKick (requestField sdk nodes name type) := by
  unfold requestField
  split
  · exact failsWithKick_badRequest _
  · split_ifs
    · exact failsWithKick_badRequest _
    · exact failsWithKick_ok _

theorem failsWithKick_requestStr (name : Bytes) : FailsWithKick (requestStr sdk nodes name) :=
  (failsWithKick_requestField _ _).bind fun _ => failsWithKick_ok _

theorem failsWithKick_requestId (name : Bytes) (outSize : ℕ) :
    FailsWithKick (requestId sdk nodes name outSize) := by
  refine (failsWithKick_requestStr _).bind fun val => ?_
  split_ifs
  · exact failsWithKick_badRequest _
  · exact failsWithKick_ok _

theorem failsWithKick_requestInt (name : Bytes) : FailsWithKick (requestInt sdk nodes name) :=
  (failsWithKick_requestField _ _).bind fun _ => failsWithKick_ok _

theorem failsWithKick_requestTaskId : FailsWithKick (requestTaskId sdk nodes) := by
  refine (failsWithKick_requestInt _).bind fun out => ?_
  split_ifs
  · exact failsWithKick_badRequest _
  · exact failsWithKick_ok _

theorem failsWithKick_requestBoolOpt (name : Bytes) (out : Bool) :
    FailsWithKick (requestBoolOpt sdk nodes name out) := by
  unfold requestBoolOpt
  split
  · exact failsWithKick_ok _
  · split_ifs
    · exact failsWithKick_badRequest _
    · exact failsWithKick_ok _

theorem failsWithKick_thrown (r : Except Bytes α) : FailsWithKick (thrown sdk r) := by
  cases r with
  | error text => exact failsWithKick_error (isKickError_throwInternalError _)
  | ok a => exact failsWithKick_ok a

end Requests

section Install

/-- The answers of the download service to a registration. -/
def registrationOf : ServerEvent → List Registered
  | ⟨.downloadRegisterTask _,answer⟩ => [answer]
  | ⟨.debugDownloadRegisterPkg _,answer⟩ => [answer]
  | _ => []

def collect (answers : List Registered) (e : ServerEvent) : List Registered :=
  answers++registrationOf e

/-- An install that fails has registered nothing and tells the client by `kick_error`; the
answer of one that does not is made of what the download service has answered, if it was
asked. -/
def AnswersFor (answers : List Registered) : Except Answer Answer → Prop
  | .error reply => answers = [] ∧ IsKickError reply
  | .ok reply => ∃ task : InstallPieces.Task,
      (answers = [] ∧ ∃ code, reply = taskAnswer task (.error code)) ∨
        ∃ answer, answers = [answer] ∧ reply = taskAnswer task (registrationResult answer)

variable {calls : InstallCalls} {stream : StreamId} {urls : List Bytes}
  {sslVerify : SslVerifyMode} {sv : Services} {host : Host} {nodes : List Node}

/-- The calls that hand a package to the download service. -/
def registering : ServerEvent → List ServerEvent
  | ⟨.getForegroundUser,user⟩ => [⟨.getForegroundUser,user⟩]
  | ⟨.downloadRegisterTask param,answer⟩ => [⟨.downloadRegisterTask param,answer⟩]
  | ⟨.debugDownloadRegisterPkg param,answer⟩ => [⟨.debugDownloadRegisterPkg param,answer⟩]
  | _ => []

def keepRegistering (kept : List ServerEvent) (e : ServerEvent) : List ServerEvent :=
  kept++registering e

theorem foldl_keepRegistering (history kept : List ServerEvent) :
    history.foldl keepRegistering kept = kept++history.flatMap registering := by
  induction history generalizing kept with
  | nil => simp
  | cons e history ih =>
    rw [List.foldl_cons,ih,keepRegistering,List.flatMap_cons,List.append_assoc]

theorem registrationOf_registering (e : ServerEvent) :
    (registering e).flatMap registrationOf = registrationOf e := by
  obtain ⟨c,answer⟩ := e
  cases c <;> rfl

theorem foldl_collect (history : List ServerEvent) (answers : List Registered) :
    history.foldl collect answers = answers++history.flatMap registrationOf := by
  induction history generalizing answers with
  | nil => simp
  | cons e history ih => rw [List.foldl_cons,ih,collect,List.flatMap_cons,List.append_assoc]

/-- An install that fails has handed over nothing and tells the client by `kick_error`; the
answer of one that does not is what `bgft_download_register_package_task` has come to. -/
def RegistersFor (calls : InstallCalls) (stream : StreamId) (sv : Services) (host : Host)
    (kept : List ServerEvent) : Except Answer Answer → Prop
  | .error reply => kept = [] ∧ IsKickError reply
  | .ok reply => ∃ (task : InstallPieces.Task) (registered : Except ℤ ℤ),
      Ends (bgftDownloadRegisterPackageTask calls stream sv host task :
        ServerProgram Answer (Except ℤ ℤ)) kept (.ok registered) ∧ reply = taskAnswer task registered

theorem registersFor_error {text : Bytes} :
    RegistersFor calls stream sv host [] (.error (throwInternalError calls.text text)) :=
  ⟨rfl,isKickError_throwInternalError _⟩

theorem ensures_registration (task : InstallPieces.Task) :
    Ensures keepRegistering (fun kept r => ∃ registered, r = .ok registered ∧
        Ends (bgftDownloadRegisterPackageTask calls stream sv host task :
          ServerProgram Answer (Except ℤ ℤ)) kept (.ok registered))
      (bgftDownloadRegisterPackageTask calls stream sv host task :
        ServerProgram Answer (Except ℤ ℤ)) [] := by
  refine ensures_iff.mpr fun history r h => ?_
  have hkept : history.foldl keepRegistering [] = history := by
    rcases registration_cases _ _ h with ⟨_,rfl,_⟩ | ⟨_,⟨code,rfl⟩,_⟩ | ⟨_,userId,answer,rfl,_⟩
    · rfl
    · rfl
    · cases task.info.isPatch <;> rfl
  rw [hkept]
  rcases registration_cases _ _ h with ⟨_,_,code,rfl⟩ | ⟨_,_,rfl⟩ | ⟨_,userId,answer,_,rfl⟩ <;>
    exact ⟨_,rfl,h⟩

theorem ensures_installPieces :
    Ensures keepRegistering (RegistersFor calls stream sv host)
      (installPieces calls stream urls sslVerify sv host) [] := by
  refine ensures_perform_bind.mpr fun langId => ?_
  have hnone : keepRegistering [] ⟨.getLanguageId,langId⟩ = [] := rfl
  rw [hnone]
  cases langId with
  | none => exact registersFor_error
  | some langId =>
    have hkeep : ∀ kept c r, PrepareCall stream urls sslVerify c → kept = [] →
        keepRegistering kept ⟨c,r⟩ = [] := by
      rintro kept c r hc rfl
      cases hc with
      | readFile path => rfl
      | setup hsetup => cases hsetup <;> rfl
    refine ensures_bind.mpr (ensures_caught.mpr (Ensures.mono
      (ensures_invariant (calls_prepareTask calls stream urls sslVerify langId) hkeep rfl) ?_))
    rintro _ prepared rfl
    cases prepared with
    | error text => exact fun _ _ _ => registersFor_error
    | ok task =>
      refine ensures_bind.mpr (Ensures.mono (ensures_registration task) ?_)
      rintro kept _ ⟨registered,rfl,h⟩
      rintro ⟨⟩
      have hunlink : keepRegistering kept ⟨.unlink (tempPaths stream).paramSfo,()⟩ = kept :=
        List.append_nil kept
      exact ⟨task,registered,hunlink.symm ▸ h,rfl⟩

/-- A part of the handler that asks nothing and fails with `kick_error`. -/
theorem ensures_ofExcept_bind {α : Type} {x : Except Answer α} (hx : FailsWithKick x)
    {f : α → ServerProgram Answer Answer}
    (hf : ∀ a, Ensures keepRegistering (RegistersFor calls stream sv host) (f a) []) :
    Ensures keepRegistering (RegistersFor calls stream sv host) (ofExcept x >>= f) [] := by
  cases x with
  | error reply => exact ⟨rfl,hx reply rfl⟩
  | ok a => exact hf a

theorem failsWithKick_refPkgUrl : FailsWithKick (refPkgUrl calls nodes) :=
  (failsWithKick_requestStr _).bind fun _ => failsWithKick_thrown _

theorem ensures_registersFor (inData : Option Bytes) :
    Ensures keepRegistering (RegistersFor calls stream sv host)
      (handleApiInstall calls stream sv host inData) [] := by
  refine ensures_ofExcept_bind (failsWithKick_requestParse _) fun nodes => ?_
  refine ensures_perform_bind.mpr fun configured => ?_
  have hnone : keepRegistering [] ⟨.httpGetSslVerify,configured⟩ = [] := rfl
  rw [hnone]
  refine ensures_ofExcept_bind (failsWithKick_requestBoolOpt _ _) fun verify => ?_
  refine ensures_ofExcept_bind (failsWithKick_requestStr _) fun type => ?_
  split_ifs
  · refine ensures_ofExcept_bind (failsWithKick_requestField _ _) fun field => ?_
    exact ensures_ofExcept_bind (failsWithKick_thrown _) fun urls => ensures_installPieces
  · refine ensures_ofExcept_bind failsWithKick_refPkgUrl fun url => ?_
    refine ensures_perform_bind.mpr fun answer => ?_
    dsimp only
    cases urlsOfAnswer calls.pieces answer with
    | none => exact registersFor_error
    | some urls => exact ensures_installPieces
  · exact ⟨rfl,isKickError_badRequest _⟩

/-- In every run of an install the handing over is one of the whole function. -/
theorem registersFor_of_ends {inData : Option Bytes} {history : List ServerEvent}
    {r : Except Answer Answer} (h : Ends (handleApiInstall calls stream sv host inData) history r) :
    RegistersFor calls stream sv host (history.flatMap registering) r := by
  have hkept := ensures_iff.mp (ensures_registersFor inData) history r h
  rwa [foldl_keepRegistering,List.nil_append] at hkept

theorem ensures_handleApiInstall (inData : Option Bytes) :
    Ensures collect AnswersFor (handleApiInstall calls stream sv host inData) [] := by
  refine ensures_iff.mpr fun history r h => ?_
  have hregisters := registersFor_of_ends h
  have hanswers : history.foldl collect [] = (history.flatMap registering).flatMap registrationOf := by
    rw [foldl_collect,List.nil_append,List.flatMap_assoc]
    simp only [registrationOf_registering]
  rw [hanswers]
  generalize history.flatMap registering = kept at hregisters
  cases r with
  | error reply =>
    obtain ⟨rfl,hkick⟩ := hregisters
    exact ⟨rfl,hkick⟩
  | ok reply =>
    obtain ⟨task,registered,hends,rfl⟩ := hregisters
    rcases registration_cases _ _ hends with ⟨_,rfl,code,hcode⟩ | ⟨_,⟨code,rfl⟩,hcode⟩ |
      ⟨_,userId,answer,rfl,hresult⟩
    · injection hcode with hcode
      exact ⟨task,Or.inl ⟨rfl,code,by rw [hcode]⟩⟩
    · injection hcode with hcode
      exact ⟨task,Or.inl ⟨rfl,_,by rw [hcode]⟩⟩
    · injection hresult with hresult
      refine ⟨task,Or.inr ⟨answer,?_,by rw [hresult]⟩⟩
      cases task.info.isPatch <;> rfl

theorem isResultJson_taskAnswer (task : InstallPieces.Task) (registered : Except ℤ ℤ) :
    IsResultJson (taskAnswer task registered) := by
  cases registered with
  | error ret => exact ⟨_,rfl⟩
  | ok taskId => exact ⟨_,rfl⟩

end Install

end Answers
end RemotePkgInstaller
