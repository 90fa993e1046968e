import RemotePkgInstaller.InstallerFunctions
import RemotePkgInstaller.RegisteredTasks

/-! The codes that the functions of `installer.c` leave in `*error` when they fail, and that
the server reports with `kick_error_json`. -/
namespace RemotePkgInstaller
namespace InstallerErrors

open Answers ContentId Endpoints HttpText InstallHandlers InstallerFunctions InstallPieces Installer
  Programs Program RegisteredTasks Requests Responses ServerCalls

/-- A call of one of the functions, with its arguments. -/
inductive InstallerCall
  | appInstUtilUninstallGame (titleId : Option Bytes)
  | appInstUtilUninstallAc (contentId : Option Bytes)
  | appInstUtilUninstallPatch (titleId : Option Bytes)
  | appInstUtilUninstallTheme (contentId : Option Bytes)
  | appInstUtilIsExists (titleId : Option Bytes)
  | appInstUtilGetSize (titleId : Option Bytes)
  | bgftDownloadRegisterPackageTask (task : PackageTask)
  | bgftDownloadStartTask (taskId : ℤ)
  | bgftDownloadStopTask (taskId : ℤ)
  | bgftDownloadPauseTask (taskId : ℤ)
  | bgftDownloadResumeTask (taskId : ℤ)
  | bgftDownloadUnregisterTask (taskId : ℤ)
  | bgftDownloadReregisterTaskPatch (oldTaskId : ℤ)
  | bgftDownloadGetTaskProgress (taskId : ℤ) (progressInfo : Option Unit)
  | bgftDownloadFindTaskByContentId (contentId : Option Bytes) (subType : ℤ)

@[reducible] def InstallerCall.Value : InstallerCall → Type
  | appInstUtilIsExists _ => Bool
  | appInstUtilGetSize _ => ℕ
  | bgftDownloadRegisterPackageTask _ => ℤ × Option ℤ
  | bgftDownloadReregisterTaskPatch _ => ℤ
  | bgftDownloadGetTaskProgress _ _ => TaskProgressInfo
  | bgftDownloadFindTaskByContentId _ _ => ℤ
  | _ => Unit

variable (sv : Services)

def InstallerCall.run : (call : InstallerCall) → InstallerProgram call.Value
  | appInstUtilUninstallGame titleId => InstallerFunctions.appInstUtilUninstallGame sv titleId
  | appInstUtilUninstallAc contentId => InstallerFunctions.appInstUtilUninstallAc sv contentId
  | appInstUtilUninstallPatch titleId => InstallerFunctions.appInstUtilUninstallPatch sv titleId
  | appInstUtilUninstallTheme contentId => InstallerFunctions.appInstUtilUninstallTheme sv contentId
  | appInstUtilIsExists titleId => InstallerFunctions.appInstUtilIsExists sv titleId
  | appInstUtilGetSize titleId => InstallerFunctions.appInstUtilGetSize sv titleId
  | bgftDownloadRegisterPackageTask task =>
    InstallerFunctions.bgftDownloadRegisterPackageTask sv task
  | bgftDownloadStartTask taskId => InstallerFunctions.bgftDownloadStartTask sv taskId
  | bgftDownloadStopTask taskId => InstallerFunctions.bgftDownloadStopTask sv taskId
  | bgftDownloadPauseTask taskId => InstallerFunctions.bgftDownloadPauseTask sv taskId
  | bgftDownloadResumeTask taskId => InstallerFunctions.bgftDownloadResumeTask sv taskId
  | bgftDownloadUnregisterTask taskId => InstallerFunctions.bgftDownloadUnregisterTask sv taskId
  | bgftDownloadReregisterTaskPatch oldTaskId =>
    InstallerFunctions.bgftDownloadReregisterTaskPatch sv oldTaskId
  | bgftDownloadGetTaskProgress taskId progressInfo =>
    InstallerFunctions.bgftDownloadGetTaskProgress sv taskId progressInfo
  | bgftDownloadFindTaskByContentId contentId subType =>
    InstallerFunctions.bgftDownloadFindTaskByContentId sv contentId subType

/-- The services that the function needs are up. -/
def InstallerCall.ServicesUp : InstallerCall → Prop
  | appInstUtilUninstallGame _ => sv.appInstUtilInitialized = true
  | appInstUtilUninstallAc _ => sv.appInstUtilInitialized = true
  | appInstUtilUninstallPatch _ => sv.appInstUtilInitialized = true
  | appInstUtilUninstallTheme _ => sv.appInstUtilInitialized = true
  | appInstUtilIsExists _ => sv.appInstUtilInitialized = true
  | appInstUtilGetSize _ => sv.appInstUtilInitialized = true
  | bgftDownloadRegisterPackageTask _ =>
    sv.appInstUtilInitialized = true ∧ sv.bgftInitialized = true
  | _ => sv.bgftInitialized = true

def IsContentId (contentId : Option Bytes) : Prop :=
  (contentId.bind pkgParseContentId).isSome = true

/-- The arguments are ones that the function can act on. -/
def InstallerCall.ValidArguments : InstallerCall → Prop
  | appInstUtilUninstallGame titleId => titleId.isSome = true
  | appInstUtilUninstallAc contentId => IsContentId contentId
  | appInstUtilUninstallPatch titleId => titleId.isSome = true
  | appInstUtilUninstallTheme contentId => contentId.isSome = true
  | appInstUtilIsExists titleId => titleId.isSome = true
  | appInstUtilGetSize titleId => titleId.isSome = true
  | bgftDownloadRegisterPackageTask task => IsContentId task.contentId
  | bgftDownloadStartTask taskId => 0 ≤ taskId
  | bgftDownloadStopTask taskId => 0 ≤ taskId
  | bgftDownloadPauseTask taskId => 0 ≤ taskId
  | bgftDownloadResumeTask taskId => 0 ≤ taskId
  | bgftDownloadUnregisterTask taskId => 0 ≤ taskId
  | bgftDownloadReregisterTaskPatch oldTaskId => 0 ≤ oldTaskId
  | bgftDownloadGetTaskProgress taskId progressInfo => 0 ≤ taskId ∧ progressInfo.isSome = true
  | bgftDownloadFindTaskByContentId contentId subType =>
    contentId.isSome = true ∧ sv.subTypeUnknown < subType ∧ subType < sv.subTypeMax

/-- The code of what failed in a run: of the check that no call comes after, or of the last
call, before which all others returned zero. -/
inductive Cause (call : InstallerCall) : List SdkEvent → ℤ → Prop
  | notInitialized (h : ¬ call.ServicesUp sv) : Cause call [] sv.errorEnxio
  | invalidArgument (hup : call.ServicesUp sv) (h : ¬ call.ValidArguments sv) :
      Cause call [] sv.errorEinval
  | failed {before : List SdkEvent} {last : SdkEvent} (hbefore : ∀ e ∈ before, e.2.ret = 0)
      (hlast : last.2.ret ≠ 0) : Cause call (before++[last]) last.2.ret

/-- When the function fails, it has stored the cause. -/
def TellsCause (call : InstallerCall) (history : List SdkEvent)
    (r : Except (Option ℤ) call.Value) : Prop :=
  ∀ stored, r = .error stored → ∃ code, stored = some code ∧ Cause sv call history code

/-- No user of the console could be found. -/
def UserFails (history : List SdkEvent) : Prop :=
  ∃ reply : SdkReply .getForegroundUser, ⟨.getForegroundUser,reply⟩ ∈ history ∧ reply.ret ≠ 0

section Functions

variable {sv} {α β : Type} {history : List SdkEvent}

/-- A program with one call, which fails with what the call returns. -/
def CallsOnce (c : SdkCall) (p : InstallerProgram α) : Prop :=
  ∀ history r, Ends p history r → ∃ reply : SdkReply c, history = [⟨c,reply⟩] ∧
    ∀ stored, r = .error stored → stored = some reply.ret ∧ reply.ret ≠ 0

theorem callsOnce_request (c : SdkCall) : CallsOnce c (request c) := by
  rintro history r h
  obtain ⟨reply,rfl,rfl⟩ := ends_request.mp h
  refine ⟨reply,rfl,fun stored he => ?_⟩
  split_ifs at he with hret
  injection he with he
  exact ⟨he.symm,hret⟩

theorem CallsOnce.map {c : SdkCall} {p : InstallerProgram α} (h : CallsOnce c p) (f : α → β) :
    CallsOnce c (do let a ← p; pure (f a)) := by
  rintro history r hend
  rcases ends_bind.mp hend with ⟨first,rest,a,rfl,hfirst,hrest⟩ | ⟨e,rfl,herror⟩
  · obtain ⟨rfl,rfl⟩ := ends_done.mp hrest
    obtain ⟨reply,rfl,_⟩ := h _ _ hfirst
    exact ⟨reply,rfl,fun stored he => nomatch he⟩
  · obtain ⟨reply,rfl,hstored⟩ := h _ _ herror
    refine ⟨reply,rfl,fun stored he => hstored stored ?_⟩
    injection he with he
    rw [he]

/-- What a function does once its checks have passed. -/
inductive Acts : {α : Type} → InstallerProgram α → Prop
  | once {α : Type} {c : SdkCall} {p : InstallerProgram α} (hc : c ≠ .getForegroundUser)
      (h : CallsOnce c p) : Acts p
  | registers (task : PackageTask) : Acts (registerTask task)

/-- The calls of a registration end with the user that is not found, or with the task. -/
theorem ends_registerTask {task : PackageTask} {r : Except (Option ℤ) (ℤ × Option ℤ)}
    (h : Ends (registerTask task) history r) :
    (∃ user : SdkReply .getForegroundUser, user.ret ≠ 0 ∧ history = [⟨.getForegroundUser,user⟩] ∧
      r = .error none) ∨
    ∃ (user : SdkReply .getForegroundUser) (c : SdkCall) (reply : SdkReply c), user.ret = 0 ∧
      c ≠ .getForegroundUser ∧ history = [⟨.getForegroundUser,user⟩,⟨c,reply⟩] ∧
      ∀ stored, r = .error stored → stored = some reply.ret ∧ reply.ret ≠ 0 := by
  have hregistered : ∀ {ret taskId : ℤ} {history : List SdkEvent} {r : Except (Option ℤ) (ℤ × Option ℤ)},
      Ends (registeredTask ret taskId) history r →
        history = [] ∧ ∀ stored, r = .error stored → stored = some ret ∧ ret ≠ 0 := by
    intro ret taskId history r h
    unfold registeredTask at h
    split_ifs at h with hret hsame
    · obtain ⟨rfl,rfl⟩ := ends_done.mp h
      exact ⟨rfl,fun _ he => nomatch he⟩
    · obtain ⟨rfl,rfl⟩ := ends_failWith.mp h
      refine ⟨rfl,fun stored he => ?_⟩
      injection he with he
      exact ⟨he.symm,hret⟩
    · obtain ⟨rfl,rfl⟩ := ends_done.mp h
      exact ⟨rfl,fun _ he => nomatch he⟩
  obtain ⟨user,rest,rfl,hrest⟩ := ends_perform_bind.mp h
  split_ifs at hrest with huser hpatch
  · obtain ⟨rfl,rfl⟩ := ends_fail.mp hrest
    exact Or.inl ⟨user,huser,rfl,rfl⟩
  all_goals
    obtain ⟨reply,rest,rfl,hreply⟩ := ends_perform_bind.mp hrest
    obtain ⟨rfl,hstored⟩ := hregistered hreply
    exact Or.inr ⟨user,_,reply,not_not.mp huser,by simp,rfl,hstored⟩

theorem not_userFails_of_ne {before : List SdkEvent} {c : SdkCall} {reply : SdkReply c}
    (hbefore : ∀ e ∈ before, e.2.ret = 0) (hc : c ≠ .getForegroundUser) :
    ¬ UserFails (before++[⟨c,reply⟩]) := by
  rintro ⟨user,hmem,huser⟩
  rcases List.mem_append.mp hmem with hmem | hmem
  · exact huser (hbefore _ hmem)
  · rw [List.mem_singleton,Sigma.mk.injEq] at hmem
    exact hc hmem.1.symm

/-- It fails without a code with the user, and otherwise with the code of the last call. -/
theorem Acts.ends {p : InstallerProgram α} {r : Except (Option ℤ) α} (hacts : Acts p)
    (h : Ends p history r) :
    (UserFails history ∧ r = .error none) ∨
    (¬ UserFails history ∧ ∀ stored, r = .error stored → ∃ before last, history = before++[last] ∧
      (∀ e ∈ before, e.2.ret = 0) ∧ last.2.ret ≠ 0 ∧ stored = some last.2.ret) := by
  cases hacts with
  | once hc honce =>
    obtain ⟨reply,rfl,hstored⟩ := honce _ _ h
    have hbefore : ∀ e ∈ ([] : List SdkEvent), e.2.ret = 0 := by simp
    refine Or.inr ⟨not_userFails_of_ne hbefore hc,fun stored he => ?_⟩
    obtain ⟨hcode,hret⟩ := hstored stored he
    exact ⟨[],_,rfl,hbefore,hret,hcode⟩
  | registers task =>
    rcases ends_registerTask h with ⟨user,huser,rfl,rfl⟩ | ⟨user,c,reply,huser,hc,rfl,hstored⟩
    · exact Or.inl ⟨⟨user,List.mem_singleton_self _,huser⟩,rfl⟩
    · have hbefore : ∀ e ∈ [(⟨.getForegroundUser,user⟩ : SdkEvent)], e.2.ret = 0 := by
        rintro e he
        rw [List.mem_singleton.mp he]
        exact huser
      refine Or.inr ⟨not_userFails_of_ne hbefore hc,fun stored he => ?_⟩
      obtain ⟨hcode,hret⟩ := hstored stored he
      exact ⟨[⟨.getForegroundUser,user⟩],_,rfl,hbefore,hret,hcode⟩

variable (sv) in
/-- The checks of a function, with what they are for, in front of what it does. -/
inductive Guarded (up valid : Prop) : {α : Type} → InstallerProgram α → Prop
  | down {α : Type} (h : ¬ up) : Guarded up valid (failWith sv.errorEnxio : InstallerProgram α)
  | invalid {α : Type} (hup : up) (h : ¬ valid) :
      Guarded up valid (failWith sv.errorEinval : InstallerProgram α)
  | acts {α : Type} {p : InstallerProgram α} (hup : up) (hvalid : valid) (h : Acts p) :
      Guarded up valid p

variable {up valid : Prop} {p : InstallerProgram α}

theorem Guarded.of_acts (h : Acts p) : Guarded sv True True p := .acts trivial trivial h

theorem Guarded.appInstUtil (h : Guarded sv up valid p) :
    Guarded sv (sv.appInstUtilInitialized = true ∧ up) valid (do requireAppInstUtil sv; p) := by
  unfold requireAppInstUtil
  split_ifs with hdown
  · exact .down fun hup => absurd (hdown.symm.trans hup.1) (by decide)
  · have hflag := Bool.not_eq_false _ ▸ hdown
    change Guarded sv _ _ p
    cases h with
    | down h => exact .down fun hup => h hup.2
    | invalid hup h => exact .invalid ⟨hflag,hup⟩ h
    | acts hup hvalid h => exact .acts ⟨hflag,hup⟩ hvalid h

theorem Guarded.bgft (h : Guarded sv up valid p) :
    Guarded sv (sv.bgftInitialized = true ∧ up) valid (do requireBgft sv; p) := by
  unfold requireBgft
  split_ifs with hdown
  · exact .down fun hup => absurd (hdown.symm.trans hup.1) (by decide)
  · have hflag := Bool.not_eq_false _ ▸ hdown
    change Guarded sv _ _ p
    cases h with
    | down h => exact .down fun hup => h hup.2
    | invalid hup h => exact .invalid ⟨hflag,hup⟩ h
    | acts hup hvalid h => exact .acts ⟨hflag,hup⟩ hvalid h

/-- One more check of the arguments. -/
theorem Guarded.argument {check : Prop} (h : Guarded sv True valid p) (hcheck : check) :
    Guarded sv True (check ∧ valid) p := by
  cases h with
  | down h => exact absurd trivial h
  | invalid hup h => exact .invalid hup fun hvalid => h hvalid.2
  | acts hup hvalid h => exact .acts hup ⟨hcheck,hvalid⟩ h

theorem Guarded.nonNull {pointer : Option β} {f : β → InstallerProgram α}
    (h : ∀ b, Guarded sv True valid (f b)) :
    Guarded sv True (pointer.isSome = true ∧ valid) (requireNonNull sv pointer >>= f) := by
  cases pointer with
  | none => exact .invalid trivial fun hvalid => nomatch hvalid.1
  | some b => exact (h b).argument rfl

theorem Guarded.taskId {taskId : ℤ} (h : Guarded sv True valid p) :
    Guarded sv True (0 ≤ taskId ∧ valid) (do requireTaskId sv taskId; p) := by
  unfold requireTaskId
  split_ifs with hneg
  · exact .invalid trivial fun hvalid => not_le.mpr hneg hvalid.1
  · exact h.argument (not_lt.mp hneg)

theorem Guarded.subType {subType : ℤ} (h : Guarded sv True valid p) :
    Guarded sv True ((sv.subTypeUnknown < subType ∧ subType < sv.subTypeMax) ∧ valid)
      (do requireSubType sv subType; p) := by
  unfold requireSubType
  split_ifs with hrange
  · exact h.argument hrange
  · exact .invalid trivial fun hvalid => hrange hvalid.1

theorem Guarded.congr {up' valid' : Prop} (h : Guarded sv up valid p) (hup : up' ↔ up)
    (hvalid : valid' ↔ valid) : Guarded sv up' valid' p := by
  rw [propext hup,propext hvalid]
  exact h

theorem acts_request {call : SdkCall} (h : call ≠ .getForegroundUser) : Acts (request call) :=
  .once h (callsOnce_request call)

/-- The functions that act on a title or a content, given by a text. -/
theorem guarded_text {pointer : Option β} {f : β → InstallerProgram α} (h : ∀ b, Acts (f b)) :
    Guarded sv (sv.appInstUtilInitialized = true) (pointer.isSome = true)
      (do requireAppInstUtil sv; let b ← requireNonNull sv pointer; f b) := by
  have hchecked : Guarded sv True (pointer.isSome = true ∧ True) (requireNonNull sv pointer >>= f) :=
    .nonNull fun b => .of_acts (h b)
  exact hchecked.appInstUtil.congr (by simp) (by simp)

/-- The functions that act on a task. -/
theorem guarded_task {taskId : ℤ} (h : Acts p) :
    Guarded sv (sv.bgftInitialized = true) (0 ≤ taskId)
      (do requireBgft sv; requireTaskId sv taskId; p) :=
  (Guarded.of_acts h).taskId.bgft.congr (by simp) (by simp)

theorem guarded_run (call : InstallerCall) :
    Guarded sv (call.ServicesUp sv) (call.ValidArguments sv) (call.run sv) := by
  cases call with
  | appInstUtilUninstallGame titleId => exact guarded_text fun _ => acts_request (by simp)
  | appInstUtilUninstallAc contentId => exact guarded_text fun _ => acts_request (by simp)
  | appInstUtilUninstallPatch titleId => exact guarded_text fun _ => acts_request (by simp)
  | appInstUtilUninstallTheme contentId => exact guarded_text fun _ => acts_request (by simp)
  | appInstUtilIsExists titleId =>
    exact guarded_text fun _ => .once (by simp) ((callsOnce_request _).map _)
  | appInstUtilGetSize titleId =>
    exact guarded_text fun _ => .once (by simp) ((callsOnce_request _).map _)
  | bgftDownloadRegisterPackageTask task =>
    have hchecked : Guarded sv True (IsContentId task.contentId ∧ True)
        (requireContentId sv task.contentId >>= fun _ => registerTask task) :=
      .nonNull fun _ => .of_acts (.registers task)
    exact hchecked.bgft.appInstUtil.congr (by simp [InstallerCall.ServicesUp])
      (by simp [InstallerCall.ValidArguments])
  | bgftDownloadStartTask taskId => exact guarded_task (acts_request (by simp))
  | bgftDownloadStopTask taskId => exact guarded_task (acts_request (by simp))
  | bgftDownloadPauseTask taskId => exact guarded_task (acts_request (by simp))
  | bgftDownloadResumeTask taskId => exact guarded_task (acts_request (by simp))
  | bgftDownloadUnregisterTask taskId => exact guarded_task (acts_request (by simp))
  | bgftDownloadReregisterTaskPatch oldTaskId => exact guarded_task (acts_request (by simp))
  | bgftDownloadGetTaskProgress taskId progressInfo =>
    have hchecked : Guarded sv True (progressInfo.isSome = true ∧ True)
        (do requireNonNull sv progressInfo; request (.service (.downloadGetProgress taskId))) :=
      .nonNull fun _ => .of_acts (acts_request (by simp))
    exact hchecked.taskId.bgft.congr (by simp [InstallerCall.ServicesUp])
      (by simp [InstallerCall.ValidArguments])
  | bgftDownloadFindTaskByContentId contentId subType =>
    have hchecked : Guarded sv True
        (contentId.isSome = true ∧ (sv.subTypeUnknown < subType ∧ subType < sv.subTypeMax) ∧ True)
        (do
          let contentId ← requireNonNull sv contentId
          requireSubType sv subType
          request (.service (.downloadFindTaskByContentId contentId subType))) :=
      .nonNull fun _ => (Guarded.of_acts (acts_request (by simp))).subType
    exact hchecked.bgft.congr (by simp [InstallerCall.ServicesUp])
      (by simp [InstallerCall.ValidArguments])

/-- The cause is left by every failure but that of finding a user. -/
theorem Guarded.ends {call : InstallerCall} {r : Except (Option ℤ) α}
    (h : Guarded sv (call.ServicesUp sv) (call.ValidArguments sv) p) (hend : Ends p history r) :
    (UserFails history ∧ r = .error none) ∨
    (¬ UserFails history ∧ ∀ stored, r = .error stored →
      ∃ code, stored = some code ∧ Cause sv call history code) := by
  have hempty : ¬ UserFails [] := by
    rintro ⟨_,hmem,_⟩
    exact absurd hmem List.not_mem_nil
  cases h with
  | down h =>
    obtain ⟨rfl,rfl⟩ := ends_failWith.mp hend
    refine Or.inr ⟨hempty,fun stored he => ⟨_,?_,.notInitialized h⟩⟩
    injection he with he
    exact he.symm
  | invalid hup h =>
    obtain ⟨rfl,rfl⟩ := ends_failWith.mp hend
    refine Or.inr ⟨hempty,fun stored he => ⟨_,?_,.invalidArgument hup h⟩⟩
    injection he with he
    exact he.symm
  | acts hup hvalid hacts =>
    rcases hacts.ends hend with huser | ⟨hother,hlast⟩
    · exact Or.inl huser
    · refine Or.inr ⟨hother,fun stored he => ?_⟩
      obtain ⟨before,last,rfl,hbefore,hret,hcode⟩ := hlast stored he
      exact ⟨_,hcode,.failed hbefore hret⟩

/-- A function tells the cause of its failures, unless it was the user that failed. -/
theorem tellsCause_iff {call : InstallerCall} {r : Except (Option ℤ) call.Value}
    (h : Ends (call.run sv) history r) : TellsCause sv call history r ↔ ¬ UserFails history := by
  rcases (guarded_run call).ends h with ⟨huser,rfl⟩ | ⟨hother,htells⟩
  · refine iff_of_false (fun htells => ?_) (not_not.mpr huser)
    obtain ⟨code,hcode,_⟩ := htells none rfl
    exact nomatch hcode
  · exact iff_of_true htells hother

end Functions

/-- A code that the answer carries is the cause, and a function has stored it in this run. -/
def SendsCause (history : List SdkEvent) (reply : Answer) : Prop :=
  (∃ code, reply = kickErrorJson code) → ∃ (call : InstallerCall) (cause : ℤ),
    Ends (call.run sv) history (.error (some cause)) ∧ Cause sv call history cause ∧
      reply = kickErrorJson cause

/-- The calls that the handlers of the services lead to, with their answers. -/
def handledEvents (handled : Handled) : List SdkEvent := handled.calls.map (serviceEvent sv)

def HandledSendsCause (handled : Handled) : Prop :=
  SendsCause sv (handledEvents sv handled) handled.reply

section Endpoints

variable {sv} {sdk : TextSdk} {history : List SdkEvent} {reply : Answer} {α : Type}

/-- An answer of `kick_error` is none of `kick_error_json`. -/
theorem sendsCause_of_isKickError (h : IsKickError reply) : SendsCause sv history reply := by
  rintro ⟨code,hcode⟩
  obtain ⟨sdk,status,title,error,htitle,rfl⟩ := h
  have hhead := congrArg List.head? hcode
  simp only [kickError,kickErrorJson,kickResultHeaderJson,List.cons_append,List.head?_cons,
    Option.some.injEq,SbCall.sendStatus.injEq] at hhead
  exact absurd (hhead.2 ▸ htitle) (by decide)

theorem sendsCause_of_saysSuccess (h : SaysSuccess reply) : SendsCause sv history reply := by
  rintro ⟨code,rfl⟩
  exact absurd h (not_saysSuccess_kickErrorJson code)

theorem saysSuccess_write {text : Bytes} (h : bytes "\x7b \"status\": \"success\"" <+: text) :
    SaysSuccess (kickResultHeaderJson++[.write text]) :=
  ⟨text,mem_result.mpr rfl,h⟩

theorem not_userFails_services (calls : List SceCall) :
    ¬ UserFails (calls.map (serviceEvent sv)) := by
  rintro ⟨user,hmem,_⟩
  obtain ⟨call,_,hcall⟩ := List.mem_map.mp hmem
  injection hcall with hcall
  cases hcall

/-- What a handler makes of the outcome of a function. -/
theorem sendsCause_resultJson {call : InstallerCall} {out : Outcome call.Value}
    {text : call.Value → Bytes} (h : HasOutcome sv (call.run sv) out)
    (htext : ∀ value, bytes "\x7b \"status\": \"success\"" <+: text value) :
    SendsCause sv (out.calls.map (serviceEvent sv)) (resultJson out text) := by
  have htells := (tellsCause_iff h).mpr (not_userFails_services out.calls)
  unfold HasOutcome ending at h
  unfold TellsCause ending at htells
  unfold resultJson
  cases hresult : out.result with
  | some value => exact sendsCause_of_saysSuccess (saysSuccess_write (htext value))
  | none =>
    rw [hresult] at h htells
    obtain ⟨code,hcode,hcause⟩ := htells out.error rfl
    rw [hcode] at h ⊢
    exact fun _ => ⟨call,code,h,hcause,rfl⟩

/-- A helper that fails has answered with `kick_error`. -/
theorem handled_finish {x : Except Answer α} (hx : FailsWithKick x) {f : α → Except Answer Handled}
    (hf : ∀ a, HandledSendsCause sv (finish (f a))) : HandledSendsCause sv (finish (x >>= f)) := by
  cases x with
  | error reply => exact sendsCause_of_isKickError (hx reply rfl)
  | ok a => exact hf a

theorem handled_notFound (text : Bytes) : HandledSendsCause sv (notFound sdk text) :=
  sendsCause_of_isKickError ⟨sdk,404,_,text,by decide,rfl⟩

theorem success_statusSuccess : bytes "\x7b \"status\": \"success\"" <+: statusSuccess := by decide

theorem success_existsText (present : Bool) (text : Bytes) :
    bytes "\x7b \"status\": \"success\"" <+: existsText present++text := by
  unfold existsText
  repeat refine List.prefix_append_of_prefix ?_
  decide

theorem success_progressText (info : TaskProgressInfo) :
    bytes "\x7b \"status\": \"success\"" <+: progressText info := by
  unfold progressText
  repeat refine List.prefix_append_of_prefix ?_
  decide

/-- The outcome of the one function that a handler calls. -/
theorem handled_outcome {call : InstallerCall} {out : Outcome call.Value}
    {text : call.Value → Bytes} {ids : List Bytes} {numbers : List ℤ}
    (h : HasOutcome sv (call.run sv) out)
    (htext : ∀ value, bytes "\x7b \"status\": \"success\"" <+: text value) :
    HandledSendsCause sv (finish (pure ⟨resultJson out text,true,ids,numbers,out.calls⟩)) :=
  sendsCause_resultJson h htext

theorem handled_uninstall {action : UninstallAction} (h : action ∈ uninstallActions) (id : Bytes) :
    HandledSendsCause sv (finish (pure ⟨resultJson (action.fn sv id) fun _ => statusSuccess,true,[id],
      [],(action.fn sv id).calls⟩)) := by
  simp only [uninstallActions,List.mem_cons,List.not_mem_nil,or_false] at h
  have htext : ∀ _ : Unit, bytes "\x7b \"status\": \"success\"" <+: statusSuccess :=
    fun _ => success_statusSuccess
  rcases h with rfl | rfl | rfl | rfl
  · have hcall : HasOutcome sv (InstallerCall.run sv (.appInstUtilUninstallGame (some id))) _ :=
      hasOutcome_uninstallGame id
    exact handled_outcome hcall htext
  · have hcall : HasOutcome sv (InstallerCall.run sv (.appInstUtilUninstallAc (some id))) _ :=
      hasOutcome_uninstallAc id
    exact handled_outcome hcall htext
  · have hcall : HasOutcome sv (InstallerCall.run sv (.appInstUtilUninstallPatch (some id))) _ :=
      hasOutcome_uninstallPatch id
    exact handled_outcome hcall htext
  · have hcall : HasOutcome sv (InstallerCall.run sv (.appInstUtilUninstallTheme (some id))) _ :=
      hasOutcome_uninstallTheme id
    exact handled_outcome hcall htext

theorem handled_taskAction {action : TaskAction} (h : action ∈ taskActions) (taskId : ℤ) :
    HandledSendsCause sv (finish (pure ⟨resultJson (action.fn sv taskId) fun _ => statusSuccess,true,
      [],[taskId],(action.fn sv taskId).calls⟩)) := by
  simp only [taskActions,List.mem_cons,List.not_mem_nil,or_false] at h
  have htext : ∀ _ : Unit, bytes "\x7b \"status\": \"success\"" <+: statusSuccess :=
    fun _ => success_statusSuccess
  rcases h with rfl | rfl | rfl | rfl | rfl
  · have hcall : HasOutcome sv (InstallerCall.run sv (.bgftDownloadStartTask taskId)) _ :=
      hasOutcome_startTask taskId
    exact handled_outcome hcall htext
  · have hcall : HasOutcome sv (InstallerCall.run sv (.bgftDownloadStopTask taskId)) _ :=
      hasOutcome_stopTask taskId
    exact handled_outcome hcall htext
  · have hcall : HasOutcome sv (InstallerCall.run sv (.bgftDownloadPauseTask taskId)) _ :=
      hasOutcome_pauseTask taskId
    exact handled_outcome hcall htext
  · have hcall : HasOutcome sv (InstallerCall.run sv (.bgftDownloadResumeTask taskId)) _ :=
      hasOutcome_resumeTask taskId
    exact handled_outcome hcall htext
  · have hcall : HasOutcome sv (InstallerCall.run sv (.bgftDownloadUnregisterTask taskId)) _ :=
      hasOutcome_unregisterTask taskId
    exact handled_outcome hcall htext

theorem handled_handleApiUninstall (path : Bytes) (inData : Option Bytes) :
    HandledSendsCause sv (handleApiUninstall sdk sv path inData) := by
  unfold handleApiUninstall
  split
  · exact handled_notFound _
  · next action haction =>
    refine handled_finish (failsWithKick_requestParse _) fun nodes => ?_
    refine handled_finish (failsWithKick_requestId _ _) fun id => ?_
    exact handled_uninstall (List.mem_of_find?_eq_some haction) id

theorem handled_handleApiIsExists (inData : Option Bytes) :
    HandledSendsCause sv (handleApiIsExists sdk sv inData) := by
  refine handled_finish (failsWithKick_requestParse _) fun nodes => ?_
  refine handled_finish (failsWithKick_requestId _ _) fun titleId => ?_
  dsimp only
  split_ifs
  · refine sendsCause_of_saysSuccess (saysSuccess_write ?_)
    rw [List.append_assoc,List.append_assoc]
    exact success_existsText true _
  · have hcall : HasOutcome sv (InstallerCall.run sv (.appInstUtilIsExists (some titleId))) _ :=
      hasOutcome_isExists titleId
    exact handled_outcome hcall fun _ => success_existsText false _

theorem handled_handleApiTaskAction (path : Bytes) (inData : Option Bytes) :
    HandledSendsCause sv (handleApiTaskAction sdk sv path inData) := by
  unfold handleApiTaskAction
  split
  · exact handled_notFound _
  · next action haction =>
    refine handled_finish (failsWithKick_requestParse _) fun nodes => ?_
    refine handled_finish failsWithKick_requestTaskId fun taskId => ?_
    exact handled_taskAction (List.mem_of_find?_eq_some haction) taskId

theorem handled_handleApiGetTaskProgress (inData : Option Bytes) :
    HandledSendsCause sv (handleApiGetTaskProgress sdk sv inData) := by
  refine handled_finish (failsWithKick_requestParse _) fun nodes => ?_
  refine handled_finish failsWithKick_requestTaskId fun taskId => ?_
  have hcall : HasOutcome sv (InstallerCall.run sv (.bgftDownloadGetTaskProgress taskId (some ()))) _ :=
    hasOutcome_getTaskProgress taskId
  exact handled_outcome hcall success_progressText

theorem handled_handleApiFindTask (inData : Option Bytes) :
    HandledSendsCause sv (handleApiFindTask sdk sv inData) := by
  refine handled_finish (failsWithKick_requestParse _) fun nodes => ?_
  refine handled_finish (failsWithKick_requestId _ _) fun contentId => ?_
  refine handled_finish (failsWithKick_requestInt _) fun subType => ?_
  have hcall : HasOutcome sv
      (InstallerCall.run sv (.bgftDownloadFindTaskByContentId (some contentId) subType)) _ :=
    hasOutcome_findTaskByContentId contentId subType
  refine handled_outcome hcall fun taskId => ?_
  repeat refine List.prefix_append_of_prefix ?_
  decide

end Endpoints

section Install

variable {sv} {calls : InstallCalls} {stream : StreamId} {host : Host} {inData : Option Bytes}
  {history : List ServerEvent} {r : Except Answer Answer}

/-- No user of the console could be found in this run of an install. -/
def UserRefused (history : List ServerEvent) : Prop :=
  ∃ code, ⟨.getForegroundUser,.error code⟩ ∈ history

def refusesUser : ServerEvent → Bool
  | ⟨.getForegroundUser,.error _⟩ => true
  | _ => false

theorem userRefused_iff : UserRefused history ↔ ∃ e ∈ history, refusesUser e = true := by
  constructor
  · rintro ⟨code,hmem⟩
    exact ⟨_,hmem,rfl⟩
  · rintro ⟨⟨c,answer⟩,hmem,he⟩
    cases c
    case getForegroundUser =>
      cases answer with
      | error code => exact ⟨code,hmem⟩
      | ok userId => cases he
    all_goals cases he

instance : Decidable (UserRefused history) := decidable_of_iff _ userRefused_iff.symm

theorem userRefused_registering :
    UserRefused (history.flatMap registering) ↔ UserRefused history := by
  refine exists_congr fun code => ?_
  rw [List.mem_flatMap]
  constructor
  · rintro ⟨⟨c,answer⟩,hmem,he⟩
    cases c <;> simp only [registering,List.mem_singleton,List.not_mem_nil] at he
    · exact he ▸ hmem
    · cases he
    · cases he
  · exact fun hmem => ⟨_,hmem,List.mem_singleton_self _⟩

theorem flatMap_sdkEvents (history : List ServerEvent) :
    (history.flatMap registering).flatMap sdkEvents = history.flatMap sdkEvents := by
  have hone : ∀ e : ServerEvent, (registering e).flatMap sdkEvents = sdkEvents e := by
    rintro ⟨c,answer⟩
    cases c
    case getForegroundUser => cases answer <;> rfl
    all_goals rfl
  rw [List.flatMap_assoc]
  simp only [hone]

theorem userRefused_of_userFails (h : UserFails (history.flatMap sdkEvents)) :
    UserRefused history := by
  obtain ⟨user,hmem,huser⟩ := h
  obtain ⟨⟨c,answer⟩,hevent,he⟩ := List.mem_flatMap.mp hmem
  cases c
  case getForegroundUser =>
    cases answer with
    | error code => exact ⟨code,hevent⟩
    | ok userId =>
      rw [sdkEvents,List.mem_singleton,Sigma.mk.injEq] at he
      rw [eq_of_heq he.2] at huser
      exact absurd rfl huser
  all_goals simp [sdkEvents] at he

/-- No function stores a code and ends when a user has been asked for. -/
theorem not_ends_user {call : InstallerCall} {user : SdkReply .getForegroundUser} {cause : ℤ} :
    ¬ Ends (call.run sv) [⟨.getForegroundUser,user⟩] (.error (some cause)) := by
  intro h
  have hacts : ∀ {α : Type} {p : InstallerProgram α}, Acts p →
      ¬ Ends p [⟨.getForegroundUser,user⟩] (.error (some cause)) := by
    intro α p hacts h
    cases hacts with
    | once hc honce =>
      obtain ⟨reply,hhistory,_⟩ := honce _ _ h
      rw [List.cons.injEq,Sigma.mk.injEq] at hhistory
      exact hc hhistory.1.1.symm
    | registers task =>
      rcases ends_registerTask h with ⟨_,_,_,he⟩ | ⟨_,_,_,_,_,hhistory,_⟩
      · cases he
      · cases hhistory
  have hguarded : ∀ {α : Type} {p : InstallerProgram α} {up valid : Prop}, Guarded sv up valid p →
      ¬ Ends p [⟨.getForegroundUser,user⟩] (.error (some cause)) := by
    intro α p up valid hguarded h
    cases hguarded with
    | down _ => exact nomatch (ends_failWith.mp h).1
    | invalid _ _ => exact nomatch (ends_failWith.mp h).1
    | acts _ _ h' => exact hacts h' h
  exact hguarded (guarded_run call) h

/-- The answer to a registration whose user was found. -/
theorem sendsCause_taskAnswer {kept : List ServerEvent} {task : InstallPieces.Task}
    {registered : Except ℤ ℤ}
    (h : Ends (InstallPieces.bgftDownloadRegisterPackageTask calls stream sv host task :
      ServerProgram Answer (Except ℤ ℤ)) kept (.ok registered)) (huser : ¬ UserRefused kept) :
    SendsCause sv (kept.flatMap sdkEvents) (taskAnswer task registered) := by
  obtain ⟨result,hends,rfl⟩ :=
    registration_refines h fun code hmem => absurd ⟨code,hmem⟩ huser
  have hcall : Ends (InstallerCall.run sv (.bgftDownloadRegisterPackageTask
    (packageTask stream host task))) (kept.flatMap sdkEvents) result := hends
  cases result with
  | ok value => exact sendsCause_of_saysSuccess (saysSuccess_taskAnswer task _)
  | error stored =>
    obtain ⟨code,rfl,hcause⟩ :=
      (tellsCause_iff hcall).mpr (fun hfails => huser (userRefused_of_userFails hfails)) stored rfl
    exact fun _ => ⟨_,code,hcall,hcause,rfl⟩

theorem sendsCause_handleApiInstall_iff
    (h : Ends (handleApiInstall calls stream sv host inData) history r) :
    SendsCause sv (history.flatMap sdkEvents) (replyOf r) ↔ ¬ UserRefused history := by
  have hregisters := registersFor_of_ends h
  rw [← flatMap_sdkEvents,← userRefused_registering]
  generalize history.flatMap registering = kept at hregisters
  cases r with
  | error reply =>
    obtain ⟨rfl,hkick⟩ := hregisters
    refine iff_of_true (sendsCause_of_isKickError hkick) ?_
    rintro ⟨_,hmem⟩
    exact absurd hmem List.not_mem_nil
  | ok reply =>
    obtain ⟨task,registered,hends,rfl⟩ := hregisters
    by_cases huser : UserRefused kept
    · refine iff_of_false (fun hsends => ?_) (not_not.mpr huser)
      obtain ⟨code,hmem⟩ := huser
      rcases registration_cases _ _ hends with ⟨_,rfl,_⟩ | ⟨_,⟨code',rfl⟩,hresult⟩ |
        ⟨_,userId,answer,rfl,_⟩
      · exact absurd hmem List.not_mem_nil
      · injection hresult with hresult
        obtain ⟨call,cause,hcall,_⟩ := hsends ⟨_,congrArg (taskAnswer task) hresult⟩
        exact not_ends_user hcall
      · cases hpatch : task.info.isPatch <;> simp [registerEvent,hpatch] at hmem
    · exact iff_of_true (sendsCause_taskAnswer hends huser) huser

end Install

/-- The answers of the handlers that call a function with an error pointer, but for that of
an install. -/
def endpointAnswers (sdk : TextSdk) (path : Bytes) (inData : Option Bytes) : List Handled :=
  [handleApiUninstall sdk sv path inData,handleApiIsExists sdk sv inData,
   handleApiTaskAction sdk sv path inData,handleApiGetTaskProgress sdk sv inData,
   handleApiFindTask sdk sv inData]

variable {sv}

/-- A task that the service refuses to stop. -/
def refusedStop : List SdkEvent := [⟨.service (.downloadStopTask 5),7,()⟩]

theorem refusedStop_ends :
    Ends (InstallerCall.run sampleServices (.bgftDownloadStopTask 5)) refusedStop
      (.error (some 7)) := by
  refine ends_perform_bind.mpr ⟨⟨7,()⟩,[],rfl,?_⟩
  exact ends_failWith.mpr ⟨rfl,rfl⟩

/-- A console on which no user is in the foreground. -/
def userlessReply : (c : ServerCall) → Reply c
  | .getForegroundUser => .error 9
  | c => sampleReply ⟨0,5⟩ c

def userlessCalls : InstallCalls := { sampleCalls with uninitialized := 0x1234 }

def userlessRequest : ServerProgram Answer Answer :=
  handleApiInstall userlessCalls sampleStream sampleServices sampleHost (some sampleBody)

def userlessHistory : List ServerEvent :=
  Program.history (fun (_ : Unit) c => ((),userlessReply c)) userlessRequest ()

def userlessResult : Except Answer Answer :=
  (Program.run (fun (_ : Unit) c => ((),userlessReply c)) userlessRequest ()).2

def userlessTask : PackageTask where
  contentId := some (bytes "UP0000-CUSA00001_00-ABCDEFGHIJKLMNOP")
  contentUrl := contentUrl sampleHost sampleStream
  contentName := bytes "T"
  iconPath := none
  packageType := bytes "PS4GD"
  packageSubType := none
  packageSize := 0x3000
  isPatch := false

def userlessCall : InstallerCall := .bgftDownloadRegisterPackageTask userlessTask

theorem userlessTask_ends :
    Ends (userlessCall.run sampleServices) [⟨.getForegroundUser,9,0⟩] (.error none) := by
  refine ends_perform_bind.mpr ⟨⟨9,0⟩,[],rfl,?_⟩
  exact ends_fail.mpr ⟨rfl,rfl⟩

end InstallerErrors
end RemotePkgInstaller
