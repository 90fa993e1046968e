import RemotePkgInstaller.InstallPieces

/-! The functions of `installer.c` that take an error pointer, with the calls of the
console's libraries that they make.  The error pointer is not null; another pointer that may
be null is an `Option`. -/
namespace RemotePkgInstaller
namespace InstallerFunctions

open ContentId Installer InstallPieces Programs Program Requests ServerCalls

inductive SdkCall
  | service (call : SceCall)
  | reregisterTaskPatch (taskId : ℤ)
  | getForegroundUser
  | downloadRegisterTask (param : DownloadParam)
  | debugDownloadRegisterPkg (param : DownloadParam)
  deriving DecidableEq

/-- What a call stores where its last argument points. -/
@[reducible] def Stored : SdkCall → Type
  | .service (.appExists _) => ℤ
  | .service (.appGetSize _) => UInt32
  | .service (.downloadGetProgress _) => TaskProgressInfo
  | .service (.downloadFindTaskByContentId _ _) => ℤ
  | .service _ => Unit
  | _ => ℤ

structure SdkReply (call : SdkCall) where
  ret : ℤ
  value : Stored call

abbrev SdkEvent := Event SdkReply

/-- Such a function fails with what it has stored in `*error`. -/
abbrev InstallerProgram := Program SdkCall SdkReply (Option ℤ)

variable (sv : Services) {α : Type}

def failWith (code : ℤ) : InstallerProgram α := fail (some code)

def requireAppInstUtil : InstallerProgram Unit :=
  if sv.appInstUtilInitialized = false then failWith sv.errorEnxio else pure ()

def requireBgft : InstallerProgram Unit :=
  if sv.bgftInitialized = false then failWith sv.errorEnxio else pure ()

def requireNonNull (pointer : Option α) : InstallerProgram α :=
  match pointer with
  | none => failWith sv.errorEinval
  | some a => pure a

/-- The parser refuses a null pointer like an id that is none. -/
def requireContentId (contentId : Option Bytes) : InstallerProgram PkgContentInfo :=
  requireNonNull sv (contentId.bind pkgParseContentId)

def requireTaskId (taskId : ℤ) : InstallerProgram Unit :=
  if taskId < 0 then failWith sv.errorEinval else pure ()

/-- A call, and the value that it stores when it returns zero. -/
def request (call : SdkCall) : InstallerProgram (Stored call) := do
  let reply ← perform call
  if reply.ret ≠ 0 then failWith reply.ret else pure reply.value

def appInstUtilUninstallGame (titleId : Option Bytes) : InstallerProgram Unit := do
  requireAppInstUtil sv
  let titleId ← requireNonNull sv titleId
  request (.service (.appUnInstall titleId))

def appInstUtilUninstallAc (contentId : Option Bytes) : InstallerProgram Unit := do
  requireAppInstUtil sv
  let info ← requireContentId sv contentId
  request (.service (.appUnInstallAddcont info.titleId info.label))

def appInstUtilUninstallPatch (titleId : Option Bytes) : InstallerProgram Unit := do
  requireAppInstUtil sv
  let titleId ← requireNonNull sv titleId
  request (.service (.appUnInstallPat titleId))

def appInstUtilUninstallTheme (contentId : Option Bytes) : InstallerProgram Unit := do
  requireAppInstUtil sv
  let contentId ← requireNonNull sv contentId
  request (.service (.appUnInstallTheme contentId))

def appInstUtilIsExists (titleId : Option Bytes) : InstallerProgram Bool := do
  requireAppInstUtil sv
  let titleId ← requireNonNull sv titleId
  let flag ← request (.service (.appExists titleId))
  pure (flag ≠ 0)

def appInstUtilGetSize (titleId : Option Bytes) : InstallerProgram ℕ := do
  requireAppInstUtil sv
  let titleId ← requireNonNull sv titleId
  let size32 ← request (.service (.appGetSize titleId))
  pure size32.toNat

/-- The arguments of a registration, without where its task id goes. -/
structure PackageTask where
  contentId : Option Bytes
  contentUrl : Bytes
  contentName : Bytes
  iconPath : Option Bytes
  packageType : Bytes
  packageSubType : Option Bytes
  packageSize : UInt64
  isPatch : Bool

def PackageTask.param (task : PackageTask) (userId : ℤ) : DownloadParam where
  userId := userId
  id := task.contentId.getD []
  contentUrl := task.contentUrl
  contentName := task.contentName
  iconPath := task.iconPath.getD []
  packageType := task.packageType
  packageSubType := task.packageSubType.getD []
  packageSize := task.packageSize

/-- The task id, with the code that is stored in `*error` all the same. -/
def registeredTask (ret taskId : ℤ) : InstallerProgram (ℤ × Option ℤ) :=
  if ret ≠ 0 then
    if ret = sameApplicationAlreadyInstalled then pure (-1,some ret) else failWith ret
  else pure (toInt32 taskId,none)

/-- The part of a registration behind its checks. -/
def registerTask (task : PackageTask) : InstallerProgram (ℤ × Option ℤ) := do
  let user ← perform .getForegroundUser
  -- the one failure after which `*error` is left as it was
  if user.ret ≠ 0 then fail none
  else if task.isPatch then do
    let reply ← perform (.debugDownloadRegisterPkg (task.param user.value))
    registeredTask reply.ret reply.value
  else do
    let reply ← perform (.downloadRegisterTask (task.param user.value))
    registeredTask reply.ret reply.value

def bgftDownloadRegisterPackageTask (task : PackageTask) : InstallerProgram (ℤ × Option ℤ) := do
  requireAppInstUtil sv
  requireBgft sv
  let _ ← requireContentId sv task.contentId
  registerTask task

def bgftDownloadStartTask (taskId : ℤ) : InstallerProgram Unit := do
  requireBgft sv
  requireTaskId sv taskId
  request (.service (.downloadStartTask taskId))

def bgftDownloadStopTask (taskId : ℤ) : InstallerProgram Unit := do
  requireBgft sv
  requireTaskId sv taskId
  request (.service (.downloadStopTask taskId))

def bgftDownloadPauseTask (taskId : ℤ) : InstallerProgram Unit := do
  requireBgft sv
  requireTaskId sv taskId
  request (.service (.downloadPauseTask taskId))

def bgftDownloadResumeTask (taskId : ℤ) : InstallerProgram Unit := do
  requireBgft sv
  requireTaskId sv taskId
  request (.service (.downloadResumeTask taskId))

def bgftDownloadUnregisterTask (taskId : ℤ) : InstallerProgram Unit := do
  requireBgft sv
  requireTaskId sv taskId
  request (.service (.downloadUnregisterTask taskId))

def bgftDownloadReregisterTaskPatch (oldTaskId : ℤ) : InstallerProgram ℤ := do
  requireBgft sv
  requireTaskId sv oldTaskId
  request (.reregisterTaskPatch oldTaskId)

/-- `progressInfo` is null or not. -/
def bgftDownloadGetTaskProgress (taskId : ℤ) (progressInfo : Option Unit) :
    InstallerProgram TaskProgressInfo := do
  requireBgft sv
  requireTaskId sv taskId
  requireNonNull sv progressInfo
  request (.service (.downloadGetProgress taskId))

def requireSubType (subType : ℤ) : InstallerProgram Unit :=
  if ¬ (sv.subTypeUnknown < subType ∧ subType < sv.subTypeMax) then failWith sv.errorEinval
  else pure ()

def bgftDownloadFindTaskByContentId (contentId : Option Bytes) (subType : ℤ) :
    InstallerProgram ℤ := do
  requireBgft sv
  let contentId ← requireNonNull sv contentId
  requireSubType sv subType
  request (.service (.downloadFindTaskByContentId contentId subType))

section Ends

variable {history : List SdkEvent}

theorem ends_failWith {code : ℤ} {r : Except (Option ℤ) α} :
    Ends (failWith code) history r ↔ history = [] ∧ r = .error (some code) := ends_fail

/-- A call that does not return zero has its code stored. -/
theorem ends_request {call : SdkCall} {r : Except (Option ℤ) (Stored call)} :
    Ends (request call) history r ↔ ∃ reply : SdkReply call, history = [⟨call,reply⟩] ∧
      r = if reply.ret ≠ 0 then .error (some reply.ret) else .ok reply.value := by
  unfold request
  rw [ends_perform_bind]
  refine exists_congr fun reply => ?_
  constructor
  · rintro ⟨rest,rfl,h⟩
    split_ifs at h ⊢ with hret
    · obtain ⟨rfl,rfl⟩ := ends_failWith.mp h
      exact ⟨rfl,rfl⟩
    · obtain ⟨rfl,rfl⟩ := ends_done.mp h
      exact ⟨rfl,rfl⟩
  · rintro ⟨rfl,rfl⟩
    refine ⟨[],rfl,?_⟩
    split_ifs with hret
    · exact ends_failWith.mpr ⟨rfl,rfl⟩
    · exact ends_done.mpr ⟨rfl,rfl⟩

end Ends

section Services

/-- What the services store. -/
def storedBy : (call : SceCall) → Stored (.service call)
  | .appUnInstall _ => ()
  | .appUnInstallAddcont _ _ => ()
  | .appUnInstallPat _ => ()
  | .appUnInstallTheme _ => ()
  | .appExists titleId => sv.existsFlag titleId
  | .appGetSize titleId => sv.size32 titleId
  | .downloadStartTask _ => ()
  | .downloadStopTask _ => ()
  | .downloadPauseTask _ => ()
  | .downloadResumeTask _ => ()
  | .downloadUnregisterTask _ => ()
  | .downloadGetProgress taskId => sv.progress taskId
  | .downloadFindTaskByContentId contentId subType => sv.foundTask contentId subType

def serviceEvent (call : SceCall) : SdkEvent := ⟨.service call,sv.ret call,storedBy sv call⟩

/-- How a program with this outcome ends. -/
def ending (out : Outcome α) : Except (Option ℤ) α :=
  match out.result with
  | some a => .ok a
  | none => .error out.error

/-- With these services the program has the outcome. -/
def HasOutcome (p : InstallerProgram α) (out : Outcome α) : Prop :=
  Ends p (out.calls.map (serviceEvent sv)) (ending out)

variable {sv} {β : Type}

theorem hasOutcome_failWith (code : ℤ) :
    HasOutcome sv (failWith code : InstallerProgram α) (refuse code) :=
  ends_failWith.mpr ⟨rfl,rfl⟩

theorem hasOutcome_request (call : SceCall) :
    HasOutcome sv (request (.service call)) (Installer.request sv call (storedBy sv call)) := by
  refine ends_request.mpr ⟨⟨sv.ret call,storedBy sv call⟩,?_,?_⟩
  · rw [Installer.request_calls]
    rfl
  · unfold Installer.request
    split_ifs <;> rfl

/-- The value of a call is turned into what the function stores. -/
theorem hasOutcome_request_map (call : SceCall) (f : Stored (.service call) → α) :
    HasOutcome sv (do let value ← request (.service call); pure (f value))
      (Installer.request sv call (f (storedBy sv call))) := by
  have h : HasOutcome sv (request (.service call)) _ := hasOutcome_request call
  unfold HasOutcome Installer.request at *
  split_ifs at h ⊢ with hret
  · exact ends_bind.mpr (Or.inr ⟨_,rfl,h⟩)
  · exact ends_bind.mpr (Or.inl ⟨_,[],_,rfl,h,ends_done.mpr ⟨rfl,rfl⟩⟩)

theorem hasOutcome_appInstUtil {p : InstallerProgram α} {call : SceCall} {value : α}
    (h : HasOutcome sv p (Installer.request sv call value)) :
    HasOutcome sv (do requireAppInstUtil sv; p) (appInstUtilRequest sv call value) := by
  unfold requireAppInstUtil appInstUtilRequest
  split_ifs
  · exact hasOutcome_failWith _
  · exact h

theorem hasOutcome_bgft {p : InstallerProgram α} {call : ℤ → SceCall} {value : ℤ → α} {taskId : ℤ}
    (h : HasOutcome sv p (Installer.request sv (call taskId) (value taskId))) :
    HasOutcome sv (do requireBgft sv; requireTaskId sv taskId; p)
      (bgftRequest sv call value taskId) := by
  unfold requireBgft requireTaskId bgftRequest
  by_cases hdown : sv.bgftInitialized = false
  · rw [if_pos hdown,if_pos hdown]
    exact hasOutcome_failWith _
  · rw [if_neg hdown,if_neg hdown]
    split_ifs
    · exact hasOutcome_failWith _
    · exact h

theorem hasOutcome_uninstallGame (titleId : Bytes) :
    HasOutcome sv (appInstUtilUninstallGame sv (some titleId))
      (Installer.appInstUtilUninstallGame sv titleId) :=
  hasOutcome_appInstUtil (hasOutcome_request (.appUnInstall titleId))

theorem hasOutcome_uninstallAc (contentId : Bytes) :
    HasOutcome sv (appInstUtilUninstallAc sv (some contentId))
      (Installer.appInstUtilUninstallAc sv contentId) := by
  unfold appInstUtilUninstallAc Installer.appInstUtilUninstallAc requireAppInstUtil requireContentId
  rw [Option.bind_some]
  split_ifs
  · exact hasOutcome_failWith _
  · cases pkgParseContentId contentId with
    | none => exact hasOutcome_failWith _
    | some info => exact hasOutcome_request (.appUnInstallAddcont info.titleId info.label)

theorem hasOutcome_uninstallPatch (titleId : Bytes) :
    HasOutcome sv (appInstUtilUninstallPatch sv (some titleId))
      (Installer.appInstUtilUninstallPatch sv titleId) :=
  hasOutcome_appInstUtil (hasOutcome_request (.appUnInstallPat titleId))

theorem hasOutcome_uninstallTheme (contentId : Bytes) :
    HasOutcome sv (appInstUtilUninstallTheme sv (some contentId))
      (Installer.appInstUtilUninstallTheme sv contentId) :=
  hasOutcome_appInstUtil (hasOutcome_request (.appUnInstallTheme contentId))

theorem hasOutcome_isExists (titleId : Bytes) :
    HasOutcome sv (appInstUtilIsExists sv (some titleId))
      (Installer.appInstUtilIsExists sv titleId) :=
  hasOutcome_appInstUtil (hasOutcome_request_map (.appExists titleId) fun flag => decide (flag ≠ 0))

theorem hasOutcome_getSize (titleId : Bytes) :
    HasOutcome sv (appInstUtilGetSize sv (some titleId)) (Installer.appInstUtilGetSize sv titleId) :=
  hasOutcome_appInstUtil (hasOutcome_request_map (.appGetSize titleId) UInt32.toNat)

theorem hasOutcome_startTask (taskId : ℤ) : HasOutcome sv (bgftDownloadStartTask sv taskId)
    (Installer.bgftDownloadStartTask sv taskId) :=
  hasOutcome_bgft (hasOutcome_request (.downloadStartTask taskId))

theorem hasOutcome_stopTask (taskId : ℤ) : HasOutcome sv (bgftDownloadStopTask sv taskId)
    (Installer.bgftDownloadStopTask sv taskId) :=
  hasOutcome_bgft (hasOutcome_request (.downloadStopTask taskId))

theorem hasOutcome_pauseTask (taskId : ℤ) : HasOutcome sv (bgftDownloadPauseTask sv taskId)
    (Installer.bgftDownloadPauseTask sv taskId) :=
  hasOutcome_bgft (hasOutcome_request (.downloadPauseTask taskId))

theorem hasOutcome_resumeTask (taskId : ℤ) : HasOutcome sv (bgftDownloadResumeTask sv taskId)
    (Installer.bgftDownloadResumeTask sv taskId) :=
  hasOutcome_bgft (hasOutcome_request (.downloadResumeTask taskId))

theorem hasOutcome_unregisterTask (taskId : ℤ) : HasOutcome sv (bgftDownloadUnregisterTask sv taskId)
    (Installer.bgftDownloadUnregisterTask sv taskId) :=
  hasOutcome_bgft (hasOutcome_request (.downloadUnregisterTask taskId))

theorem hasOutcome_getTaskProgress (taskId : ℤ) :
    HasOutcome sv (bgftDownloadGetTaskProgress sv taskId (some ()))
      (Installer.bgftDownloadGetTaskProgress sv taskId) :=
  hasOutcome_bgft (hasOutcome_request (.downloadGetProgress taskId))

theorem hasOutcome_findTaskByContentId (contentId : Bytes) (subType : ℤ) :
    HasOutcome sv (bgftDownloadFindTaskByContentId sv (some contentId) subType)
      (Installer.bgftDownloadFindTaskByContentId sv contentId subType) := by
  unfold bgftDownloadFindTaskByContentId Installer.bgftDownloadFindTaskByContentId requireBgft
  by_cases hdown : sv.bgftInitialized = false
  · rw [if_pos hdown,if_pos hdown]
    exact hasOutcome_failWith _
  · rw [if_neg hdown,if_neg hdown]
    change HasOutcome sv (requireSubType sv subType >>= fun _ => _) _
    unfold requireSubType
    split_ifs
    · exact hasOutcome_request (.downloadFindTaskByContentId contentId subType)
    · exact hasOutcome_failWith _

end Services

section Registration

/-- The arguments with which the server registers a package. -/
def packageTask (stream : StreamId) (host : Host) (task : InstallPieces.Task) : PackageTask where
  contentId := some task.contentId
  contentUrl := contentUrl host stream
  contentName := task.titleName
  iconPath := if task.info.hasIcon then some (iconPath stream) else none
  packageType := task.packageType
  packageSubType := none
  packageSize := task.info.packageSize
  isPatch := task.info.isPatch

theorem packageTask_param (stream : StreamId) (host : Host) (task : InstallPieces.Task)
    (userId : ℤ) : (packageTask stream host task).param userId = downloadParam stream host task userId := by
  unfold packageTask PackageTask.param downloadParam
  cases task.info.hasIcon <;> rfl

/-- A call that the server makes for a registration, as one of this model. -/
def sdkEvents : ServerEvent → List SdkEvent
  | ⟨.getForegroundUser,.error code⟩ => [⟨.getForegroundUser,code,0⟩]
  | ⟨.getForegroundUser,.ok userId⟩ => [⟨.getForegroundUser,0,userId⟩]
  | ⟨.downloadRegisterTask param,answer⟩ => [⟨.downloadRegisterTask param,answer.ret,answer.taskId⟩]
  | ⟨.debugDownloadRegisterPkg param,answer⟩ =>
    [⟨.debugDownloadRegisterPkg param,answer.ret,answer.taskId⟩]
  | _ => []

/-- What the server makes of the result: `ret` holds what has been stored, if anything. -/
def registeredOf (uninitialized : ℤ) : Except (Option ℤ) (ℤ × Option ℤ) → Except ℤ ℤ
  | .ok (taskId,_) => .ok taskId
  | .error stored => .error (stored.getD uninitialized)

variable {sv} {stream : StreamId} {host : Host} {task : InstallPieces.Task} {calls : InstallCalls}

theorem ends_registeredTask (answer : Registered) (uninitialized : ℤ) :
    ∃ r, Ends (registeredTask answer.ret answer.taskId) [] r ∧
      registrationResult answer = registeredOf uninitialized r := by
  unfold registeredTask registrationResult
  split_ifs
  · exact ⟨_,ends_done.mpr ⟨rfl,rfl⟩,rfl⟩
  · exact ⟨_,ends_failWith.mpr ⟨rfl,rfl⟩,rfl⟩
  · exact ⟨_,ends_done.mpr ⟨rfl,rfl⟩,rfl⟩

theorem register_down {task : PackageTask}
    (h : sv.appInstUtilInitialized = false ∨ sv.bgftInitialized = false) :
    bgftDownloadRegisterPackageTask sv task = failWith sv.errorEnxio := by
  unfold bgftDownloadRegisterPackageTask requireAppInstUtil requireBgft
  by_cases happ : sv.appInstUtilInitialized = false
  · rw [if_pos happ]
    rfl
  · rw [if_neg happ,if_pos (h.resolve_left happ)]
    rfl

theorem register_up {task : PackageTask} (happ : sv.appInstUtilInitialized ≠ false)
    (hbgft : sv.bgftInitialized ≠ false) :
    bgftDownloadRegisterPackageTask sv task =
      (requireContentId sv task.contentId >>= fun _ => registerTask task) := by
  unfold bgftDownloadRegisterPackageTask requireAppInstUtil requireBgft
  rw [if_neg happ,if_neg hbgft]
  rfl

/-- A registration by the server is one by the function, whose failures have codes. -/
theorem registration_refines {ε : Type} {kept : List ServerEvent} {registered : Except ℤ ℤ}
    (h : Ends (InstallPieces.bgftDownloadRegisterPackageTask calls stream sv host task :
      ServerProgram ε (Except ℤ ℤ)) kept (.ok registered))
    (hcode : ∀ code, ⟨.getForegroundUser,.error code⟩ ∈ kept → code ≠ 0) :
    ∃ r, Ends (bgftDownloadRegisterPackageTask sv (packageTask stream host task))
        (kept.flatMap sdkEvents) r ∧ registered = registeredOf calls.uninitialized r := by
  unfold InstallPieces.bgftDownloadRegisterPackageTask at h
  split_ifs at h with hdown hid hpatch
  · obtain ⟨rfl,he⟩ := ends_done.mp h
    injection he with he
    rw [register_down hdown]
    exact ⟨_,ends_failWith.mpr ⟨rfl,rfl⟩,he⟩
  · obtain ⟨rfl,he⟩ := ends_done.mp h
    injection he with he
    rw [register_up (fun h0 => hdown (Or.inl h0)) fun h0 => hdown (Or.inr h0)]
    have hnone : pkgParseContentId task.contentId = none := Option.isNone_iff_eq_none.mp hid
    rw [requireContentId,packageTask,Option.bind_some,hnone]
    exact ⟨_,ends_failWith.mpr ⟨rfl,rfl⟩,he⟩
  all_goals
    rw [register_up (fun h0 => hdown (Or.inl h0)) fun h0 => hdown (Or.inr h0)]
    obtain ⟨info,hinfo⟩ := Option.ne_none_iff_exists'.mp (mt Option.isNone_iff_eq_none.mpr hid)
    have hrun : (requireContentId sv (packageTask stream host task).contentId >>= fun _ =>
        registerTask (packageTask stream host task)) = registerTask (packageTask stream host task) := by
      rw [requireContentId,packageTask,Option.bind_some,hinfo]
      rfl
    rw [hrun]
    obtain ⟨user,rest,rfl,huser⟩ := ends_perform_bind.mp h
    cases user with
    | error code =>
      obtain ⟨rfl,he⟩ := ends_done.mp huser
      injection he with he
      have hne : code ≠ 0 := hcode code (List.mem_singleton_self _)
      refine ⟨.error none,ends_perform_bind.mpr ⟨⟨code,0⟩,[],rfl,?_⟩,he⟩
      rw [if_pos hne]
      exact ends_fail.mpr ⟨rfl,rfl⟩
    | ok userId =>
      dsimp only at huser
      rw [← packageTask_param] at huser
      obtain ⟨answer,rest,rfl,hanswer⟩ := ends_perform_bind.mp huser
      obtain ⟨rfl,he⟩ := ends_done.mp hanswer
      injection he with he
      obtain ⟨r,hr,hresult⟩ := ends_registeredTask answer calls.uninitialized
      refine ⟨r,ends_perform_bind.mpr ⟨⟨0,userId⟩,_,rfl,?_⟩,he.trans hresult⟩
      rw [if_neg (not_not.mpr rfl)]
      have hpatch' : (packageTask stream host task).isPatch = task.info.isPatch := rfl
      simp only [hpatch',hpatch,if_true]
      exact ends_perform_bind.mpr ⟨⟨answer.ret,answer.taskId⟩,[],rfl,hr⟩

end Registration

end InstallerFunctions
end RemotePkgInstaller
