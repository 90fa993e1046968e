import RemotePkgInstaller.ArmedTransfers
import RemotePkgInstaller.Latches
import RemotePkgInstaller.LibraryCalls

/-! Which libraries of the console are up, over whole runs of `installer.c` and `http.c`:
what their flags say beside the calls that have been made. -/
namespace RemotePkgInstaller
namespace LibraryRuns

open ArmedTransfers BundleRuns HttpState HttpText InstallerErrors InstallerFunctions Latches
  LibraryCalls Programs Program Util
open HttpTransfer hiding SdkCall

/-- The state after a run, and the calls of libraries that it has made. -/
structure World where
  st : Console
  trace : List LibraryCall

def World.start : World := ⟨.fresh,[]⟩

def World.after (w : World) (left : Left) : World :=
  ⟨left.st,w.trace++left.issued.map Issued.call⟩

def step (w : World) (c : Call) : World := w.after (c.run w.st)

/-- What is initialised and terminated by calls of its own; `http.c` needs two of them. -/
inductive Part
  | appInstUtil | bgft | ssl | http

/-- The call initialises it. -/
@[simp] def Starts : Part → LibraryCall → Prop
  | .appInstUtil,.appInstUtilInitialize ret => ret = 0
  | .bgft,.bgftServiceIntInit ret => ret = 0
  | .ssl,.sslInit ret => 0 ≤ ret
  | .http,.httpInit ret => 0 ≤ ret
  | _,_ => False

/-- The call terminates it, whatever it returns. -/
@[simp] def Stops : Part → LibraryCall → Prop
  | .appInstUtil,.appInstUtilTerminate _ => True
  | .bgft,.bgftServiceIntTerm _ => True
  | .ssl,.sslTerm _ _ => True
  | .http,.httpTerm _ _ => True
  | _,_ => False

/-- It has been initialised, and its termination has not been called since. -/
def Up (part : Part) (trace : List LibraryCall) : Prop := Latched (Starts part) (Stops part) trace

/-- The flags say what is up, and the heap is there for its library. -/
structure InOrder (w : World) : Prop where
  appInstUtil : w.st.appInstUtilInitialized = true ↔ Up .appInstUtil w.trace
  bgft : w.st.bgftInitialized = true ↔ Up .bgft w.trace
  http : w.st.http.initialized = true ↔ Up .ssl w.trace ∧ Up .http w.trace
  heap : w.st.bgftHeap.isSome = w.st.bgftInitialized

/-- What a call keeps to in any state. -/
structure Careful (st : Console) (c : Call) : Prop where
  once : ∀ library, c.initializes = some library → st.flag library = true → (c.run st).issued = []
  unwinds : ∀ before ret after,
    (c.run st).issued.map Issued.call = before++.sslInit ret::after → 0 ≤ ret →
      (c.run st).succeeded = false → ∃ ctx ret', .sslTerm ctx ret' ∈ after
  guarded : ∀ p ∈ (c.run st).issued, ∀ library, p.call.operates = some library →
    p.st.flag library = true
  fails : ∀ library ∈ c.needs, st.flag library = false → (c.run st).succeeded = false

section Installer

variable {sv : Installer.Services} {α β : Type} {p : InstallerProgram α}

/-- The library that the call operates on is up. -/
def Permitted (sv : Installer.Services) (c : SdkCall) : Prop :=
  ∀ library, libraryOf c = some library →
    match library with
    | .appInstUtil => sv.appInstUtilInitialized = true
    | .bgft => sv.bgftInitialized = true
    | .http => False

theorem calls_request {P : SdkCall → Prop} {c : SdkCall} (h : P c) : Calls P (request c) := by
  refine calls_perform_bind h fun reply => ?_
  split_ifs <;> trivial

theorem calls_appInstUtil {P : SdkCall → Prop} (h : sv.appInstUtilInitialized = true → Calls P p) :
    Calls P (do requireAppInstUtil sv; p) := by
  unfold requireAppInstUtil
  split_ifs with hdown
  · trivial
  · exact h (by simpa using hdown)

theorem calls_bgft {P : SdkCall → Prop} (h : sv.bgftInitialized = true → Calls P p) :
    Calls P (do requireBgft sv; p) := by
  unfold requireBgft
  split_ifs with hdown
  · trivial
  · exact h (by simpa using hdown)

theorem calls_nonNull {P : SdkCall → Prop} {pointer : Option β} {f : β → InstallerProgram α}
    (h : ∀ b, Calls P (f b)) : Calls P (requireNonNull sv pointer >>= f) := by
  cases pointer with
  | none => trivial
  | some b => exact h b

theorem calls_taskId {P : SdkCall → Prop} {taskId : ℤ} (h : Calls P p) :
    Calls P (do requireTaskId sv taskId; p) := by
  unfold requireTaskId
  split_ifs
  · trivial
  · exact h

theorem calls_subType {P : SdkCall → Prop} {subType : ℤ} (h : Calls P p) :
    Calls P (do requireSubType sv subType; p) := by
  unfold requireSubType
  split_ifs
  · exact h
  · trivial

theorem permitted_appInstUtil {c : SdkCall} (hc : libraryOf c = some .appInstUtil)
    (hup : sv.appInstUtilInitialized = true) : Permitted sv c := by
  rintro library hlibrary
  rw [hc,Option.some.injEq] at hlibrary
  exact hlibrary ▸ hup

theorem permitted_bgft {c : SdkCall} (hc : libraryOf c = some .bgft)
    (hup : sv.bgftInitialized = true) : Permitted sv c := by
  rintro library hlibrary
  rw [hc,Option.some.injEq] at hlibrary
  exact hlibrary ▸ hup

theorem permitted_getForegroundUser : Permitted sv .getForegroundUser :=
  fun _ hlibrary => nomatch hlibrary

theorem calls_text {pointer : Option β} {f : β → InstallerProgram α}
    (h : ∀ b, sv.appInstUtilInitialized = true → Calls (Permitted sv) (f b)) :
    Calls (Permitted sv) (do requireAppInstUtil sv; let b ← requireNonNull sv pointer; f b) :=
  calls_appInstUtil fun hup => calls_nonNull fun b => h b hup

theorem calls_task {taskId : ℤ} {c : SdkCall} (hc : libraryOf c = some .bgft) :
    Calls (Permitted sv) (do requireBgft sv; requireTaskId sv taskId; request c) :=
  calls_bgft fun hup => calls_taskId (calls_request (permitted_bgft hc hup))

theorem calls_registerTask (task : PackageTask) (hup : sv.bgftInitialized = true) :
    Calls (Permitted sv) (registerTask task) := by
  have hregistered : ∀ ret taskId, Calls (Permitted sv) (registeredTask ret taskId) := by
    intro ret taskId
    unfold registeredTask
    split_ifs <;> trivial
  refine calls_perform_bind permitted_getForegroundUser fun user => ?_
  split_ifs
  · trivial
  · exact calls_perform_bind (permitted_bgft rfl hup) fun reply => hregistered _ _
  · exact calls_perform_bind (permitted_bgft rfl hup) fun reply => hregistered _ _

/-- A function of `installer.c` calls only libraries that are up. -/
theorem calls_run (c : InstallerCall) : Calls (Permitted sv) (c.run sv) := by
  cases c with
  | appInstUtilUninstallGame titleId =>
    exact calls_text fun _ hup => calls_request (permitted_appInstUtil rfl hup)
  | appInstUtilUninstallAc contentId =>
    exact calls_text fun _ hup => calls_request (permitted_appInstUtil rfl hup)
  | appInstUtilUninstallPatch titleId =>
    exact calls_text fun _ hup => calls_request (permitted_appInstUtil rfl hup)
  | appInstUtilUninstallTheme contentId =>
    exact calls_text fun _ hup => calls_request (permitted_appInstUtil rfl hup)
  | appInstUtilIsExists titleId =>
    exact calls_text fun _ hup =>
      calls_bind (calls_request (permitted_appInstUtil rfl hup)) fun _ => trivial
  | appInstUtilGetSize titleId =>
    exact calls_text fun _ hup =>
      calls_bind (calls_request (permitted_appInstUtil rfl hup)) fun _ => trivial
  | bgftDownloadRegisterPackageTask task =>
    exact calls_appInstUtil fun _ => calls_bgft fun hup => calls_nonNull fun _ =>
      calls_registerTask task hup
  | bgftDownloadStartTask taskId => exact calls_task rfl
  | bgftDownloadStopTask taskId => exact calls_task rfl
  | bgftDownloadPauseTask taskId => exact calls_task rfl
  | bgftDownloadResumeTask taskId => exact calls_task rfl
  | bgftDownloadUnregisterTask taskId => exact calls_task rfl
  | bgftDownloadReregisterTaskPatch oldTaskId => exact calls_task rfl
  | bgftDownloadGetTaskProgress taskId progressInfo =>
    exact calls_bgft fun hup => calls_taskId (calls_nonNull fun _ =>
      calls_request (permitted_bgft rfl hup))
  | bgftDownloadFindTaskByContentId contentId subType =>
    exact calls_bgft fun hup => calls_nonNull fun _ => calls_subType
      (calls_request (permitted_bgft rfl hup))

/-- It fails when a library that it acts through is down. -/
theorem run_down {c : InstallerCall} (h : ¬ c.ServicesUp sv) :
    c.run sv = failWith sv.errorEnxio := by
  have hguarded : ∀ {α : Type} {p : InstallerProgram α} {up valid : Prop}, ¬ up →
      Guarded sv up valid p → p = failWith sv.errorEnxio := by
    intro α p up valid hup hguarded
    cases hguarded with
    | down _ => rfl
    | invalid hup' _ => exact absurd hup' hup
    | acts hup' _ _ => exact absurd hup' hup
  exact hguarded h (guarded_run c)

end Installer

section Calls

variable {st : Console}

/-- The flags and the heap are as they were. -/
structure SameFlags (st st' : Console) : Prop where
  appInstUtil : st'.appInstUtilInitialized = st.appInstUtilInitialized
  bgft : st'.bgftInitialized = st.bgftInitialized
  heap : st'.bgftHeap = st.bgftHeap
  http : st'.http.initialized = st.http.initialized

/-- A call that neither initialises nor terminates anything. -/
def Operates (c : LibraryCall) : Prop := ∀ part, ¬ Starts part c ∧ ¬ Stops part c

/-- What every function does that is no `init` and no `fini`. -/
structure Operation (st : Console) (left : Left) : Prop where
  flags : SameFlags st left.st
  operates : ∀ p ∈ left.issued, Operates p.call
  guarded : ∀ p ∈ left.issued, ∀ library, p.call.operates = some library →
    p.st.flag library = true

theorem operates_installer (c : SdkCall) : Operates (.installer c) := by
  intro part
  cases part <;> exact ⟨not_false,not_false⟩

theorem operation_installer (sv : Installer.Services) (c : InstallerCall) (replies : Replies) :
    Operation st (installerCall st sv c replies) := by
  refine ⟨⟨rfl,rfl,rfl,rfl⟩,fun p hp => ?_,fun p hp library hlibrary => ?_⟩
  · obtain ⟨call,hcall,rfl⟩ := List.mem_map.mp hp
    obtain ⟨e,_,rfl⟩ := List.mem_map.mp hcall
    exact operates_installer _
  · obtain ⟨call,hcall,rfl⟩ := List.mem_map.mp hp
    obtain ⟨e,he,rfl⟩ := List.mem_map.mp hcall
    have hpermitted := ((calls_run c).runs (ends_run (answering replies) (c.run (st.services sv)) ())).1
      e he library hlibrary
    cases library with
    | appInstUtil => exact hpermitted
    | bgft => exact hpermitted
    | http => exact hpermitted.elim

theorem operates_of_operates {c : LibraryCall} {library : Library}
    (h : c.operates = some library) : Operates c := by
  intro part
  cases c <;> cases part <;> first | exact ⟨not_false,not_false⟩ | cases h

theorem SameFlags.refl (st : Console) : SameFlags st st := ⟨rfl,rfl,rfl,rfl⟩

theorem sameFlags_http {http : Http} (h : http.initialized = st.http.initialized) :
    SameFlags st { st with http := http } := ⟨rfl,rfl,rfl,h⟩

/-- Operations of libhttp that are only issued where it is up. -/
theorem guarded_issue_http {calls : List LibraryCall} (h : ∀ c ∈ calls, c.operates = some .http)
    (hup : calls ≠ [] → st.http.initialized = true) :
    ∀ p ∈ st.issue calls, ∀ library, p.call.operates = some library → p.st.flag library = true := by
  intro p hp library hlibrary
  obtain ⟨call,hcall,rfl⟩ := List.mem_map.mp hp
  rw [h call hcall,Option.some.injEq] at hlibrary
  exact hlibrary ▸ hup (List.ne_nil_of_mem hcall)

theorem operation_http {st' : Console} {succeeded : Bool} {calls : List LibraryCall}
    (hflags : SameFlags st st') (hcalls : ∀ c ∈ calls, c.operates = some .http)
    (hup : calls ≠ [] → st.http.initialized = true) :
    Operation st ⟨st',succeeded,st.issue calls⟩ := by
  refine ⟨hflags,fun p hp => ?_,guarded_issue_http hcalls hup⟩
  obtain ⟨c,hc,rfl⟩ := List.mem_map.mp hp
  exact operates_of_operates (hcalls c hc)

theorem operation_silent {st' : Console} {succeeded : Bool} (h : SameFlags st st') :
    Operation st ⟨st',succeeded,[]⟩ :=
  ⟨h,fun _ hp => (nomatch hp),fun _ hp => nomatch hp⟩

theorem unloadCalls_operates {http : Http} {ctx : ℤ} :
    ∀ c ∈ unloadCalls http ctx, c.operates = some .http := by
  unfold unloadCalls
  split_ifs <;> simp [LibraryCall.operates]

theorem loadCalls_operates {http : Http} {ctx : ℤ} {path : Bytes} {calls : BundleCalls} :
    ∀ c ∈ loadCalls http ctx path calls, c.operates = some .http := by
  unfold loadCalls
  split_ifs
  · simp
  · split
    · simp
    · split_ifs
      · simp
      · intro c hc
        rcases List.mem_append.mp hc with hc | hc
        · exact unloadCalls_operates c hc
        · rw [List.mem_singleton.mp hc]
          rfl

theorem loadCalls_down {http : Http} {ctx : ℤ} {path : Bytes} {calls : BundleCalls}
    (h : loadCalls http ctx path calls ≠ []) : http.initialized = true := by
  by_contra hdown
  exact h (if_pos (Or.inl (by simpa using hdown)))

theorem operation_httpLoadCaBundle (path : Option Bytes) (calls : BundleCalls) :
    Operation st (LibraryCalls.httpLoadCaBundle st path calls) :=
  operation_http (sameFlags_http (httpLoadCaBundle_initialized _ _ _)) loadCalls_operates loadCalls_down

theorem operation_httpLoadConfig (content : Bytes) (io : ReadCalls) :
    Operation st (LibraryCalls.httpLoadConfig st content io) := by
  obtain ⟨mode,path,heq⟩ := httpLoadConfig_eq st.http content io
  refine operation_silent (sameFlags_http ?_)
  rw [heq]

theorem escapeCalls_operates {http : Http} : ∀ c ∈ escapeCalls http, c.operates = some .http := by
  unfold escapeCalls
  split_ifs <;> simp [LibraryCall.operates]

theorem escapeCalls_up {http : Http} (h : escapeCalls http ≠ []) : http.initialized = true := by
  by_contra hdown
  exact h (if_neg hdown)

theorem operation_httpEscapeJsonString (sdk : TextSdk) (maxOutSize : ℕ) (s : Option Bytes) :
    Operation st (LibraryCalls.httpEscapeJsonString st sdk maxOutSize s) := by
  cases s with
  | none => exact operation_silent (.refl st)
  | some s => exact operation_http (.refl st) escapeCalls_operates escapeCalls_up

theorem operation_httpUnescapeUri (sdk : TextSdk) (calls : UnescapeCalls) (s : Option Bytes) :
    Operation st (LibraryCalls.httpUnescapeUri st sdk calls s) := by
  cases s with
  | none => exact operation_silent (.refl st)
  | some s =>
    refine operation_http (.refl st) ?_ fun h => ?_
    · unfold unescapeCalls
      split_ifs <;> simp [LibraryCall.operates]
    · by_contra hdown
      exact h (if_pos (by simpa using hdown))

theorem operation_transferred {α : Type} {t : Transfer α} (hhttp : OnlyLastError st.http t.http)
    (hdown : st.http.initialized = false → t.calls = []) : Operation st (transferred st t) := by
  refine operation_http (sameFlags_http ?_) (fun c hc => ?_) fun h => ?_
  · obtain ⟨text,heq⟩ := hhttp
    rw [heq]
  · obtain ⟨call,_,rfl⟩ := List.mem_map.mp hc
    rfl
  · by_contra hflag
    rw [hdown (by simpa using hflag)] at h
    exact h rfl

theorem httpGetFileSize_down {url : Bytes} {sdk : Sdk} {http : Http}
    {sslVerify : Option SslVerifyMode} (h : http.initialized = false) :
    HttpTransfer.httpGetFileSize url sdk http sslVerify = ⟨http,none,[]⟩ := if_pos h

theorem httpDownloadFile_down {url : Bytes} {sdk : Sdk} {http : Http} {size : Option UInt64}
    {offset : UInt64} {sslVerify : Option SslVerifyMode} (h : http.initialized = false) :
    HttpTransfer.httpDownloadFile url sdk http size offset sslVerify = ⟨http,none,[]⟩ := if_pos h

theorem operation_httpGetFileSize (url : Option Bytes) (sdk : Sdk)
    (sslVerify : Option SslVerifyMode) :
    Operation st (LibraryCalls.httpGetFileSize st url sdk sslVerify) := by
  cases url with
  | none => exact operation_silent (.refl st)
  | some url =>
    refine operation_transferred (httpGetFileSize_onlyLastError sslVerify) fun hdown => ?_
    rw [httpGetFileSize_down hdown]

theorem operation_httpDownloadFile (url : Option Bytes) (sdk : Sdk) (size : Option UInt64)
    (offset : UInt64) (sslVerify : Option SslVerifyMode) :
    Operation st (LibraryCalls.httpDownloadFile st url sdk size offset sslVerify) := by
  cases url with
  | none => exact operation_silent (.refl st)
  | some url =>
    refine operation_transferred (httpDownloadFile_onlyLastError size offset sslVerify) fun hdown => ?_
    rw [httpDownloadFile_down hdown]

/-- The calls of an `init` or a `fini`. -/
inductive Manages : Call → Prop
  | appInstUtilInit (ret : ℤ) : Manages (.appInstUtilInit ret)
  | appInstUtilFini (ret : ℤ) : Manages (.appInstUtilFini ret)
  | bgftInit (heap : Option ℕ) (ret : ℤ) : Manages (.bgftInit heap ret)
  | bgftFini (ret : ℤ) : Manages (.bgftFini ret)
  | httpInit (calls : InitCalls) (sslTerm : ℤ) : Manages (.httpInit calls sslTerm)
  | httpFini (unloadCert httpTerm sslTerm : ℤ) : Manages (.httpFini unloadCert httpTerm sslTerm)

theorem run_cases (st : Console) (c : Call) : Operation st (c.run st) ∨ Manages c := by
  cases c with
  | appInstUtilInit ret => exact Or.inr (.appInstUtilInit ret)
  | appInstUtilFini ret => exact Or.inr (.appInstUtilFini ret)
  | bgftInit heap ret => exact Or.inr (.bgftInit heap ret)
  | bgftFini ret => exact Or.inr (.bgftFini ret)
  | httpInit calls sslTerm => exact Or.inr (.httpInit calls sslTerm)
  | httpFini unloadCert httpTerm sslTerm => exact Or.inr (.httpFini unloadCert httpTerm sslTerm)
  | installer sv c replies => exact Or.inl (operation_installer sv c replies)
  | httpLoadCaBundle path calls => exact Or.inl (operation_httpLoadCaBundle path calls)
  | httpLoadConfig content io => exact Or.inl (operation_httpLoadConfig content io)
  | httpSaveConfig sdk config io =>
    exact Or.inl (operation_http (.refl st) escapeCalls_operates escapeCalls_up)
  | httpSetSslVerify mode => exact Or.inl (operation_silent (sameFlags_http rfl))
  | httpClearLastError => exact Or.inl (operation_silent (sameFlags_http rfl))
  | httpEscapeJsonString sdk maxOutSize s =>
    exact Or.inl (operation_httpEscapeJsonString sdk maxOutSize s)
  | httpUnescapeUri sdk calls s => exact Or.inl (operation_httpUnescapeUri sdk calls s)
  | httpGetFileSize url sdk sslVerify => exact Or.inl (operation_httpGetFileSize url sdk sslVerify)
  | httpDownloadFile url sdk size offset sslVerify =>
    exact Or.inl (operation_httpDownloadFile url sdk size offset sslVerify)

end Calls

section Steps

variable {w : World} {part : Part} {c : LibraryCall} {calls trace : List LibraryCall}

@[simp] theorem up_append :
    Up part (trace++calls) ↔ Up part calls ∨ Up part trace ∧ ∀ c ∈ calls, ¬ Stops part c :=
  latched_append

@[simp] theorem up_cons : Up part (c::calls) ↔ Up part calls ∨ Starts part c ∧ ∀ c ∈ calls, ¬ Stops part c :=
  latched_cons

@[simp] theorem not_up_nil : ¬ Up part [] := not_latched_nil

theorem up_append_operates (h : ∀ c ∈ calls, Operates c) : Up part (trace++calls) ↔ Up part trace :=
  latched_append_of_neither fun c hc => h c hc part

@[simp] theorem issue_call (st : Console) (calls : List LibraryCall) :
    (st.issue calls).map Issued.call = calls := by
  rw [Console.issue,List.map_map]
  exact List.map_id _

/-- An operation changes no flag, and nothing is initialised or terminated by it. -/
theorem operation_inOrder {left : Left} (h : InOrder w) (hop : Operation w.st left) :
    InOrder (w.after left) := by
  have hup : ∀ part, Up part (w.trace++left.issued.map Issued.call) ↔ Up part w.trace := by
    refine fun part => up_append_operates fun c hc => ?_
    obtain ⟨p,hp,rfl⟩ := List.mem_map.mp hc
    exact hop.operates p hp
  refine ⟨?_,?_,?_,?_⟩
  · rw [World.after,hup,hop.flags.appInstUtil]
    exact h.appInstUtil
  · rw [World.after,hup,hop.flags.bgft]
    exact h.bgft
  · rw [World.after,hup,hup,hop.flags.http]
    exact h.http
  · exact (congrArg Option.isSome hop.flags.heap).trans (h.heap.trans hop.flags.bgft.symm)

theorem appInstUtilInit_inOrder (h : InOrder w) (ret : ℤ) :
    InOrder (w.after (LibraryCalls.appInstUtilInit w.st ret)) := by
  unfold LibraryCalls.appInstUtilInit
  split_ifs with hinit hret
  · exact operation_inOrder h (operation_silent (.refl _))
  all_goals
    have hdown : ¬ Up .appInstUtil w.trace := fun hup => hinit (h.appInstUtil.mpr hup)
    refine ⟨?_,?_,?_,h.heap⟩
    · simpa [World.after,hdown] using hret
    · simpa [World.after] using h.bgft
    · simpa [World.after] using h.http

theorem appInstUtilFini_inOrder (h : InOrder w) (ret : ℤ) :
    InOrder (w.after (LibraryCalls.appInstUtilFini w.st ret)) := by
  unfold LibraryCalls.appInstUtilFini
  split_ifs
  · exact operation_inOrder h (operation_silent (.refl _))
  · refine ⟨?_,?_,?_,h.heap⟩
    · simp [World.after]
    · simpa [World.after] using h.bgft
    · simpa [World.after] using h.http

theorem bgftInit_inOrder (h : InOrder w) (heap : Option ℕ) (ret : ℤ) :
    InOrder (w.after (LibraryCalls.bgftInit w.st heap ret)) := by
  unfold LibraryCalls.bgftInit
  split_ifs with hinit hheap hret
  · exact operation_inOrder h (operation_silent (.refl _))
  all_goals
    have hdown : ¬ Up .bgft w.trace := fun hup => hinit (h.bgft.mpr hup)
  · refine ⟨?_,?_,?_,rfl⟩
    · simpa [World.after] using h.appInstUtil
    · simpa [World.after] using hdown
    · simpa [World.after] using h.http
  · refine ⟨?_,?_,?_,rfl⟩
    · simpa [World.after] using h.appInstUtil
    · simpa [World.after,hdown] using hret
    · simpa [World.after] using h.http
  · refine ⟨?_,?_,?_,Option.isSome_iff_ne_none.mpr hheap⟩
    · simpa [World.after] using h.appInstUtil
    · simpa [World.after,hdown] using hret
    · simpa [World.after] using h.http

theorem bgftFini_inOrder (h : InOrder w) (ret : ℤ) :
    InOrder (w.after (LibraryCalls.bgftFini w.st ret)) := by
  unfold LibraryCalls.bgftFini
  split_ifs
  · exact operation_inOrder h (operation_silent (.refl _))
  · refine ⟨?_,?_,?_,rfl⟩
    · simpa [World.after] using h.appInstUtil
    · simp [World.after]
    · simpa [World.after] using h.http

theorem startHttp_initialized (st : Console) (ssl http : ℤ) {calls : InitCalls}
    (hdown : ¬ st.http.initialized = true) (hnet : ¬ calls.netInitialized = false)
    (hssl : ¬ calls.sslInit < 0) (hhttp : ¬ calls.httpInit < 0) :
    (startHttp st ssl http calls).1.http.initialized = true := by
  have hstart : ¬ (calls.netInitialized = false ∨ calls.sslInit < 0 ∨ calls.httpInit < 0) := by
    simp only [not_or]
    exact ⟨hnet,hssl,hhttp⟩
  obtain ⟨mode,path,hconfig⟩ :=
    httpLoadConfig_eq { st.http with initialized := true } calls.config calls.readConfig
  change (HttpState.httpInit st.http calls).1.initialized = true
  unfold HttpState.httpInit
  rw [if_neg hdown,if_neg hstart]
  dsimp only
  split_ifs
  · rw [httpLoadCaBundle_initialized,hconfig]
  · rw [httpClearLastError,httpLoadCaBundle_initialized,hconfig]

/-- The settings and the bundle start and stop nothing. -/
theorem startHttp_issued (st : Console) (ssl http : ℤ) (calls : InitCalls) :
    ∀ c ∈ (startHttp st ssl http calls).2.map Issued.call, Operates c := by
  unfold startHttp
  dsimp only
  rw [issue_call]
  exact fun c hc => operates_of_operates (loadCalls_operates c hc)

theorem httpInit_inOrder (h : InOrder w) (calls : InitCalls) (sslTerm : ℤ) :
    InOrder (w.after (LibraryCalls.httpInit w.st calls sslTerm)) := by
  unfold LibraryCalls.httpInit
  split_ifs with hinit hnet hssl hhttp
  · exact operation_inOrder h (operation_silent (.refl _))
  · exact operation_inOrder h (operation_silent (.refl _))
  · have hnot : ¬ (0 : ℤ) ≤ calls.sslInit := not_le.mpr hssl
    refine ⟨?_,?_,?_,h.heap⟩
    · simpa [World.after] using h.appInstUtil
    · simpa [World.after] using h.bgft
    · simpa [World.after,hnot] using h.http
  · refine ⟨?_,?_,?_,h.heap⟩
    · simpa [World.after] using h.appInstUtil
    · simpa [World.after] using h.bgft
    · simpa [World.after] using hinit
  · have hup : ∀ part trace, Up part (trace++(startHttp w.st calls.sslInit calls.httpInit calls).2.map
        Issued.call) ↔ Up part trace := fun part trace =>
      up_append_operates (startHttp_issued _ _ _ _)
    have hstarted := startHttp_initialized w.st calls.sslInit calls.httpInit hinit hnet hssl hhttp
    have hinits : ∀ part, Up part (w.trace++((w.st.issue [.sslInit calls.sslInit,
        .httpInit calls.httpInit]++(startHttp w.st calls.sslInit calls.httpInit calls).2).map
          Issued.call)) ↔
        Up part (w.trace++[.sslInit calls.sslInit,.httpInit calls.httpInit]) := by
      intro part
      rw [List.map_append,issue_call,← List.append_assoc,hup]
    refine ⟨(h.appInstUtil.trans ?_),(h.bgft.trans ?_),iff_of_true hstarted ⟨?_,?_⟩,h.heap⟩
    all_goals
      rw [World.after,hinits]
    · simp
    · simp
    · simpa using Or.inl (not_lt.mp hssl)
    · simpa using Or.inl (not_lt.mp hhttp)

theorem httpFini_inOrder (h : InOrder w) (unloadCert httpTerm sslTerm : ℤ) :
    InOrder (w.after (LibraryCalls.httpFini w.st unloadCert httpTerm sslTerm)) := by
  unfold LibraryCalls.httpFini
  split_ifs with hdown
  · exact operation_inOrder h (operation_silent (.refl _))
  · have hdropped : ¬ (BundleRuns.httpFini w.st.http unloadCert).initialized = true := by
      rw [BundleRuns.httpFini,if_neg hdown]
      exact Bool.false_ne_true
    have hunload : ∀ part, Up part (w.trace++unloadCalls w.st.http w.st.libhttpCtxId) ↔
        Up part w.trace := fun part =>
      up_append_operates fun c hc => operates_of_operates (unloadCalls_operates c hc)
    have hterms : ∀ part, Up part (w.trace++(w.st.issue (unloadCalls w.st.http w.st.libhttpCtxId++
        [.httpTerm w.st.libhttpCtxId httpTerm,.sslTerm w.st.libsslCtxId sslTerm])).map Issued.call) ↔
        Up part ((w.trace++unloadCalls w.st.http w.st.libhttpCtxId)++
          [.httpTerm w.st.libhttpCtxId httpTerm,.sslTerm w.st.libsslCtxId sslTerm]) := by
      intro part
      rw [issue_call,List.append_assoc]
    refine ⟨h.appInstUtil.trans ?_,h.bgft.trans ?_,iff_of_false hdropped fun hup => ?_,h.heap⟩
    · rw [World.after,hterms,up_append,hunload]
      simp
    · rw [World.after,hterms,up_append,hunload]
      simp
    · have hssl := hup.1
      rw [World.after,hterms,up_append,hunload] at hssl
      simp at hssl

/-- What is up is known from the flags after every call. -/
theorem step_inOrder (h : InOrder w) (c : Call) : InOrder (step w c) := by
  rcases run_cases w.st c with hop | hmanages
  · exact operation_inOrder h hop
  · cases hmanages with
    | appInstUtilInit ret => exact appInstUtilInit_inOrder h ret
    | appInstUtilFini ret => exact appInstUtilFini_inOrder h ret
    | bgftInit heap ret => exact bgftInit_inOrder h heap ret
    | bgftFini ret => exact bgftFini_inOrder h ret
    | httpInit calls sslTerm => exact httpInit_inOrder h calls sslTerm
    | httpFini unloadCert httpTerm sslTerm => exact httpFini_inOrder h unloadCert httpTerm sslTerm

theorem start_inOrder : InOrder World.start where
  appInstUtil := iff_of_false Bool.false_ne_true not_up_nil
  bgft := iff_of_false Bool.false_ne_true not_up_nil
  http := iff_of_false Bool.false_ne_true fun hup => not_up_nil hup.1
  heap := rfl

end Steps

section Careful

variable {st : Console} {c : Call}

theorem run_once {library : Library} (hc : c.initializes = some library)
    (hup : st.flag library = true) : (c.run st).issued = [] := by
  cases c <;> cases hc
  · exact congrArg Left.issued (if_pos hup)
  · exact congrArg Left.issued (if_pos hup)
  · exact congrArg Left.issued (if_pos hup)

/-- The calls that manage a library are operations of none. -/
theorem guarded_issue {calls : List LibraryCall} (h : ∀ c ∈ calls, c.operates = none) :
    ∀ p ∈ st.issue calls, ∀ library, p.call.operates = some library → p.st.flag library = true := by
  intro p hp library hlibrary
  obtain ⟨call,hcall,rfl⟩ := List.mem_map.mp hp
  exact absurd ((h call hcall).symm.trans hlibrary) (by simp)

theorem guarded_httpInit (calls : InitCalls) (sslTerm : ℤ) :
    ∀ p ∈ (LibraryCalls.httpInit st calls sslTerm).issued, ∀ library,
      p.call.operates = some library → p.st.flag library = true := by
  unfold LibraryCalls.httpInit
  split_ifs
  · simp
  · simp
  · exact guarded_issue (by simp [LibraryCall.operates])
  · exact guarded_issue (by simp [LibraryCall.operates])
  · intro p hp
    rcases List.mem_append.mp hp with hp | hp
    · exact guarded_issue (by simp [LibraryCall.operates]) p hp
    · exact guarded_issue_http loadCalls_operates loadCalls_down p hp

theorem guarded_httpFini (unloadCert httpTerm sslTerm : ℤ) :
    ∀ p ∈ (LibraryCalls.httpFini st unloadCert httpTerm sslTerm).issued, ∀ library,
      p.call.operates = some library → p.st.flag library = true := by
  unfold LibraryCalls.httpFini
  split_ifs with hdown
  · simp
  · intro p hp
    rw [Console.issue,List.map_append] at hp
    rcases List.mem_append.mp hp with hp | hp
    · exact guarded_issue_http unloadCalls_operates (fun _ => by simpa using hdown) p hp
    · exact guarded_issue (by simp [LibraryCall.operates]) p hp

theorem run_guarded : ∀ p ∈ (c.run st).issued, ∀ library, p.call.operates = some library →
    p.st.flag library = true := by
  rcases run_cases st c with hop | hmanages
  · exact hop.guarded
  · cases hmanages with
    | appInstUtilInit ret =>
      unfold Call.run LibraryCalls.appInstUtilInit
      dsimp only
      split_ifs
      · simp
      all_goals exact guarded_issue (by simp [LibraryCall.operates])
    | appInstUtilFini ret =>
      unfold Call.run LibraryCalls.appInstUtilFini
      dsimp only
      split_ifs
      · simp
      · exact guarded_issue (by simp [LibraryCall.operates])
    | bgftInit heap ret =>
      unfold Call.run LibraryCalls.bgftInit
      dsimp only
      split_ifs
      · simp
      · simp
      all_goals exact guarded_issue (by simp [LibraryCall.operates])
    | bgftFini ret =>
      unfold Call.run LibraryCalls.bgftFini
      dsimp only
      split_ifs
      · simp
      · exact guarded_issue (by simp [LibraryCall.operates])
    | httpInit calls sslTerm => exact guarded_httpInit calls sslTerm
    | httpFini unloadCert httpTerm sslTerm => exact guarded_httpFini unloadCert httpTerm sslTerm

/-- SSL is brought up by `http_init` alone. -/
theorem httpInit_of_sslInit {ret : ℤ} (hret : 0 ≤ ret)
    (h : LibraryCall.sslInit ret ∈ (c.run st).issued.map Issued.call) :
    ∃ calls sslTerm, c = .httpInit calls sslTerm := by
  rcases run_cases st c with hop | hmanages
  · obtain ⟨p,hp,hcall⟩ := List.mem_map.mp h
    have hstarts := (hop.operates p hp .ssl).1
    rw [hcall] at hstarts
    exact absurd hret hstarts
  · cases hmanages with
    | appInstUtilInit ret =>
      unfold Call.run LibraryCalls.appInstUtilInit at h
      dsimp only at h
      split_ifs at h <;> simp at h
    | appInstUtilFini ret =>
      unfold Call.run LibraryCalls.appInstUtilFini at h
      dsimp only at h
      split_ifs at h <;> simp at h
    | bgftInit heap ret =>
      unfold Call.run LibraryCalls.bgftInit at h
      dsimp only at h
      split_ifs at h <;> simp at h
    | bgftFini ret =>
      unfold Call.run LibraryCalls.bgftFini at h
      dsimp only at h
      split_ifs at h <;> simp at h
    | httpInit calls sslTerm => exact ⟨calls,sslTerm,rfl⟩
    | httpFini unloadCert httpTerm sslTerm =>
      unfold Call.run LibraryCalls.httpFini unloadCalls at h
      dsimp only at h
      split_ifs at h <;> simp at h

/-- An `http_init` that brings SSL up and then fails terminates it. -/
theorem run_unwinds {before after : List LibraryCall} {ret : ℤ}
    (h : (c.run st).issued.map Issued.call = before++.sslInit ret::after) (hret : 0 ≤ ret)
    (hfailed : (c.run st).succeeded = false) : ∃ ctx ret', .sslTerm ctx ret' ∈ after := by
  have hmem : LibraryCall.sslInit ret ∈ (c.run st).issued.map Issued.call := by
    rw [h]
    simp
  obtain ⟨calls,sslTerm,rfl⟩ := httpInit_of_sslInit hret hmem
  unfold Call.run LibraryCalls.httpInit at h hfailed
  dsimp only at h hfailed
  split_ifs at h hfailed with hinit hnet hssl hhttp
  · exact absurd h (by simp)
  · rw [issue_call] at h
    cases before with
    | nil =>
      injection h with h _
      injection h with h
      exact absurd hret (not_le.mpr (h ▸ hssl))
    | cons _ before => exact absurd h (by simp)
  · rw [issue_call] at h
    cases before with
    | nil =>
      injection h with _ h
      refine ⟨calls.sslInit,sslTerm,?_⟩
      rw [← h]
      simp
    | cons _ before =>
      have hmem : LibraryCall.sslInit ret ∈
          [.httpInit calls.httpInit,.sslTerm calls.sslInit sslTerm] := by
        injection h with _ h
        rw [h]
        simp
      exact absurd hmem (by simp)

/-- `sceHttpInit` fails, and SSL is given back. -/
example : ((Call.httpInit { plainInit [] with httpInit := -1 } 0).run .fresh).issued.map Issued.call =
    [.sslInit 1,.httpInit (-1),.sslTerm 1 0] := by decide

theorem flag_of_servicesUp {sv : Installer.Services} {c : InstallerCall}
    (h : c.ServicesUp (st.services sv)) : ∀ library ∈ libraries c, st.flag library = true := by
  cases c <;> simp only [libraries,List.forall_mem_cons,List.not_mem_nil,false_implies,
    implies_true,and_true] <;> exact h

theorem escape_down {sdk : TextSdk} {maxOutSize : ℕ} {s : Bytes}
    (hdown : st.http.initialized = false) :
    HttpText.httpEscapeJsonString (st.http.text sdk) maxOutSize s = none := if_pos hdown

/-- Through a library that is down nothing succeeds. -/
theorem run_fails {library : Library} (hc : library ∈ c.needs) (hdown : st.flag library = false) :
    (c.run st).succeeded = false := by
  cases c <;> simp only [Call.needs,List.mem_singleton,List.not_mem_nil] at hc
  case installer sv c replies =>
    have hrefused : ¬ c.ServicesUp (st.services sv) := fun hup =>
      absurd (hdown.symm.trans (flag_of_servicesUp hup library hc)) (by decide)
    simp only [Call.run,installerCall,run_down hrefused]
    rfl
  all_goals
    subst hc
    change st.http.initialized = false at hdown
  case httpLoadCaBundle path calls => exact congrArg Prod.snd (if_pos hdown)
  case httpSaveConfig sdk config io =>
    simp only [Call.run,LibraryCalls.httpSaveConfig,HttpState.httpSaveConfig,configText?,
      escape_down hdown]
  case httpEscapeJsonString sdk maxOutSize s =>
    cases s with
    | none => rfl
    | some s => exact congrArg Option.isSome (escape_down hdown)
  case httpUnescapeUri sdk calls s =>
    cases s with
    | none => rfl
    | some s => exact congrArg Option.isSome (if_pos hdown)
  case httpGetFileSize url sdk sslVerify =>
    cases url with
    | none => rfl
    | some url => exact congrArg (fun t => t.value.isSome) (httpGetFileSize_down hdown)
  case httpDownloadFile url sdk size offset sslVerify =>
    cases url with
    | none => rfl
    | some url => exact congrArg (fun t => t.value.isSome) (httpDownloadFile_down hdown)

theorem run_careful (st : Console) (c : Call) : Careful st c :=
  ⟨fun _ => run_once,fun _ _ _ => run_unwinds,run_guarded,fun _ => run_fails⟩

end Careful

/-- In every state that a run reaches the flags and the heap say what is up, and every call
made there brings nothing up twice, takes SSL down again if it fails behind it, and operates
on no library that is down. -/
theorem reachable_inOrder (calls : List Call) :
    InOrder (calls.foldl step .start) ∧ ∀ c, Careful (calls.foldl step .start).st c := by
  refine ⟨?_,fun c => run_careful _ c⟩
  have hrun : ∀ (calls : List Call) (w : World), InOrder w → InOrder (calls.foldl step w) := by
    intro calls
    induction calls with
    | nil => exact fun w h => h
    | cons c calls ih => exact fun w h => ih _ (step_inOrder h c)
  exact hrun calls .start start_inOrder

end LibraryRuns
end RemotePkgInstaller
