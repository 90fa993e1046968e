import RemotePkgInstaller.Downloads
import RemotePkgInstaller.SettingsRuns
import RemotePkgInstaller.SettingsSteps

/-! Settings requests that are served at the same time.  A request that carries no mode
writes back the one that it has read, and what another request has set in between is gone.
With every such write finding the mode as it was read, no update is lost. -/
namespace RemotePkgInstaller
namespace SettingsUpdates

open HttpState HttpText InstallPieces Interleaving JsonText Programs Program Requests Responses ServerCalls Settings
  SettingsRuns SettingsSteps SharedServer TinyJson Util

/-- A well-formed settings request. -/
structure Payload where
  sdk : TextSdk
  method : Bytes
  data : Bytes
  nodes : List Node
  parsed : jsonCreate data jsonPoolSize = some nodes
  sslVerify : ∀ field, rootProperty nodes (bytes "ssl_verify") = some field → field.type = .boolean
  caBundle : ∀ field, rootProperty nodes (bytes "ca_bundle") = some field → field.type = .text

namespace Payload

def program (p : Payload) : ServerProgram Answer Answer :=
  handleApiSettingsSteps p.sdk p.method (some p.data)

def NoCaBundle (p : Payload) : Prop := rootProperty p.nodes (bytes "ca_bundle") = none

/-- The handler from the point where the mode is known. -/
def setting (p : Payload) (mode : SslVerifyMode) : ServerProgram Answer Answer := do
  ask (.httpSetSslVerify mode)
  takeCaBundleSteps p.sdk p.nodes
  saveSettingsSteps p.sdk

def loading (p : Payload) : ServerProgram Answer Answer := do
  takeCaBundleSteps p.sdk p.nodes
  saveSettingsSteps p.sdk

theorem not_onlyReports (p : Payload) : ¬ OnlyReports p.method (some p.data) := by
  intro hreports
  have hempty : cstr p.data = [] := hreports.2
  have hparsed := p.parsed
  unfold jsonCreate at hparsed
  rw [hempty] at hparsed
  cases hparsed

/-- Once the mode is read, the request goes on with the one it carries, or the one read. -/
theorem program_eq (p : Payload) : p.program = .call .httpGetSslVerify fun configured =>
    p.setting ((carriedMode p.nodes).getD configured) := by
  have hverify : ∀ configured : SslVerifyMode, ∃ verify,
      requestBoolOpt p.sdk p.nodes (bytes "ssl_verify") (configured = .on) = .ok verify ∧
        sslVerifyMode verify = (carriedMode p.nodes).getD configured := by
    intro configured
    cases hfield : rootProperty p.nodes (bytes "ssl_verify") with
    | none =>
      refine ⟨_,requestBoolOpt_eq_ok.mpr (Or.inl ⟨hfield,rfl⟩),?_⟩
      rw [carriedMode,hfield]
      cases configured <;> rfl
    | some field =>
      refine ⟨_,requestBoolOpt_eq_ok.mpr (Or.inr ⟨field,hfield,p.sslVerify field hfield,rfl⟩),?_⟩
      rw [carriedMode,hfield]
      rfl
  have hnext : ∀ configured : SslVerifyMode,
      (ofExcept (requestBoolOpt p.sdk p.nodes (bytes "ssl_verify") (configured = .on)) >>=
        fun verify => p.setting (sslVerifyMode verify)) =
      p.setting ((carriedMode p.nodes).getD configured) := by
    intro configured
    obtain ⟨verify,hok,hmode⟩ := hverify configured
    rw [hok,← hmode]
    rfl
  rw [program,handleApiSettingsSteps,if_neg p.not_onlyReports,requestParse_ok p.parsed]
  exact congrArg (Program.call ServerCall.httpGetSslVerify) (funext hnext)

theorem loading_of_none {p : Payload} (h : p.NoCaBundle) : p.loading = saveSettingsSteps p.sdk := by
  unfold loading takeCaBundleSteps
  rw [show rootProperty p.nodes (bytes "ca_bundle") = none from h]
  rfl

/-- A bundle that is named is loaded, and then the settings are saved. -/
theorem loading_of_some {p : Payload} {field : Node}
    (h : rootProperty p.nodes (bytes "ca_bundle") = some field) :
    ∃ next : Bool → ServerProgram Answer Answer,
      p.loading = .call (.httpLoadCaBundle (jsonGetValue field)) next ∧
        next true = saveSettingsSteps p.sdk := by
  have hstr : requestStr p.sdk p.nodes (bytes "ca_bundle") = .ok (jsonGetValue field) := by
    rcases requestStr_cases p.sdk h with ⟨_,hok⟩ | ⟨htype,_⟩
    · exact hok
    · exact absurd (p.caBundle field h) htype
  unfold loading takeCaBundleSteps
  rw [h,hstr]
  exact ⟨_,rfl,rfl⟩

end Payload

/-- Loads and saves of this step succeed. -/
def Succeeds : (c : ServerCall) → Reply c → Prop
  | .httpLoadCaBundle _,loaded => loaded = true
  | .httpSaveConfig _,saved => saved = true
  | _,_ => True

section Runs

variable {ι : Type} [DecidableEq ι]

/-- The step that a thread takes next succeeds. -/
def Succeeding (console : Console ι) (i : ι) (g : Global ι Server Thread) : Prop :=
  match (g.locals i).program with
  | .call c _ => Succeeds c (serve (console i (g.locals i).trace.length) g.shared c).reply
  | _ => True

/-- A request that carries no mode finds the mode that it is about to write. -/
def WritesBackSame (payload : ι → Payload) (i : ι) (g : Global ι Server Thread) : Prop :=
  match (g.locals i).program with
  | .call (.httpSetSslVerify mode) _ =>
    carriedMode (payload i).nodes = none → g.shared.http.sslVerifyMode = mode
  | _ => True

/-- No other request carries a mode. -/
def SoleMode (payload : ι → Payload) (i : ι) : Prop :=
  ∀ j, j ≠ i → carriedMode (payload j).nodes = none

def SoleBundle (payload : ι → Payload) (i : ι) : Prop := ∀ j, j ≠ i → (payload j).NoCaBundle

/-- The config file is what some save has written of the settings in memory. -/
def InFile (st : Server) : Prop :=
  ∃ sdk, st.config.isSome = true ∧ configText? st.http sdk = st.config

/-- The fields that this request alone carries have its values, in memory and in the file. -/
structure KeepsUpdates (payload : ι → Payload) (i : ι) (st : Server) : Prop where
  mode : SoleMode payload i → ∀ mode, carriedMode (payload i).nodes = some mode →
    st.http.sslVerifyMode = mode
  path : SoleBundle payload i → ∀ path, carriedPath (payload i).nodes = some path →
    st.http.caBundlePath.val = path
  file : InFile st

/-- A request without a mode has left the configured one as it was. -/
def LeavesMode (p : Payload) (trace : List Taken) : Prop :=
  carriedMode p.nodes = none → ∀ t ∈ trace, t.after.http.sslVerifyMode = t.before.http.sslVerifyMode

/-- The thread has nothing more to do. -/
def Answered (thread : Thread) : Prop :=
  match thread.program with
  | .call _ _ => False
  | _ => True

/-- A call that the report at the end makes. -/
def Reports (c : ServerCall) : Prop :=
  c = .httpGetCaBundlePath ∨ c = .httpGetSslVerify ∨ c = .httpHasCaBundle

/-- Where a request stands, and what of it has been put in force; `sole` and `soleBundle`
say that no other request carries the field. -/
inductive Stage (p : Payload) (sole soleBundle : Prop) (st : Server) :
    ServerProgram Answer Answer → Prop
  | reading : Stage p sole soleBundle st p.program
  | setting {mode : SslVerifyMode} (h : ∀ m, carriedMode p.nodes = some m → mode = m) :
      Stage p sole soleBundle st (p.setting mode)
  | loading (hmode : sole → ∀ m, carriedMode p.nodes = some m → st.http.sslVerifyMode = m) :
      Stage p sole soleBundle st p.loading
  | saving (hmode : sole → ∀ m, carriedMode p.nodes = some m → st.http.sslVerifyMode = m)
      (hpath : soleBundle → ∀ path, carriedPath p.nodes = some path →
        st.http.caBundlePath.val = path) :
      Stage p sole soleBundle st (saveSettingsSteps p.sdk)
  | reporting {q : ServerProgram Answer Answer}
      (hmode : sole → ∀ m, carriedMode p.nodes = some m → st.http.sslVerifyMode = m)
      (hpath : soleBundle → ∀ path, carriedPath p.nodes = some path →
        st.http.caBundlePath.val = path)
      (hreports : Calls Reports q) : Stage p sole soleBundle st q

/-- What one step of a request has done to the settings. -/
structure StepDone (p : Payload) (sole soleBundle : Prop) (st st' : Server)
    (q q' : ServerProgram Answer Answer) : Prop where
  mode : st'.http.sslVerifyMode = st.http.sslVerifyMode ∨
    carriedMode p.nodes = some st'.http.sslVerifyMode
  path : st'.http.caBundlePath = st.http.caBundlePath ∨ ¬ p.NoCaBundle
  stage : Stage p sole soleBundle st' q'
  file : InFile st' ∨ ¬ Calls Reports q' ∨ st' = st ∧ Calls Reports q

section Steps

variable {p : Payload} {sole soleBundle : Prop} {st : Server} {q : ServerProgram Answer Answer}

/-- What other requests do leaves a request where it stands. -/
theorem Stage.congr {st' : Server} (h : Stage p sole soleBundle st q)
    (hmode : sole → carriedMode p.nodes ≠ none → st'.http.sslVerifyMode = st.http.sslVerifyMode)
    (hpath : soleBundle → st'.http.caBundlePath = st.http.caBundlePath) :
    Stage p sole soleBundle st' q := by
  have hmode' : (sole → ∀ m, carriedMode p.nodes = some m → st.http.sslVerifyMode = m) →
      sole → ∀ m, carriedMode p.nodes = some m → st'.http.sslVerifyMode = m := by
    intro hkept hsole m hm
    rw [hmode hsole (by simp [hm])]
    exact hkept hsole m hm
  have hpath' : (soleBundle → ∀ path, carriedPath p.nodes = some path →
        st.http.caBundlePath.val = path) →
      soleBundle → ∀ path, carriedPath p.nodes = some path → st'.http.caBundlePath.val = path := by
    intro hkept hsole path hcarried
    rw [hpath hsole]
    exact hkept hsole path hcarried
  cases h with
  | reading => exact .reading
  | setting h => exact .setting h
  | loading h1 => exact .loading (hmode' h1)
  | saving h1 h2 => exact .saving (hmode' h1) (hpath' h2)
  | reporting h1 h2 hreports => exact .reporting (hmode' h1) (hpath' h2) hreports

theorem carriedPath_of_noCaBundle (h : p.NoCaBundle) : carriedPath p.nodes = none := by
  rw [carriedPath,show rootProperty p.nodes (bytes "ca_bundle") = none from h]
  rfl

theorem not_reports_saving (sdk : TextSdk) : ¬ Calls Reports (saveSettingsSteps sdk) := by
  rintro ⟨h | h | h,_⟩ <;> cases h

/-- A request whose mode is set goes on with its bundle, or with the save. -/
theorem Stage.loaded (hmode : sole → ∀ m, carriedMode p.nodes = some m → st.http.sslVerifyMode = m) :
    Stage p sole soleBundle st p.loading ∧ ¬ Calls Reports p.loading := by
  refine ⟨.loading hmode,?_⟩
  cases hfield : rootProperty p.nodes (bytes "ca_bundle") with
  | none =>
    rw [Payload.loading_of_none hfield]
    exact not_reports_saving p.sdk
  | some field =>
    obtain ⟨next,hloading,_⟩ := Payload.loading_of_some hfield
    rw [hloading]
    rintro ⟨h | h | h,_⟩ <;> cases h

theorem reports_writeSettingsSteps (sdk : TextSdk) : Calls Reports (writeSettingsSteps sdk) := by
  refine calls_perform_bind (Or.inl rfl) fun path => ?_
  refine calls_perform_bind (Or.inr (Or.inl rfl)) fun mode => ?_
  exact calls_perform_bind (Or.inr (Or.inr rfl)) fun loaded => trivial

theorem reports_of_answered {thread : Thread} (h : Answered thread) :
    Calls Reports thread.program := by
  unfold Answered at h
  cases hprogram : thread.program with
  | done reply => trivial
  | fail reply => trivial
  | call c next =>
    rw [hprogram] at h
    exact h.elim

theorem not_reports_program (p : Payload) : ¬ Calls Reports p.program := by
  rw [Payload.program_eq]
  rintro ⟨_,h⟩
  rcases (h SslVerifyMode.on).1 with h | h | h <;> cases h

/-- A request with nothing but its report ahead has put its fields in force. -/
theorem Stage.answered (h : Stage p sole soleBundle st q) (hreports : Calls Reports q) :
    (sole → ∀ m, carriedMode p.nodes = some m → st.http.sslVerifyMode = m) ∧
      (soleBundle → ∀ path, carriedPath p.nodes = some path →
        st.http.caBundlePath.val = path) := by
  cases h with
  | reading => exact absurd hreports (not_reports_program p)
  | setting h => rcases hreports.1 with h | h | h <;> cases h
  | loading hmode => exact absurd hreports (@Stage.loaded p sole soleBundle st hmode).2
  | saving hmode hpath => exact absurd hreports (not_reports_saving p.sdk)
  | reporting hmode hpath _ => exact ⟨hmode,hpath⟩

/-- A save that succeeds leaves the settings in the file. -/
theorem inFile_of_saved {sdk : TextSdk} {io : WriteCalls}
    (h : (httpSaveConfig st.http sdk st.config io).2 = true) :
    InFile { st with config := (httpSaveConfig st.http sdk st.config io).1 } := by
  unfold httpSaveConfig at h ⊢
  cases htext : configText? st.http sdk with
  | none =>
    rw [htext] at h
    cases h
  | some text =>
    rw [htext] at h
    have hfile := writeFileTrunc_complete h
    refine ⟨sdk,?_,?_⟩
    · simp only [hfile,Option.isSome_some]
    · simp only [hfile,htext]

/-- A bundle that this request alone names is sent as it will be stored. -/
def SendsWhole (p : Payload) : Prop :=
  ∀ field, rootProperty p.nodes (bytes "ca_bundle") = some field → SentWhole p.data field

theorem carriedPath_of_loaded {field : Node} (hsent : SendsWhole p)
    (hfield : rootProperty p.nodes (bytes "ca_bundle") = some field) {path : Bytes}
    (hcarried : carriedPath p.nodes = some path) :
    (PathBuffer.copy (jsonGetValue field)).val = path := by
  obtain ⟨hcopy,hvalue⟩ := sentWhole_value (r := plainRequest p.method (some p.data)) rfl
    p.parsed
    (mem_of_jsonGetProperty hfield) (hsent field hfield)
  rw [carriedPath,hfield,Option.bind_some,hvalue] at hcarried
  injection hcarried with hcarried
  rw [hcopy,hcarried]

theorem saveSettingsSteps_eq (sdk : TextSdk) : ∃ next : Bool → ServerProgram Answer Answer,
    saveSettingsSteps sdk = .call (.httpSaveConfig httpConfigPath) next ∧
      next true = writeSettingsSteps sdk := ⟨_,rfl,rfl⟩

/-- What is saved stays in force, and is in the file. -/
theorem saving_step {c : ServerCall} {next : Reply c → ServerProgram Answer Answer} {o : StepCalls}
    (hq : Program.call c next = saveSettingsSteps p.sdk)
    (hmode : sole → ∀ m, carriedMode p.nodes = some m → st.http.sslVerifyMode = m)
    (hpath : soleBundle → ∀ path, carriedPath p.nodes = some path → st.http.caBundlePath.val = path)
    (hsucceeds : Succeeds c (serve o st c).reply) :
    StepDone p sole soleBundle st (serve o st c).state (.call c next)
      (next (serve o st c).reply) := by
  obtain ⟨next',hsave,htrue⟩ := saveSettingsSteps_eq p.sdk
  rw [hsave] at hq
  cases hq
  have hsaved : (serve o st (.httpSaveConfig httpConfigPath)).reply = true := hsucceeds
  rw [hsaved,htrue]
  exact ⟨Or.inl rfl,Or.inl rfl,.reporting hmode hpath (reports_writeSettingsSteps _),
    Or.inl (inFile_of_saved hsaved)⟩

/-- The mode that is set is the one carried, or the one that was in force. -/
theorem setting_step {c : ServerCall} {next : Reply c → ServerProgram Answer Answer} {o : StepCalls}
    {mode : SslVerifyMode} (hq : Program.call c next = p.setting mode)
    (hmode : ∀ m, carriedMode p.nodes = some m → mode = m)
    (hsame : ∀ mode, c = .httpSetSslVerify mode → carriedMode p.nodes = none →
      st.http.sslVerifyMode = mode) :
    StepDone p sole soleBundle st (serve o st c).state (.call c next)
      (next (serve o st c).reply) := by
  cases hq
  have hset : (serve o st (.httpSetSslVerify mode)).state.http.sslVerifyMode = mode := rfl
  have hnext : Stage p sole soleBundle (serve o st (.httpSetSslVerify mode)).state p.loading ∧
      ¬ Calls Reports p.loading := Stage.loaded fun _ m hm => hset.trans (hmode m hm)
  refine ⟨?_,Or.inl rfl,hnext.1,Or.inr (Or.inl hnext.2)⟩
  cases hcarried : carriedMode p.nodes with
  | none => exact Or.inl (hset.trans (hsame mode rfl hcarried).symm)
  | some m => exact Or.inr (congrArg some (hset.trans (hmode m hcarried)).symm)

/-- A bundle that is named is in force once it is loaded, and the mode stays what it was. -/
theorem loading_step {c : ServerCall} {next : Reply c → ServerProgram Answer Answer} {o : StepCalls}
    (hq : Program.call c next = p.loading) (hsent : soleBundle → SendsWhole p)
    (hmode : sole → ∀ m, carriedMode p.nodes = some m → st.http.sslVerifyMode = m)
    (hsucceeds : Succeeds c (serve o st c).reply) :
    StepDone p sole soleBundle st (serve o st c).state (.call c next)
      (next (serve o st c).reply) := by
  cases hfield : rootProperty p.nodes (bytes "ca_bundle") with
  | none =>
    have hpath : soleBundle → ∀ path, carriedPath p.nodes = some path →
        st.http.caBundlePath.val = path := by
      intro _ path hcarried
      rw [carriedPath_of_noCaBundle hfield] at hcarried
      cases hcarried
    rw [Payload.loading_of_none hfield] at hq
    exact saving_step hq hmode hpath hsucceeds
  | some field =>
    obtain ⟨next',hload,htrue⟩ := Payload.loading_of_some hfield
    rw [hload] at hq
    cases hq
    have hloaded : (serve o st (.httpLoadCaBundle (jsonGetValue field))).reply = true := hsucceeds
    have hkept : (serve o st (.httpLoadCaBundle (jsonGetValue field))).state.http.sslVerifyMode =
        st.http.sslVerifyMode := httpLoadCaBundle_sslVerifyMode _ _ _
    have hstored : (serve o st (.httpLoadCaBundle (jsonGetValue field))).state.http.caBundlePath =
        PathBuffer.copy (jsonGetValue field) :=
      (httpLoadCaBundle_path _ _ _).trans (if_pos hloaded)
    rw [hloaded,htrue]
    refine ⟨Or.inl hkept,Or.inr ?_,.saving ?_ ?_,Or.inr (Or.inl (not_reports_saving p.sdk))⟩
    · intro hnone
      rw [Payload.NoCaBundle,hfield] at hnone
      cases hnone
    · intro hsole m hm
      exact hkept.trans (hmode hsole m hm)
    · intro hsole path hcarried
      rw [hstored]
      exact carriedPath_of_loaded (hsent hsole) hfield hcarried

/-- One step of a request, by where it stands. -/
theorem stage_step {c : ServerCall} {next : Reply c → ServerProgram Answer Answer} {o : StepCalls}
    (h : Stage p sole soleBundle st (.call c next)) (hsent : soleBundle → SendsWhole p)
    (hsucceeds : Succeeds c (serve o st c).reply)
    (hsame : ∀ mode, c = .httpSetSslVerify mode → carriedMode p.nodes = none →
      st.http.sslVerifyMode = mode) :
    StepDone p sole soleBundle st (serve o st c).state (.call c next)
      (next (serve o st c).reply) := by
  generalize hq : Program.call c next = q at h
  cases h with
  | reading =>
    rw [Payload.program_eq] at hq
    cases hq
    refine ⟨Or.inl rfl,Or.inl rfl,.setting ?_,Or.inr (Or.inl ?_)⟩
    · intro m hm
      rw [hm]
      rfl
    · rintro ⟨h | h | h,_⟩ <;> cases h
  | setting hmode => exact hq ▸ setting_step hq hmode hsame
  | loading hmode => exact hq ▸ loading_step hq hsent hmode hsucceeds
  | saving hmode hpath => exact hq ▸ saving_step hq hmode hpath hsucceeds
  | reporting hmode hpath hreports =>
    subst hq
    have hstate : (serve o st c).state = st := by
      rcases hreports.1 with rfl | rfl | rfl <;> rfl
    rw [hstate]
    exact ⟨Or.inl rfl,Or.inl rfl,.reporting hmode hpath (hreports.2 _),
      Or.inr (Or.inr ⟨rfl,hreports⟩)⟩

end Steps

/-- Every request is at one of its stages, what it has done to the mode is in order, and
what it has saved is still in the file unless another request is yet to save. -/
structure Going (payload : ι → Payload) (g : Global ι Server Thread) : Prop where
  stage : ∀ i, Stage (payload i) (SoleMode payload i) (SoleBundle payload i) g.shared
    (g.locals i).program
  leavesMode : ∀ i, LeavesMode (payload i) (g.locals i).trace
  file : ∀ i, Calls Reports (g.locals i).program →
    InFile g.shared ∨ ∃ j, ¬ Calls Reports (g.locals j).program

variable {console : Console ι} {payload : ι → Payload}

omit [DecidableEq ι] in
/-- The step of one request leaves the others at their stages: it changes no setting that one
of them alone names. -/
theorem StepDone.stage_of_ne {i j : ι} {g : Global ι Server Thread} {st' : Server}
    {q q' : ServerProgram Answer Answer}
    (h : StepDone (payload i) (SoleMode payload i) (SoleBundle payload i) g.shared st' q q')
    (hg : Going payload g) (hj : j ≠ i) :
    Stage (payload j) (SoleMode payload j) (SoleBundle payload j) st' (g.locals j).program := by
  refine (hg.stage j).congr (fun hsole _ => ?_) fun hsole => ?_
  · rcases h.mode with hmode | hcarried
    · exact hmode
    · rw [hsole i (Ne.symm hj)] at hcarried
      cases hcarried
  · rcases h.path with hpath | hnamed
    · exact hpath
    · exact absurd (hsole i (Ne.symm hj)) hnamed

omit [DecidableEq ι] in
theorem StepDone.leavesMode {p : Payload} {sole soleBundle : Prop} {taken : Taken}
    {q q' : ServerProgram Answer Answer} {trace : List Taken}
    (h : StepDone p sole soleBundle taken.before taken.after q q') (hleaves : LeavesMode p trace) :
    LeavesMode p (trace++[taken]) := by
  intro hnone t ht
  rcases List.mem_append.mp ht with ht | ht
  · exact hleaves hnone t ht
  · rw [List.mem_singleton.mp ht]
    rcases h.mode with hmode | hcarried
    · exact hmode
    · rw [hnone] at hcarried
      cases hcarried

theorem going_act (hsent : ∀ i, SoleBundle payload i → SendsWhole (payload i)) (i : ι)
    (g : Global ι Server Thread) (hg : Going payload g)
    (hP : Succeeding console i g ∧ WritesBackSame payload i g) :
    Going payload (act (fun i => Thread.step (console i)) i g) := by
  cases hprogram : (g.locals i).program with
  | done reply =>
    rw [act_of_ended (r := .ok reply) hprogram]
    exact hg
  | fail reply =>
    rw [act_of_ended (r := .error reply) hprogram]
    exact hg
  | call c next =>
    obtain ⟨hsucceeds,hsame⟩ := hP
    unfold Succeeding at hsucceeds
    unfold WritesBackSame at hsame
    rw [hprogram] at hsucceeds hsame
    have hstage := hg.stage i
    rw [hprogram] at hstage
    have hdone := stage_step hstage (hsent i) hsucceeds (by
      rintro mode rfl
      exact hsame)
    rw [act_of_call hprogram]
    refine ⟨fun j => ?_,fun j => ?_,fun j => ?_⟩ <;> dsimp only [Taken.after,Taken.serving]
    · by_cases hj : j = i
      · subst hj
        rw [Function.update_self]
        exact hdone.stage
      · rw [Function.update_of_ne hj]
        exact hdone.stage_of_ne hg hj
    · by_cases hj : j = i
      · subst hj
        rw [Function.update_self]
        exact hdone.leavesMode (hg.leavesMode j)
      · rw [Function.update_of_ne hj]
        exact hg.leavesMode j
    · rcases hdone.file with hfile | hunsaved | ⟨hstate,hreports⟩
      · exact fun _ => Or.inl hfile
      · refine fun _ => Or.inr ⟨i,?_⟩
        rw [Function.update_self]
        exact hunsaved
      · -- a report: the others have saved what they had saved before
        intro hj
        rw [hstate]
        have hreports : Calls Reports (g.locals i).program := hprogram ▸ hreports
        rcases hg.file i hreports with hfile | ⟨k,hk⟩
        · exact Or.inl hfile
        · refine Or.inr ⟨k,?_⟩
          have hki : k ≠ i := by
            rintro rfl
            exact hk hreports
          rw [Function.update_of_ne hki]
          exact hk

omit [DecidableEq ι] in
theorem going_start (st : Server) : Going payload (start (fun i => (payload i).program) st) := by
  refine ⟨fun i => .reading,fun i _ t ht => ?_,fun i h => ?_⟩
  · cases ht
  · exact absurd h (not_reports_program _)

/-- Whatever the order in which requests take their steps: as long as loads and saves
succeed and no mode that was read is written over another, a request without a mode leaves
the configured one alone, and once all are answered what one request alone has set is in
force and in the file. -/
theorem runThreads_keepsUpdates (st : Server)
    (hsent : ∀ i, SoleBundle payload i → SendsWhole (payload i)) {schedule : List ι}
    (hsucceeds : Allowed (fun i => Thread.step (console i)) (Succeeding console) schedule
      (start (fun i => (payload i).program) st))
    (hsame : Allowed (fun i => Thread.step (console i)) (WritesBackSame payload) schedule
      (start (fun i => (payload i).program) st)) :
    let g := runThreads console (fun i => (payload i).program) schedule st
    (∀ i, LeavesMode (payload i) (g.locals i).trace) ∧
      ((∀ i, Answered (g.locals i)) → ∀ i, KeepsUpdates payload i g.shared) := by
  have hgoing : Going payload (runThreads console (fun i => (payload i).program) schedule st) :=
    run_invariant (going_act hsent) (hsucceeds.and hsame) (going_start st)
  refine ⟨hgoing.leavesMode,fun hanswered i => ?_⟩
  have hreports : ∀ j, Calls Reports ((runThreads console (fun i => (payload i).program) schedule
      st).locals j).program := fun j => reports_of_answered (hanswered j)
  have hfile : InFile (runThreads console (fun i => (payload i).program) schedule st).shared := by
    rcases hgoing.file i (hreports i) with hfile | ⟨j,hj⟩
    · exact hfile
    · exact absurd (hreports j) hj
  obtain ⟨hmode,hpath⟩ := (hgoing.stage i).answered (hreports i)
  exact ⟨hmode,hpath,hfile⟩

end Runs

section Sample

def modeData : Bytes := bytes "\x7b\"ssl_verify\": false\x7d"
def bundleData : Bytes := bytes "\x7b\"ca_bundle\": \"/b\"\x7d"

/-- One request turns verification off, the other names a bundle. -/
def twoPayloads : Bool → Payload
  | false => ⟨plainSdk,bytes "POST",modeData,(jsonCreate modeData jsonPoolSize).getD [],
      by decide +kernel,
      (by decide +kernel : ∀ field ∈ rootProperty ((jsonCreate modeData jsonPoolSize).getD [])
        (bytes "ssl_verify"),field.type = .boolean),
      (by decide +kernel : ∀ field ∈ rootProperty ((jsonCreate modeData jsonPoolSize).getD [])
        (bytes "ca_bundle"),field.type = .text)⟩
  | true => ⟨plainSdk,bytes "POST",bundleData,(jsonCreate bundleData jsonPoolSize).getD [],
      by decide +kernel,
      (by decide +kernel : ∀ field ∈ rootProperty ((jsonCreate bundleData jsonPoolSize).getD [])
        (bytes "ssl_verify"),field.type = .boolean),
      (by decide +kernel : ∀ field ∈ rootProperty ((jsonCreate bundleData jsonPoolSize).getD [])
        (bytes "ca_bundle"),field.type = .text)⟩

/-- A console on which every call succeeds. -/
def workingConsole : Console Bool := fun _ _ => ⟨Downloads.workingSdk fun _ => ⟨404,0,0,[]⟩,plainSdk,
  (oneBundle (bytes "/b")).bundleCalls none 0,⟨true,fun _ => 512⟩,sampleReply ⟨0,1⟩⟩

instance (c : ServerCall) (r : Reply c) : Decidable (Succeeds c r) := by
  delta Succeeds
  split <;> infer_instance

instance (i : Bool) (g : Global Bool Server Thread) :
    Decidable (Succeeding workingConsole i g) := by
  delta Succeeding
  split <;> infer_instance

instance (i : Bool) (g : Global Bool Server Thread) :
    Decidable (WritesBackSame twoPayloads i g) := by
  delta WritesBackSame
  split <;> infer_instance

instance (thread : Thread) : Decidable (Answered thread) := by
  delta Answered
  split <;> infer_instance

def bothThreads (schedule : List Bool) : Global Bool Server Thread :=
  runThreads workingConsole (fun i => (twoPayloads i).program) schedule started

/-- The second request writes the mode back right after it has read it. -/
def readThenWrite : List Bool :=
  [false,true,true,false,true,false,true,false,false,false,true,true,true]

/-- The whole first request falls between the second one's read and its write. -/
def readAllWrite : List Bool :=
  [true,false,false,false,false,false,false,true,true,true,true,true,true]

theorem runThreads_keepsUpdates_example :
    (∀ i, Answered ((bothThreads readThenWrite).locals i)) ∧
      ∀ i, KeepsUpdates twoPayloads i (bothThreads readThenWrite).shared := by
  have hanswered : ∀ i, Answered ((bothThreads readThenWrite).locals i) := by decide +kernel
  have hsent : ∀ i, SoleBundle twoPayloads i → SendsWhole (twoPayloads i) := by
    rintro (_ | _) _ field hfield
    · have hnone : rootProperty (twoPayloads false).nodes (bytes "ca_bundle") = none := by
        decide +kernel
      rw [hnone] at hfield
      cases hfield
    · have hsome : rootProperty (twoPayloads true).nodes (bytes "ca_bundle") =
          some ⟨none,some (bytes "ca_bundle"),.value (bytes "/b\"\x7d") (bytes "/b"),.text⟩ := by
        decide +kernel
      have hliteral : literal? (bytes "/b\"\x7d") = some ([.byte 0x2f,.byte 0x62],bytes "\x7d") := by
        decide +kernel
      have hsuffix : bytes "/b\"\x7d" <:+ cstr bundleData := by decide +kernel
      rw [hsome] at hfield
      injection hfield with hfield
      subst hfield
      exact ⟨[.byte 0x2f,.byte 0x62],bytes "/b",⟨rfl,⟨_,_,_,rfl,hsuffix,hliteral⟩,by decide⟩,
        by decide,by simp [PlainItems]⟩
  exact ⟨hanswered,(runThreads_keepsUpdates started hsent (by decide +kernel)
    (by decide +kernel)).2 hanswered⟩

/-- The mode of the first request is lost, though no call has failed. -/
theorem runThreads_loses_mode :
    Allowed (fun i => Thread.step (workingConsole i)) (Succeeding workingConsole) readAllWrite
        (start (fun i => (twoPayloads i).program) started) ∧
      (∀ i, Answered ((bothThreads readAllWrite).locals i)) ∧
      carriedMode (twoPayloads false).nodes = some .off ∧
      carriedMode (twoPayloads true).nodes = none ∧
      (bothThreads readAllWrite).shared.http.sslVerifyMode = .on ∧
      ¬ KeepsUpdates twoPayloads false (bothThreads readAllWrite).shared := by
  have hoff : carriedMode (twoPayloads false).nodes = some .off := by decide +kernel
  have hnone : carriedMode (twoPayloads true).nodes = none := by decide +kernel
  have hon : (bothThreads readAllWrite).shared.http.sslVerifyMode = .on := by decide +kernel
  refine ⟨by decide +kernel,by decide +kernel,hoff,hnone,hon,fun hkeeps => ?_⟩
  have hsole : SoleMode twoPayloads false := by
    rintro (_ | _) hne
    · exact absurd rfl hne
    · exact hnone
  have hmode := hkeeps.mode hsole .off hoff
  rw [hon] at hmode
  cases hmode

end Sample

end SettingsUpdates
end RemotePkgInstaller
