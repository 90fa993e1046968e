import RemotePkgInstaller.HttpState
import RemotePkgInstaller.Runs

/-! The CA bundle over whole runs: what is registered with libhttp beside what `http.c` knows
of it, and what a reload that fails leaves. -/
namespace RemotePkgInstaller
namespace BundleRuns

open HttpState Requests Runs TinyJson TransferLoop Util

/-- `sceHttpTerm` drops every registration; what the termination calls return is only logged. -/
def httpFini (st : Http) (unloadCert : ℤ) : Http :=
  if st.initialized = false then st
  else { unloadCaBundle st unloadCert with registered := [], initialized := false }

/-- The functions that load, drop or replace the bundle, with what their calls return. -/
inductive BundleCall
  | init (calls : InitCalls)
  | fini (unloadCert : ℤ)
  | load (path : Bytes) (calls : BundleCalls)

def step (st : Http) : BundleCall → Http
  | .init calls => (httpInit st calls).1
  | .fini unloadCert => httpFini st unloadCert
  | .load path calls => (httpLoadCaBundle st path calls).1

/-- One bundle is registered when one is loaded, and none otherwise; its buffer is the
current one, which has not been freed. -/
structure InStep (st : Http) : Prop where
  count : st.registered.length = if st.caBundleLoaded then 1 else 0
  buffer : ∀ buffer ∈ st.registered,
    st.caBundleData = some buffer ∧ buffer.address ∉ st.freed

/-- The call drops a loaded bundle, and libhttp reports an error for that. -/
def UnloadFails (st : Http) : BundleCall → Prop
  | .load path calls =>
    st.initialized = true ∧ path ≠ [] ∧ (calls.Taken ∨ calls.Refused) ∧
      st.caBundleLoaded = true ∧ calls.unloadCert ≠ 0
  | _ => False

/-- What holds of the buffers whatever libhttp reports. -/
structure Owned (st : Http) : Prop where
  down : st.initialized = false → st.caBundleLoaded = false
  data : st.caBundleData.isSome = st.caBundleLoaded
  address : ∀ buffer, st.caBundleData = some buffer → buffer.address < st.allocated
  freed : ∀ a ∈ st.freed, a < st.allocated

section Loads

variable {st : Http} {path : Bytes} {calls : BundleCalls}

/-- The named file is not usable and only the error text and a freed buffer tell of the load,
or the bundle is replaced. -/
theorem httpLoadCaBundle_cases (st : Http) (path : Bytes) (calls : BundleCalls) :
    (¬ (st.initialized = true ∧ path ≠ [] ∧ (calls.Taken ∨ calls.Refused)) ∧
      ∃ text allocated freed, st.allocated ≤ allocated ∧
        (freed = st.freed ∨ ∃ a, freed = a::st.freed ∧ st.allocated ≤ a ∧ a < allocated) ∧
        httpLoadCaBundle st path calls =
          ({ st with lastError := text, allocated := allocated, freed := freed },false)) ∨
    (st.initialized = true ∧ path ≠ [] ∧ (calls.Taken ∨ calls.Refused) ∧
      ∃ data, readTextFile calls.content calls.read caBundleMaxSize = some data ∧ data ≠ [] ∧
        httpLoadCaBundle st path calls =
          replaceCaBundle { st with allocated := st.allocated+1 } path ⟨st.allocated,data⟩ calls) := by
  unfold httpLoadCaBundle
  by_cases hinit : st.initialized = false
  · exact Or.inl ⟨by simp [hinit],_,_,_,le_rfl,Or.inl rfl,by rw [if_pos hinit]; rfl⟩
  · rw [if_neg hinit]
    by_cases hpath : path = []
    · exact Or.inl ⟨by simp [hpath],_,_,_,le_rfl,Or.inl rfl,by rw [if_pos hpath]; rfl⟩
    · rw [if_neg hpath]
      cases hread : readTextFile calls.content calls.read caBundleMaxSize with
      | none =>
        refine Or.inl ⟨?_,_,_,_,le_rfl,Or.inl rfl,rfl⟩
        simp [BundleCalls.Taken,BundleCalls.Refused,hread]
      | some data =>
        by_cases hdata : data = []
        · refine Or.inl ⟨?_,_,st.allocated+1,st.allocated::st.freed,by omega,
            Or.inr ⟨_,rfl,le_rfl,by omega⟩,by dsimp only; rw [if_pos hdata]; rfl⟩
          simp [BundleCalls.Taken,BundleCalls.Refused,hread,hdata]
        · refine Or.inr ⟨by simpa using hinit,hpath,?_,data,rfl,hdata,?_⟩
          · by_cases hload : calls.loadCert = 0
            · exact Or.inl ⟨⟨data,hread,hdata⟩,hload⟩
            · exact Or.inr ⟨⟨data,hread,hdata⟩,hload⟩
          · dsimp only
            rw [if_neg hdata]

/-- Only the two settings are read from a config file. -/
theorem readConfig_eq (st : Http) (nodes : List Node) :
    ∃ mode path, readConfig st nodes = { st with sslVerifyMode := mode, caBundlePath := path } := by
  unfold readConfig httpSetSslVerify
  repeat' split
  all_goals exact ⟨_,_,rfl⟩

theorem httpLoadConfig_eq (st : Http) (content : Bytes) (io : ReadCalls) :
    ∃ mode path, (httpLoadConfig st content io).1 =
      { st with sslVerifyMode := mode, caBundlePath := path } := by
  unfold httpLoadConfig
  repeat' split
  · exact ⟨_,_,rfl⟩
  · exact ⟨_,_,rfl⟩
  · exact readConfig_eq _ _

/-- It fails without a trace, or is done already, or loads the bundle with the settings of
the config file. -/
theorem httpInit_cases (st : Http) (calls : InitCalls) :
    (httpInit st calls).1 = st ∨
      st.initialized = false ∧ ∃ mode path text,
        let started := { st with initialized := true, sslVerifyMode := mode, caBundlePath := path }
        (httpInit st calls).1 =
          { (httpLoadCaBundle started path.val (calls.bundle path.val)).1 with lastError := text } := by
  unfold httpInit
  by_cases hinit : st.initialized = true
  · exact Or.inl (by rw [if_pos hinit])
  · rw [if_neg hinit]
    split_ifs with hfails
    · exact Or.inl rfl
    · obtain ⟨mode,path,hconfig⟩ :=
        httpLoadConfig_eq { st with initialized := true } calls.config calls.readConfig
      refine Or.inr ⟨by simpa using hinit,mode,path,?_⟩
      dsimp only
      rw [hconfig]
      dsimp only
      split_ifs
      · exact ⟨_,rfl⟩
      · exact ⟨[],rfl⟩

end Loads

section Steps

variable {st : Http}

/-- Every buffer that is or will be freed has been allocated before. -/
theorem Owned.dropped (h : Owned st) :
    ∀ a ∈ (st.caBundleData.map Buffer.address).toList++st.freed, a < st.allocated := by
  intro a ha
  rcases List.mem_append.mp ha with ha | ha
  · obtain ⟨buffer,hb,rfl⟩ := Option.map_eq_some_iff.mp (Option.mem_toList.mp ha)
    exact h.address buffer hb
  · exact h.freed a ha

theorem owned_load (h : Owned st) (path : Bytes) (calls : BundleCalls) :
    Owned (httpLoadCaBundle st path calls).1 := by
  rcases httpLoadCaBundle_cases st path calls with
    ⟨_,text,allocated,freed,hle,hfreed,heq⟩ | ⟨hinit,_,_,data,_,_,heq⟩
  · rw [heq]
    refine ⟨h.down,h.data,fun buffer hb => (h.address buffer hb).trans_le hle,fun a ha => ?_⟩
    rcases hfreed with rfl | ⟨new,rfl,_,hnew⟩
    · exact (h.freed a ha).trans_le hle
    · rcases List.mem_cons.mp ha with rfl | ha
      · exact hnew
      · exact (h.freed a ha).trans_le hle
  · have hfreed : ∀ a ∈ (st.caBundleData.map Buffer.address).toList++st.freed,
        a < st.allocated+1 := fun a ha => Nat.lt_succ_of_lt (h.dropped a ha)
    rw [heq]
    unfold replaceCaBundle
    dsimp only
    split_ifs with hload
    · refine ⟨fun _ => rfl,rfl,fun buffer hb => (nomatch hb),fun a ha => ?_⟩
      rcases List.mem_cons.mp ha with rfl | ha
      · exact Nat.lt_succ_self _
      · exact hfreed a ha
    · refine ⟨fun hdown => absurd (hdown.symm.trans hinit) (by decide),rfl,fun buffer hb => ?_,hfreed⟩
      injection hb with hb
      exact hb ▸ Nat.lt_succ_self _

/-- Who owns which buffer stays settled whatever libhttp reports. -/
theorem step_owned (h : Owned st) (c : BundleCall) : Owned (step st c) := by
  cases c with
  | init calls =>
    rcases httpInit_cases st calls with heq | ⟨_,mode,path,text,heq⟩
    · rw [step,heq]
      exact h
    · have hstarted : Owned { st with
          initialized := true, sslVerifyMode := mode, caBundlePath := path } :=
        ⟨fun hdown => (nomatch hdown),h.data,h.address,h.freed⟩
      have hloaded := owned_load hstarted path.val (calls.bundle path.val)
      rw [step,heq]
      exact ⟨hloaded.down,hloaded.data,hloaded.address,hloaded.freed⟩
  | fini unloadCert =>
    unfold step httpFini
    split_ifs
    · exact h
    · exact ⟨fun _ => rfl,rfl,fun buffer hb => (nomatch hb),h.dropped⟩
  | load path calls => exact owned_load h path calls

/-- libhttp still has the old bundle, and nothing else knows of it. -/
theorem not_inStep_of_kept (h : InStep st) {path : Bytes} {buffer : Buffer} {calls : BundleCalls}
    (hloaded : st.caBundleLoaded = true) (hkept : calls.unloadCert ≠ 0) :
    ¬ InStep (replaceCaBundle st path buffer calls).1 := by
  intro hnew
  have hone : st.registered.length = 1 := by rw [h.count,if_pos hloaded]
  have hcount := hnew.count
  by_cases hload : calls.loadCert = 0
  · simp [replaceCaBundle,hload,unloadCaBundle,Http.free,hkept,hone] at hcount
  · simp [replaceCaBundle,hload,unloadCaBundle,Http.free,Http.setLastError,hkept,hone] at hcount

/-- Nothing but the new bundle is registered once the old one is dropped. -/
theorem inStep_of_dropped (h : InStep st) {path : Bytes} {buffer : Buffer} {calls : BundleCalls}
    (hnew : ∀ a ∈ (st.caBundleData.map Buffer.address).toList++st.freed, a ≠ buffer.address)
    (hdrops : ¬ (st.caBundleLoaded = true ∧ calls.unloadCert ≠ 0)) :
    InStep (replaceCaBundle st path buffer calls).1 := by
  have hdropped : (if st.caBundleLoaded ∧ calls.unloadCert = 0 then [] else st.registered) =
      ([] : List Buffer) := by
    by_cases hloaded : st.caBundleLoaded = true
    · have hunload : calls.unloadCert = 0 := by
        by_contra hne
        exact hdrops ⟨hloaded,hne⟩
      rw [if_pos ⟨hloaded,hunload⟩]
    · rw [if_neg (fun hc => hloaded hc.1)]
      have hcount := h.count
      rw [if_neg hloaded] at hcount
      exact List.length_eq_zero_iff.mp hcount
  unfold replaceCaBundle unloadCaBundle
  dsimp only [Http.free]
  rw [hdropped]
  split_ifs with hload
  · exact ⟨rfl,fun buffer hb => nomatch hb⟩
  · refine ⟨rfl,fun registered hb => ?_⟩
    have hb := List.mem_singleton.mp hb
    refine ⟨by rw [hb],fun hfreed => ?_⟩
    rw [hb] at hfreed
    exact hnew _ hfreed rfl

/-- A load leaves the registrations in step, unless it drops a loaded bundle and libhttp
keeps that one. -/
theorem load_inStep_iff (ho : Owned st) (h : InStep st) (path : Bytes) (calls : BundleCalls) :
    InStep (httpLoadCaBundle st path calls).1 ↔ ¬ UnloadFails st (.load path calls) := by
  rcases httpLoadCaBundle_cases st path calls with
    ⟨hno,text,allocated,freed,_,hfreed,heq⟩ | ⟨hinit,hpath,husable,data,_,_,heq⟩
  · refine iff_of_true ?_ fun hfails => hno ⟨hfails.1,hfails.2.1,hfails.2.2.1⟩
    rw [heq]
    refine ⟨h.count,fun buffer hb => ?_⟩
    obtain ⟨hdata,hlive⟩ := h.buffer buffer hb
    refine ⟨hdata,?_⟩
    rcases hfreed with rfl | ⟨new,rfl,hnew,_⟩
    · exact hlive
    · have := ho.address buffer hdata
      simp only [List.mem_cons,not_or]
      exact ⟨by omega,hlive⟩
  · have hcounted : InStep { st with allocated := st.allocated+1 } := ⟨h.count,h.buffer⟩
    rw [heq]
    by_cases hkept : st.caBundleLoaded = true ∧ calls.unloadCert ≠ 0
    · exact iff_of_false (not_inStep_of_kept hcounted hkept.1 hkept.2)
        (not_not.mpr ⟨hinit,hpath,husable,hkept⟩)
    · refine iff_of_true ?_ fun hfails => hkept hfails.2.2.2
      exact inStep_of_dropped hcounted (fun a ha => (ho.dropped a ha).ne) hkept

theorem step_inStep_iff (ho : Owned st) (h : InStep st) (c : BundleCall) :
    InStep (step st c) ↔ ¬ UnloadFails st c := by
  cases c with
  | init calls =>
    refine iff_of_true ?_ not_false
    rcases httpInit_cases st calls with heq | ⟨hdown,mode,path,text,heq⟩
    · rw [step,heq]
      exact h
    · -- before `http_init` nothing is loaded that the load could drop
      have hstarted : Owned { st with
          initialized := true, sslVerifyMode := mode, caBundlePath := path } :=
        ⟨fun hdown => (nomatch hdown),ho.data,ho.address,ho.freed⟩
      have hloaded := (load_inStep_iff hstarted ⟨h.count,h.buffer⟩ path.val
        (calls.bundle path.val)).mpr fun hfails =>
          absurd ((ho.down hdown).symm.trans hfails.2.2.2.1) (by decide)
      rw [step,heq]
      exact ⟨hloaded.count,hloaded.buffer⟩
  | fini unloadCert =>
    refine iff_of_true ?_ not_false
    unfold step httpFini
    split_ifs
    · exact h
    · exact ⟨rfl,fun buffer hb => nomatch hb⟩
  | load path calls => exact load_inStep_iff ho h path calls

end Steps

theorem owned_fresh : Owned Http.fresh where
  down := fun _ => rfl
  data := rfl
  address := by simp [Http.fresh]
  freed := by simp [Http.fresh]

theorem inStep_fresh : InStep Http.fresh := ⟨rfl,by simp [Http.fresh]⟩

/-- Bundle and registrations are in step in every state of a run, if and only if no call
of it drops a loaded bundle that libhttp then keeps. -/
theorem along_inStep_iff (calls : List BundleCall) :
    Along step (fun st c => InStep (step st c)) calls Http.fresh ↔
      Along step (fun st c => ¬ UnloadFails st c) calls Http.fresh :=
  @along_iff_of_step _ _ step InStep (fun st c => ¬ UnloadFails st c) (fun st _ => Owned st)
    (fun _ c h ho => step_inStep_iff ho h c) calls _
    (along_invariant (fun _ c h => step_owned h c) owned_fresh) inStep_fresh

/-- A readable file, and libhttp takes it; `unloadCert` is for the bundle before it. -/
def readableBundle (content : Bytes) (unloadCert : ℤ) : BundleCalls :=
  ⟨content,.whole content,unloadCert,0⟩

/-- A start with no config file. -/
def plainInit (content : Bytes) : InitCalls :=
  ⟨true,1,1,[],⟨false,none,false,fun _ => 0⟩,fun _ => readableBundle content 0⟩

/-- A reload after a start, where libhttp does not let go of the first bundle. -/
def keptBundle : List BundleCall :=
  [.init (plainInit (bytes "A")),.load (bytes "/b") (readableBundle (bytes "B") (-1))]

/-- Two bundles are registered where one is loaded, and the buffer of one is freed. -/
theorem keptBundle_not_inStep :
    let st := keptBundle.foldl step Http.fresh
    st.caBundleLoaded = true ∧ st.registered = [⟨0,bytes "A"⟩,⟨1,bytes "B"⟩] ∧ st.freed = [0] ∧
      ¬ Along step (fun st c => InStep (step st c)) keptBundle Http.fresh := by
  have h : (keptBundle.foldl step Http.fresh).caBundleLoaded = true ∧
      (keptBundle.foldl step Http.fresh).registered = [⟨0,bytes "A"⟩,⟨1,bytes "B"⟩] ∧
      (keptBundle.foldl step Http.fresh).freed = [0] := by decide
  refine ⟨h.1,h.2.1,h.2.2,fun hall => ?_⟩
  have hcount := hall.2.1.count
  change (keptBundle.foldl step Http.fresh).registered.length =
    if (keptBundle.foldl step Http.fresh).caBundleLoaded then 1 else 0 at hcount
  rw [h.1,h.2.1] at hcount
  exact absurd hcount (by decide)

section Reloads

variable (st : Http) (path : Bytes) (calls : BundleCalls)

/-- The contents of a bundle that is registered with libhttp. -/
def Trusts (st : Http) (roots : Bytes) : Prop := ∃ buffer ∈ st.registered, buffer.content = roots

/-- A load that fails has changed nothing that counts, and one that succeeds has registered
exactly what the file holds. -/
structure KeepsRoots (content : Bytes) (loaded : Http × Bool) : Prop where
  failed : loaded.2 = false → loaded.1.caBundleLoaded = st.caBundleLoaded ∧
    loaded.1.caBundlePath = st.caBundlePath ∧ ∀ roots, Trusts loaded.1 roots ↔ Trusts st roots
  succeeded : loaded.2 = true → ∀ roots, Trusts loaded.1 roots ↔ roots = content

/-- The file is not longer than `fstat` says, and the reads deliver all of it. -/
def ReadsAll (io : ReadCalls) (content : Bytes) : Prop :=
  ∀ size, io.statSize = some size → content.length ≤ size ∧ Delivers io.reads 0 content.length

variable {st path calls}

theorem readTextFile_eq_content_iff {content data : Bytes} {io : ReadCalls} {maxSize : ℕ}
    (h : readTextFile content io maxSize = some data) : data = content ↔ ReadsAll io content := by
  unfold readTextFile at h
  by_cases hopened : io.opened = false
  · rw [if_pos hopened] at h
    cases h
  rw [if_neg hopened] at h
  cases hsize : io.statSize with
  | none =>
    rw [hsize] at h
    cases h
  | some size =>
    rw [hsize] at h
    dsimp only at h
    split_ifs at h
    injection h with h
    subst h
    have hloop := @readLoop_eq_take_iff _ io.reads size size 0 size content le_rfl le_rfl
    have hall : ReadsAll io content ↔
        content.length ≤ size ∧ Delivers io.reads 0 content.length := by simp [ReadsAll,hsize]
    rw [hall]
    constructor
    · intro heq
      have hle := readLoop_length_le io.reads size size 0 size content
      rw [heq] at hle
      rw [heq,List.take_of_length_le hle,min_eq_right hle] at hloop
      exact ⟨hle,hloop.mp rfl⟩
    · rintro ⟨hle,hdelivers⟩
      rw [List.take_of_length_le hle,min_eq_right hle] at hloop
      exact hloop.mpr hdelivers

/-- The bundles that a load leaves registered beside the one it loads. -/
theorem trusts_replaceCaBundle (buffer : Buffer) (hload : calls.loadCert = 0) (roots : Bytes) :
    Trusts (replaceCaBundle st path buffer calls).1 roots ↔
      roots = buffer.content ∨
        ¬ (st.caBundleLoaded = true ∧ calls.unloadCert = 0) ∧ Trusts st roots := by
  simp only [Trusts,replaceCaBundle,hload,ne_eq,not_true_eq_false,if_false,unloadCaBundle]
  split_ifs with hdropped
  · simp [hdropped,eq_comm]
  · simp only [List.mem_append,List.mem_singleton,hdropped,not_false_eq_true,true_and]
    constructor
    · rintro ⟨b,hb | rfl,rfl⟩
      · exact Or.inr ⟨b,hb,rfl⟩
      · exact Or.inl rfl
    · rintro (rfl | ⟨b,hb,rfl⟩)
      · exact ⟨buffer,Or.inr rfl,rfl⟩
      · exact ⟨b,Or.inl hb,rfl⟩

/-- The bundle that libhttp takes is in force alone if what was read is the whole file and
no other roots are left. -/
theorem keepsRoots_taken_iff {content : Bytes} (buffer : Buffer) (hload : calls.loadCert = 0) :
    KeepsRoots st content (replaceCaBundle { st with allocated := st.allocated+1 } path buffer calls) ↔
      buffer.content = content ∧ ((st.caBundleLoaded = true ∧ calls.unloadCert = 0) ∨
        ∀ roots, Trusts st roots → roots = content) := by
  have hstatus : (replaceCaBundle { st with allocated := st.allocated+1 } path buffer calls).2 =
      true := by simp [replaceCaBundle,hload]
  have htrusts := fun roots => @trusts_replaceCaBundle
    { st with allocated := st.allocated+1 } path calls buffer hload roots
  constructor
  · intro hkeeps
    have hnew := hkeeps.succeeded hstatus
    have hcontent : buffer.content = content :=
      (hnew _).mp ((htrusts _).mpr (Or.inl rfl))
    refine ⟨hcontent,or_iff_not_imp_left.mpr fun hkept roots hroots => ?_⟩
    exact (hnew roots).mp ((htrusts roots).mpr (Or.inr ⟨hkept,hroots⟩))
  · rintro ⟨hcontent,hother⟩
    refine ⟨fun hfailed => absurd (hstatus.symm.trans hfailed) (by decide),fun _ roots => ?_⟩
    rw [htrusts roots,hcontent]
    constructor
    · rintro (h | ⟨hkept,hroots⟩)
      · exact h
      · exact hother.resolve_left hkept roots hroots
    · exact Or.inl

/-- A bundle that libhttp refuses leaves none loaded, whatever was loaded before. -/
theorem keepsRoots_refused_iff {content : Bytes} (buffer : Buffer) (hload : calls.loadCert ≠ 0) :
    KeepsRoots st content (replaceCaBundle { st with allocated := st.allocated+1 } path buffer calls) ↔
      st.caBundleLoaded = false := by
  constructor
  · intro hkeeps
    have hflag := (hkeeps.failed (by simp [replaceCaBundle,hload])).1
    exact hflag.symm.trans (by simp [replaceCaBundle,hload,unloadCaBundle,Http.free,Http.setLastError])
  · intro hnone
    refine ⟨fun _ => ⟨?_,?_,fun roots => ?_⟩,fun h => ?_⟩
    · simp [replaceCaBundle,hload,unloadCaBundle,Http.free,Http.setLastError,hnone]
    · simp [replaceCaBundle,hload,unloadCaBundle,Http.free,Http.setLastError]
    · simp [Trusts,replaceCaBundle,hload,unloadCaBundle,Http.free,Http.setLastError,hnone]
    · simp [replaceCaBundle,hload] at h

/-- A reload keeps the old roots or takes over the new ones whole, if and only if libhttp
refuses no usable file while a bundle is loaded, the file of one that it takes is read to its
end, and libhttp lets go of every other bundle. -/
theorem httpLoadCaBundle_keepsRoots_iff :
    KeepsRoots st calls.content (httpLoadCaBundle st path calls) ↔
      (st.initialized = true → path ≠ [] →
        (calls.Refused → st.caBundleLoaded = false) ∧
        (calls.Taken → ReadsAll calls.read calls.content ∧
          ((st.caBundleLoaded = true ∧ calls.unloadCert = 0) ∨
            ∀ roots, Trusts st roots → roots = calls.content))) := by
  rcases httpLoadCaBundle_cases st path calls with
    ⟨hno,text,allocated,freed,_,_,heq⟩ | ⟨hinit,hpath,husable,data,hread,hdata,heq⟩
  · rw [heq]
    refine iff_of_true ⟨fun _ => ⟨rfl,rfl,fun _ => Iff.rfl⟩,fun h => nomatch h⟩ fun hinit hpath => ?_
    exact ⟨fun h => absurd ⟨hinit,hpath,Or.inr h⟩ hno,fun h => absurd ⟨hinit,hpath,Or.inl h⟩ hno⟩
  · rw [heq,forall_prop_of_true hinit,forall_prop_of_true hpath]
    by_cases hload : calls.loadCert = 0
    · have htaken : calls.Taken := ⟨⟨data,hread,hdata⟩,hload⟩
      have hrefused : ¬ calls.Refused := fun h => h.2 hload
      simp only [hrefused,htaken,true_implies,false_implies,true_and,
        ← readTextFile_eq_content_iff hread]
      exact keepsRoots_taken_iff ⟨st.allocated,data⟩ hload
    · have htaken : ¬ calls.Taken := fun h => hload h.2
      have hrefused : calls.Refused := ⟨⟨data,hread,hdata⟩,hload⟩
      simp only [hrefused,htaken,true_implies,false_implies,and_true]
      exact keepsRoots_refused_iff ⟨st.allocated,data⟩ hload

/-- A state with the bundle `A` in force. -/
def trusting : Http := (httpInit Http.fresh (plainInit (bytes "A"))).1

/-- A file that libhttp takes for no bundle. -/
def refusedBundle : BundleCalls := { readableBundle (bytes "B") 0 with loadCert := -1 }

/-- The load fails, and the roots that were in force before it are gone. -/
theorem refusedBundle_drops_roots :
    trusting.caBundleLoaded = true ∧ Trusts trusting (bytes "A") ∧
      (httpLoadCaBundle trusting (bytes "/b") refusedBundle).2 = false ∧
      (httpLoadCaBundle trusting (bytes "/b") refusedBundle).1.registered = [] ∧
      ¬ KeepsRoots trusting refusedBundle.content
        (httpLoadCaBundle trusting (bytes "/b") refusedBundle) := by
  have h : trusting.caBundleLoaded = true ∧ trusting.registered = [⟨0,bytes "A"⟩] ∧
      (httpLoadCaBundle trusting (bytes "/b") refusedBundle).2 = false ∧
      (httpLoadCaBundle trusting (bytes "/b") refusedBundle).1.caBundleLoaded = false ∧
      (httpLoadCaBundle trusting (bytes "/b") refusedBundle).1.registered = [] := by decide
  refine ⟨h.1,⟨_,by rw [h.2.1]; exact List.mem_singleton_self _,rfl⟩,h.2.2.1,h.2.2.2.2,
    fun hkeeps => ?_⟩
  have hflag := (hkeeps.failed h.2.2.1).1
  rw [h.1,h.2.2.2.1] at hflag
  exact absurd hflag (by decide)

end Reloads

end BundleRuns
end RemotePkgInstaller
