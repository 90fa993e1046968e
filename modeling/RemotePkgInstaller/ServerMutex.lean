import RemotePkgInstaller.ProgramLife

/-! The mutex of the server over a run of the program.  `sb_close_server` locks and destroys it;
`sb_new_server` initialises it last, and calls `sb_close_server` when anything before fails. -/
namespace RemotePkgInstaller
namespace ServerMutex

open LibraryCalls ProgramLife ProgramStages ProgramStart ServerStart

/-- The calls of `server.c` and `sandbird.c` in a run. -/
def serverCall? : SystemCall → Option ServerCall
  | .server c => some c
  | _ => none

def serverCalls (calls : List SystemCall) : List ServerCall := calls.filterMap serverCall?

/-- The mutex is locked exactly where the server has memory, and is never initialised. -/
structure Unset (calls : List ServerCall) : Prop where
  locked : .mutexLock ∈ calls ↔ .malloc true ∈ calls
  never : .mutexInit 0 ∉ calls

theorem serverCalls_append (calls calls' : List SystemCall) :
    serverCalls (calls++calls') = serverCalls calls++serverCalls calls' := List.filterMap_append

theorem serverCalls_server (calls : List ServerCall) :
    serverCalls (calls.map .server) = calls := by
  rw [serverCalls,List.filterMap_map]
  exact List.filterMap_some

theorem serverCalls_library (left : LibraryCalls.Left) (st : Process) :
    serverCalls (onConsole st left).calls = [] := by
  rw [onConsole,serverCalls,List.filterMap_map]
  exact List.filterMap_eq_nil_iff.mpr fun _ _ => rfl

theorem bracket_unset {up : Started} {f : Process → Life} {down : Process → Ended}
    (hup : serverCalls up.calls = []) (hdown : ∀ st, serverCalls (down st).2 = [])
    (hgo : (f up.st).ended = true → Unset (serverCalls (f up.st).calls))
    (h : (bracket up f down).ended = true) : Unset (serverCalls (bracket up f down).calls) := by
  cases hsucceeded : up.succeeded with
  | false =>
    rw [bracket_failed hsucceeded,hup]
    exact ⟨by simp,List.not_mem_nil⟩
  | true =>
    cases hended : (f up.st).ended with
    | false =>
      rw [bracket_running hsucceeded hended] at h
      exact Bool.noConfusion h
    | true =>
      rw [bracket_ended hsucceeded hended,serverCalls_append,serverCalls_append,hup,hdown,
        List.append_nil,List.nil_append]
      exact hgo hended

theorem sbCloseServer_locks (srv : SbServer) :
    .mutexLock ∈ sbCloseServer srv ∧ .malloc true ∉ sbCloseServer srv ∧
      .mutexInit 0 ∉ sbCloseServer srv := by
  unfold sbCloseServer
  split_ifs <;> decide

/-- What closes a server that has its memory and was never ready. -/
theorem unset_close (srv : SbServer) {calls : List ServerCall} (h : .mutexInit 0 ∉ calls) :
    Unset (.malloc true::(calls++sbCloseServer srv)) := by
  obtain ⟨hlock,_,hinit⟩ := sbCloseServer_locks srv
  refine ⟨iff_of_true ?_ List.mem_cons_self,?_⟩
  · exact List.mem_cons_of_mem _ (List.mem_append_right _ hlock)
  · simp [h,hinit]

theorem openServer_unset {a : StartAnswers} {srv : SbServer} {port : ℤ}
    (h : (openServer a srv port).1 = none) :
    ∃ calls srv', (openServer a srv port).2 = calls++sbCloseServer srv' ∧ .mutexInit 0 ∉ calls := by
  unfold openServer at h ⊢
  by_cases hsocket : a.socket = invalidSocket
  · rw [if_pos hsocket]
    exact ⟨[_],srv,rfl,by simp⟩
  · rw [if_neg hsocket] at h ⊢
    cases hready : (readyServer a port).1 with
    | true => simp [hready] at h
    | false =>
      simp only [hready]
      refine ⟨_::(readyServer a port).2,_,rfl,?_⟩
      unfold readyServer at hready ⊢
      split_ifs at hready ⊢
      · simp
      · simp
      · have hmutex := of_decide_eq_false hready
        simpa [eq_comm] using hmutex

theorem sbNewServer_unset {wide : ℕ → UInt32} {a : StartAnswers} {opt : SbOptions}
    (h : (sbNewServer wide a opt).1 = none) : Unset (sbNewServer wide a opt).2 := by
  unfold sbNewServer at h ⊢
  by_cases hmalloc : a.malloc = false
  · rw [if_pos hmalloc]
    exact ⟨by decide,by decide⟩
  · rw [if_neg hmalloc] at h ⊢
    cases hport : opt.port.bind (portOf a) with
    | none => exact unset_close _ List.not_mem_nil
    | some port =>
      rw [hport] at h
      cases hhost : opt.host with
      | none =>
        rw [hhost] at h
        obtain ⟨calls,srv',hcalls,hinit⟩ := openServer_unset h
        simp only [hcalls]
        exact unset_close srv' hinit
      | some host =>
        rw [hhost] at h
        by_cases hpton : a.inetPton = 1
        · simp only [ne_eq,hpton,not_true_eq_false,if_false] at h ⊢
          obtain ⟨calls,srv',hcalls,hinit⟩ := openServer_unset h
          simp only [hcalls]
          have hcons : .mutexInit 0 ∉ ServerCall.inetPton 1::calls := by simpa using hinit
          exact unset_close srv' hcons
        · simp only [ne_eq,hpton,not_false_eq_true,if_true]
          have hpton : .mutexInit 0 ∉ [ServerCall.inetPton a.inetPton] := by simp
          exact unset_close _ hpton

/-- Calls of neither kind around them change nothing. -/
theorem Unset.around {calls : List ServerCall} (h : Unset calls) (first last : List ServerCall)
    (hout : ∀ c ∈ first++last, c ≠ .mutexLock ∧ c ≠ .malloc true ∧ c ≠ .mutexInit 0) :
    Unset (first++(calls++last)) := by
  have hmem : ∀ c, (c = .mutexLock ∨ c = .malloc true ∨ c = .mutexInit 0) →
      (c ∈ first++(calls++last) ↔ c ∈ calls) := by
    intro c hc
    refine ⟨fun hmem => ?_,fun hmem => by simp [hmem]⟩
    by_contra hnot
    have houter : c ∈ first++last := by
      simp only [List.mem_append] at hmem ⊢
      tauto
    obtain ⟨h1,h2,h3⟩ := hout c houter
    rcases hc with rfl | rfl | rfl
    · exact h1 rfl
    · exact h2 rfl
    · exact h3 rfl
  refine ⟨?_,?_⟩
  · rw [hmem _ (Or.inl rfl),hmem _ (Or.inr (Or.inl rfl))]
    exact h.locked
  · rw [hmem _ (Or.inr (Or.inr rfl))]
    exact h.never

theorem freeCopy_other {copy : Copy} {text : Option Bytes} :
    ∀ c ∈ freeCopy copy text, c ≠ .mutexLock ∧ c ≠ .malloc true ∧ c ≠ .mutexInit 0 := by
  cases text with
  | none => exact fun c hc => absurd hc List.not_mem_nil
  | some text => simp [freeCopy]

theorem unset_nil : Unset [] := ⟨by simp,List.not_mem_nil⟩

theorem startAt_unset {wide : ℕ → UInt32} {a : StartAnswers} {statics : Statics} {workDir : Bytes}
    (h : (startAt wide a statics workDir).succeeded = false) :
    Unset (startAt wide a statics workDir).calls := by
  unfold startAt at h ⊢
  by_cases hdir : workDir = []
  · rw [if_pos hdir]
    exact unset_nil.around [] _ freeCopy_other
  · rw [if_neg hdir] at h ⊢
    cases hmade : (sbNewServer wide a (serverOptions statics.port)).1 with
    | some srv =>
      simp only [hmade] at h
      exact Bool.noConfusion h
    | none =>
      simp only [hmade]
      rw [List.append_assoc]
      refine (sbNewServer_unset hmade).around [_,_] _ fun c hc => ?_
      simp only [List.mem_append,List.mem_pair] at hc
      rcases hc with (rfl | rfl) | hc | hc
      · simp
      · simp
      · exact freeCopy_other c hc
      · exact freeCopy_other c hc

theorem serverStart_unset {wide : ℕ → UInt32} {a : StartAnswers} {statics : Statics}
    {ipAddress : Bytes} {port : ℤ} {workDir : Bytes}
    (h : (serverStart wide a statics ipAddress port workDir).succeeded = false) :
    Unset (serverStart wide a statics ipAddress port workDir).calls := by
  unfold serverStart at h ⊢
  split_ifs at h ⊢ with hstarted hip
  · exact unset_nil
  · have hleft := (startAt_unset h).around [.strdup .ipAddress a.ipAddressCopied] [] (by simp)
    rwa [List.append_nil] at hleft

variable (a : Answers)

/-- A server that has been started listens for ever. -/
theorem withServer_unset {st : Process} {ipAddress : Bytes}
    (h : (withServer a st ipAddress).ended = true) :
    Unset (serverCalls (withServer a st ipAddress).calls) := by
  unfold withServer at h ⊢
  cases hstarted : (startServer a st ipAddress).succeeded with
  | false =>
    rw [bracket_failed hstarted,startServer,onServer,serverCalls_server]
    exact serverStart_unset hstarted
  | true =>
    have hflag : (startServer a st ipAddress).st.server.started = true :=
      serverStart_started hstarted
    have hlisten : (listen a (startServer a st ipAddress).st).ended = false :=
      (serverListen_started hflag a.polls).1
    rw [bracket_running hstarted hlisten] at h
    exact Bool.noConfusion h

theorem netInit_silent (st : Process) : serverCalls (netInit a st).calls = [] := by
  unfold netInit
  split_ifs <;> rfl

theorem netFini_silent (st : Process) : serverCalls (netFini a st).2 = [] := by
  unfold netFini
  split_ifs <;> rfl

theorem getIpv4_silent (bufSize : ℕ) : serverCalls (netGetIpv4 a bufSize).2.2 = [] := by
  unfold netGetIpv4
  split_ifs <;> rfl

theorem unload_silent (modules : List Module) : serverCalls (unload a modules) = [] := by
  rw [serverCalls,unload,List.filterMap_map]
  exact List.filterMap_eq_nil_iff.mpr fun _ _ => rfl

theorem loadFrom_silent (modules loaded : List Module) :
    serverCalls (loadFrom a loaded modules).2 = [] := by
  induction modules generalizing loaded with
  | nil => rfl
  | cons m modules ih =>
    unfold loadFrom
    split_ifs
    · exact unload_silent a loaded
    · exact ih (m::loaded)

theorem loadModules_silent (st : Process) : serverCalls (loadModules a st).calls = [] := by
  unfold loadModules
  split_ifs
  · rfl
  · exact loadFrom_silent a _ _

theorem cleanup_silent (st : Process) : serverCalls (cleanup a st).2 = [] := by
  have hunload : serverCalls (unloadModules a st).2 = [] := by
    unfold unloadModules
    split_ifs
    · rfl
    · exact unload_silent a _
  have hrestore : serverCalls (unjailbreak (unloadModules a st).1).2 = [] := by
    unfold unjailbreak
    split_ifs <;> rfl
  rw [cleanup,serverCalls_append,hunload,hrestore]
  rfl

theorem jailbreak_silent (st : Process) : serverCalls (jailbreak a st).2 = [] := by
  unfold jailbreak
  split_ifs <;> rfl

/-- Everything is given, but the port of the server is taken. -/
def portTaken : Answers where
  libjbc := 1
  found _ := true
  loadModule _ := 0
  unloadModule _ := 0
  userServiceInitialize := 0
  userServiceTerminate := 0
  appInstUtilInitialize := 0
  appInstUtilTerminate := 0
  bgftHeap := some 0
  bgftServiceIntInit := 0
  bgftServiceIntTerm := 0
  netCtlInit := 0
  netInit := 0
  netPoolCreate := 1
  netPoolDestroy := 0
  netTerm := 0
  netCtlGetInfo := 0
  ipAddressSize := 16
  ipAddressField := bytes "10.0.0.2"
  http := BundleRuns.plainInit []
  httpsUnloadCert := 0
  httpTerm := 0
  sslTerm := 0
  wide _ := 0
  server := ⟨true,true,true,false,1,7,-1,0,0⟩
  polls := []

end ServerMutex
end RemotePkgInstaller
