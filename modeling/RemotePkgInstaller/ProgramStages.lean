import RemotePkgInstaller.ProgramStart

/-! What the program sets up and takes down, and the parts of a run of `main`: each sets up
something of its own around the next one. -/
namespace RemotePkgInstaller
namespace ProgramStages

open HttpState LibraryCalls Lifetimes ProgramStart ServerStart

/-- What the program sets up and takes down. -/
inductive Resource
  | jail
  | module (m : Module)
  | userService | appInstUtil | bgft | netCtl | net | netPool | ssl | http
  | copy (c : Copy)
  | server | socket
  deriving DecidableEq

section Acts

variable {live ks : List Resource} {k : Resource}

def needing (ks : List Resource) : Act Resource := ⟨ks,none,none⟩

def creating (ks : List Resource) (k : Resource) (done : Bool) : Act Resource :=
  ⟨ks,if done then some k else none,none⟩

def deleting (k : Resource) : Act Resource := ⟨[],none,some k⟩

theorem quiet_needing (h : ∀ k ∈ ks, k ∈ live) : (needing ks).Quiet live := ⟨h,rfl,rfl⟩

theorem quiet_failing (h : ∀ k ∈ ks, k ∈ live) {done : Bool} (hdone : done = false) :
    (creating ks k done).Quiet live := ⟨h,by rw [creating,hdone]; rfl,rfl⟩

theorem creates_done (h : ∀ k ∈ ks, k ∈ live) {done : Bool} (hdone : done = true)
    (hfresh : k ∉ live) : (creating ks k done).Creates live k :=
  ⟨h,by rw [creating,hdone]; rfl,rfl,hfresh⟩

theorem deletes_deleting : (deleting k).Deletes k := ⟨rfl,rfl,rfl⟩

end Acts

def resourceOf : Library → Resource
  | .appInstUtil => .appInstUtil
  | .bgft => .bgft
  | .http => .http

def actOfLibrary : LibraryCall → Act Resource
  | .appInstUtilInitialize ret => creating [.module .appInstUtil] .appInstUtil (ret = 0)
  | .appInstUtilTerminate _ => deleting .appInstUtil
  | .bgftServiceIntInit ret => creating [.module .bgft] .bgft (ret = 0)
  | .bgftServiceIntTerm _ => deleting .bgft
  | .sslInit ret => creating [.module .ssl] .ssl (0 ≤ ret)
  | .sslTerm _ _ => deleting .ssl
  | .httpInit ret => creating [.module .http,.netPool,.ssl] .http (0 ≤ ret)
  | .httpTerm _ _ => deleting .http
  | call => needing (call.operates.map resourceOf).toList

/-- The mutex lies in the memory of the server.  The requests that a poll takes in are served
by all the libraries. -/
def actOfServer : ServerCall → Act Resource
  | .strdup c given => creating [] (.copy c) given
  | .freeCopy c => deleting (.copy c)
  | .malloc given => creating [] .server given
  | .free => deleting .server
  | .socket fd => creating [.net,.server] .socket (fd ≠ invalidSocket)
  | .close => deleting .socket
  | .setSocketBlocking | .setsockopt | .bind _ _ | .listen _ | .shutdown => needing [.socket]
  | .mutexInit _ | .mutexLock | .mutexUnlock | .mutexDestroy => needing [.server]
  | .sbPollServer _ => needing [.server,.socket,.http,.bgft,.appInstUtil,.userService]
  | .cleanupTempFiles | .inetPton _ | .usleep => needing []

/-- A function of a library needs the module that it is in. -/
def act : SystemCall → Act Resource
  | .loadLibjbc _ | .dlsym _ _ | .loadExec | .jbcGetCred | .jbcJailbreakCred => needing []
  | .jbcSetCred .jailbreakCred => creating [] .jail true
  | .jbcSetCred .og => deleting .jail
  | .loadModule m ret => creating [] (.module m) (ret = 0)
  | .unloadModule m _ => deleting (.module m)
  | .userServiceInitialize ret => creating [.module .userService] .userService (ret = 0)
  | .userServiceTerminate _ => deleting .userService
  | .netCtlInit ret => creating [.module .netCtl] .netCtl (ret = 0)
  | .netCtlTerm => deleting .netCtl
  | .netInit ret => creating [.module .net] .net (ret = 0)
  | .netTerm _ => deleting .net
  | .netPoolCreate ret => creating [.net] .netPool (0 ≤ ret)
  | .netPoolDestroy _ _ => deleting .netPool
  | .netCtlGetInfo _ => needing [.netCtl]
  | .library call => actOfLibrary call
  | .server call => actOfServer call

def acts (calls : List SystemCall) : List (Act Resource) := calls.map act

@[simp] theorem acts_nil : acts [] = [] := rfl

@[simp] theorem acts_cons (c : SystemCall) (calls : List SystemCall) :
    acts (c::calls) = act c::acts calls := rfl

@[simp] theorem acts_append (calls calls' : List SystemCall) :
    acts (calls++calls') = acts calls++acts calls' := List.map_append

/-- What says of each part whether it is up. -/
structure Flags where
  jailbroken : Bool
  jbcSetCred : Bool
  modulesLoaded : Bool
  net : Bool
  appInstUtil : Bool
  bgft : Bool
  http : Bool
  server : Bool

def flags (st : Process) : Flags :=
  ⟨st.jailbroken,st.jbcSetCred,st.modulesLoaded,st.net.initialized,
    st.console.appInstUtilInitialized,st.console.bgftInitialized,st.console.http.initialized,
    st.server.started⟩

/-- The rounds of the loop that serves. -/
def rounds (polls : List ℤ) : List SystemCall :=
  polls.flatMap fun ret => [.server (.sbPollServer ret),.server .usleep]

/-- A part of a run, begun while some things are up: it comes to its end exactly when something
fails, and then leaves everything as it has found it; or it sets up all of its things and ends in
the loop that serves. -/
structure Stage (polls : List ℤ) (live : List Resource) (st : Process) (ks : List Resource)
    (P : Prop) (l : Life) : Prop where
  ended : l.ended = true → ¬ P ∧ (∃ ks', Unwinds live ks' (acts l.calls)) ∧ flags l.st = flags st
  running : l.ended = false → P ∧ Opens live ks (acts l.calls) ∧ rounds polls <:+ l.calls

/-- What an `init` does: it sets up its things, or leaves everything as it was. -/
structure Starts (live : List Resource) (st : Process) (ks : List Resource) (P : Prop)
    (up : Started) : Prop where
  succeeds : up.succeeded = true ↔ P
  opens : P → Opens live ks (acts up.calls)
  unwinds : ¬ P → (∃ ks', Unwinds live ks' (acts up.calls)) ∧ flags up.st = flags st

section Bracket

variable {polls : List ℤ} {live ks ks' : List Resource} {st : Process} {P Q : Prop} {up : Started}
  {f : Process → Life} {down : Process → Ended}

theorem bracket_failed (h : up.succeeded = false) : bracket up f down = ⟨up.st,true,up.calls⟩ :=
  if_pos h

theorem bracket_running (h : up.succeeded = true) (hf : (f up.st).ended = false) :
    bracket up f down = ⟨(f up.st).st,false,up.calls++(f up.st).calls⟩ := by
  simp [bracket,h,hf]

theorem bracket_ended (h : up.succeeded = true) (hf : (f up.st).ended = true) :
    bracket up f down = ⟨(down (f up.st).st).1,true,
      up.calls++((f up.st).calls++(down (f up.st).st).2)⟩ := by
  simp [bracket,h,hf]

theorem bracket_stage (hup : Starts live st ks P up)
    (hgo : P → Stage polls (ks.reverse++live) up.st ks' Q (f up.st))
    (hdown : P → (f up.st).ended = true → ∀ st', flags st' = flags up.st →
      Closes live ks.reverse (acts (down st').2) ∧ flags (down st').1 = flags st) :
    Stage polls live st (ks++ks') (P ∧ Q) (bracket up f down) := by
  by_cases hP : P
  · have hsucceeded := hup.succeeds.mpr hP
    have hstage := hgo hP
    cases hended : (f up.st).ended with
    | false =>
      obtain ⟨hQ,hopens,hrounds⟩ := hstage.running hended
      rw [bracket_running hsucceeded hended]
      refine ⟨fun h => Bool.noConfusion h,fun _ => ⟨⟨hP,hQ⟩,?_,?_⟩⟩
      · rw [acts_append]
        exact (hup.opens hP).append hopens
      · exact hrounds.trans (List.suffix_append _ _)
    | true =>
      obtain ⟨hQ,⟨inner,hunwinds⟩,hflags⟩ := hstage.ended hended
      obtain ⟨hcloses,hdownFlags⟩ := hdown hP hended _ hflags
      rw [bracket_ended hsucceeded hended]
      refine ⟨fun _ => ⟨fun h => hQ h.2,⟨ks++inner,?_⟩,hdownFlags⟩,fun h => Bool.noConfusion h⟩
      rw [acts_append,acts_append]
      exact hunwinds.bracket (hup.opens hP) hcloses
  · have hfailed : up.succeeded = false := by
      rw [← Bool.not_eq_true]
      exact fun h => hP (hup.succeeds.mp h)
    obtain ⟨hunwinds,hflags⟩ := hup.unwinds hP
    rw [bracket_failed hfailed]
    exact ⟨fun _ => ⟨fun h => hP h.1,hunwinds,hflags⟩,fun h => Bool.noConfusion h⟩

end Bracket

end ProgramStages
end RemotePkgInstaller
