import RemotePkgInstaller.Interleaving
import RemotePkgInstaller.ServerCalls
import RemotePkgInstaller.Settings

/-! The connection threads of the server.  Each runs the program of one request, they share
what `http.c` keeps and the config file, and one step is one call. -/
namespace RemotePkgInstaller
namespace SharedServer

open HttpState HttpText HttpTransfer Interleaving Programs Program Requests ServerCalls Settings
  Util

/-- The results of what one call does on the console. -/
structure StepCalls where
  sdk : Sdk
  text : TextSdk
  bundle : Bytes → BundleCalls
  write : WriteCalls
  other : (c : ServerCall) → Reply c

/-- What a call leaves of the shared state, what it answers, and the calls it makes of
libhttp. -/
structure Serving (c : ServerCall) where
  state : Server
  reply : Reply c
  sdkCalls : List SdkCall

/-- One call.  Those that are not of `http.c` leave the shared state alone. -/
def serve (o : StepCalls) (st : Server) : (c : ServerCall) → Serving c
  | .httpGetSslVerify => ⟨st,st.http.sslVerifyMode,[]⟩
  | .httpSetSslVerify mode => ⟨{ st with http := httpSetSslVerify st.http mode },(),[]⟩
  | .httpLoadCaBundle path =>
    let loaded := HttpState.httpLoadCaBundle st.http path (o.bundle path)
    ⟨{ st with http := loaded.1 },loaded.2,[]⟩
  | .httpSaveConfig _ =>
    let saved := HttpState.httpSaveConfig st.http o.text st.config o.write
    ⟨{ st with config := saved.1 },saved.2,[]⟩
  | .httpGetLastError => ⟨st,st.http.lastError,[]⟩
  | .httpGetCaBundlePath => ⟨st,st.http.caBundlePath.val,[]⟩
  | .httpHasCaBundle => ⟨st,st.http.caBundleLoaded,[]⟩
  | .httpDownloadFile url size offset sslVerify =>
    let t := HttpTransfer.httpDownloadFile url o.sdk st.http size offset sslVerify
    ⟨{ st with http := t.http },t.value,t.calls⟩
  | .httpGetFileSize url sslVerify =>
    let t := HttpTransfer.httpGetFileSize url o.sdk st.http sslVerify
    ⟨{ st with http := t.http },t.value,t.calls⟩
  | c => ⟨st,o.other c,[]⟩

/-- A call that has been made, with the state before and after it. -/
structure Taken where
  before : Server
  calls : StepCalls
  call : ServerCall

def Taken.serving (t : Taken) : Serving t.call := serve t.calls t.before t.call
def Taken.after (t : Taken) : Server := t.serving.state
def Taken.event (t : Taken) : ServerEvent := ⟨t.call,t.serving.reply⟩

/-- A thread: what it still has to do, and what it has done. -/
structure Thread where
  program : ServerProgram Answer Answer
  trace : List Taken

/-- `calls` is for the next step of a thread, by the number of those it has taken. -/
def Thread.step (calls : ℕ → StepCalls) (st : Server) (thread : Thread) : Server × Thread :=
  match thread.program with
  | .done _ => (st,thread)
  | .fail _ => (st,thread)
  | .call c next =>
    let taken := ⟨st,calls thread.trace.length,c⟩
    (taken.after,⟨next taken.serving.reply,thread.trace++[taken]⟩)

/-- Every thread before its first step. -/
def start {ι : Type} (program : ι → ServerProgram Answer Answer) (st : Server) :
    Global ι Server Thread :=
  ⟨st,fun i => ⟨program i,[]⟩⟩

/-- The calls behind the steps of all threads. -/
abbrev Console (ι : Type) := ι → ℕ → StepCalls

section Threads

variable {ι : Type} [DecidableEq ι] (console : Console ι)
  (program : ι → ServerProgram Answer Answer)

/-- A run of the threads in the order of the schedule. -/
def runThreads (schedule : List ι) (st : Server) : Global ι Server Thread :=
  Interleaving.run (fun i => Thread.step (console i)) schedule (start program st)

variable {console} {i : ι} {g : Global ι Server Thread}

/-- A thread that has ended does nothing more. -/
theorem act_of_ended {r : Except Answer Answer} (h : (g.locals i).program = ofExcept r) :
    act (fun i => Thread.step (console i)) i g = g := by
  have hstep : Thread.step (console i) g.shared (g.locals i) = (g.shared,g.locals i) := by
    unfold Thread.step
    rw [h]
    cases r <;> rfl
  simp only [act,hstep,Function.update_eq_self]

/-- A thread that makes a call goes on with its answer. -/
theorem act_of_call {c : ServerCall} {next : Reply c → ServerProgram Answer Answer}
    (h : (g.locals i).program = .call c next) :
    let taken : Taken := ⟨g.shared,console i (g.locals i).trace.length,c⟩
    act (fun i => Thread.step (console i)) i g =
      ⟨taken.after,Function.update g.locals i
        ⟨next taken.serving.reply,(g.locals i).trace++[taken]⟩⟩ := by
  simp only [act,Thread.step,h]

variable {program}

/-- A thread has come to where it is by what it has done. -/
def Came (p : ServerProgram Answer Answer) (thread : Thread) : Prop :=
  Program.Runs p (thread.trace.map Taken.event) thread.program

theorem came_step {p : ServerProgram Answer Answer} (calls : ℕ → StepCalls) (st : Server)
    {thread : Thread} (h : Came p thread) : Came p (thread.step calls st).2 := by
  unfold Thread.step
  split
  · exact h
  · exact h
  · next c next hprogram =>
    unfold Came at h ⊢
    rw [hprogram] at h
    rw [List.map_append]
    exact h.append (.call (.refl _))

variable (program)

variable (console) in
theorem came_runThreads (schedule : List ι) (st : Server) (i : ι) :
    Came (program i) ((runThreads console program schedule st).locals i) := by
  have hstep : ∀ i (g : Global ι Server Thread), (∀ j, Came (program j) (g.locals j)) → True →
      ∀ j, Came (program j) ((act (fun i => Thread.step (console i)) i g).locals j) := by
    intro i g hg _ j
    by_cases hj : j = i
    · subst hj
      rw [act_locals_self]
      exact came_step _ _ (hg j)
    · rw [act_locals_of_ne hj]
      exact hg j
  have hstart : ∀ i, Came (program i) ((start program st).locals i) :=
    fun i => Runs.refl (program i)
  exact run_invariant hstep (allowed_of_forall (fun _ _ => trivial) schedule _) hstart i

end Threads

section Alone

variable {ε α : Type} (calls : ℕ → StepCalls)

/-- One step of a program that runs by itself. -/
def stepAlone (s : Server × List Taken) (c : ServerCall) : (Server × List Taken) × Reply c :=
  let taken : Taken := ⟨s.1,calls s.2.length,c⟩
  ((taken.after,s.2++[taken]),taken.serving.reply)

def runAlone (p : ServerProgram ε α) (st : Server) : (Server × List Taken) × Except ε α :=
  Program.run (stepAlone calls) p (st,[])

theorem run_stepAlone (p : ServerProgram ε α) (s : Server × List Taken) :
    (Program.run (stepAlone calls) p s).1.2.map Taken.event =
      s.2.map Taken.event++Program.history (stepAlone calls) p s := by
  induction p generalizing s with
  | done a => exact (List.append_nil _).symm
  | fail e => exact (List.append_nil _).symm
  | call c next ih =>
    rw [Program.run,Program.history,ih,stepAlone]
    simp only [List.map_append,List.append_assoc]
    rfl

theorem ends_runAlone (p : ServerProgram ε α) (st : Server) :
    Ends p ((runAlone calls p st).1.2.map Taken.event) (runAlone calls p st).2 := by
  rw [runAlone,run_stepAlone]
  exact ends_run _ _ _

end Alone

end SharedServer
end RemotePkgInstaller
