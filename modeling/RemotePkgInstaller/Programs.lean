import Mathlib.Data.Nat.Notation
import Mathlib.Tactic.Basic

/-! Programs that call an environment.  A program ends with a value or with a failure of
its own, or makes a call and goes on with the answer; what holds of it holds whatever
the environment answers. -/
namespace RemotePkgInstaller
namespace Programs

inductive Program (C : Type) (R : C → Type) (ε α : Type)
  | done (a : α)
  | fail (e : ε)
  | call (c : C) (next : R c → Program C R ε α)

/-- A call with its answer. -/
abbrev Event {C : Type} (R : C → Type) := (c : C) × R c

namespace Program

variable {C : Type} {R : C → Type} {ε ε' α β S : Type}

def bind : Program C R ε α → (α → Program C R ε β) → Program C R ε β
  | done a,f => f a
  | fail e,_ => fail e
  | call c next,f => call c fun r => bind (next r) f

instance : Monad (Program C R ε) where
  pure := done
  bind := bind

def perform (c : C) : Program C R ε (R c) := call c done

/-- How a program ends, as a value. -/
def caught : Program C R ε α → Program C R ε' (Except ε α)
  | done a => done (.ok a)
  | fail e => done (.error e)
  | call c next => call c fun r => caught (next r)

def ofExcept : Except ε α → Program C R ε α
  | .ok a => done a
  | .error e => fail e

instance : MonadLift (Except ε) (Program C R ε) := ⟨ofExcept⟩

@[simp] theorem pure_eq (a : α) : (pure a : Program C R ε α) = done a := rfl
@[simp] theorem done_bind (a : α) (f : α → Program C R ε β) : done a >>= f = f a := rfl
@[simp] theorem fail_bind (e : ε) (f : α → Program C R ε β) :
    (fail e : Program C R ε α) >>= f = fail e := rfl
@[simp] theorem call_bind (c : C) (next : R c → Program C R ε α) (f : α → Program C R ε β) :
    call c next >>= f = call c fun r => next r >>= f := rfl
@[simp] theorem perform_bind (c : C) (f : R c → Program C R ε β) :
    perform c >>= f = call c f := rfl

/-- The answers in the history take the one program to the other. -/
inductive Runs : Program C R ε α → List (Event R) → Program C R ε α → Prop
  | refl (p : Program C R ε α) : Runs p [] p
  | call {c : C} {next : R c → Program C R ε α} {r : R c} {history : List (Event R)}
      {q : Program C R ε α} (h : Runs (next r) history q) : Runs (call c next) (⟨c,r⟩::history) q

/-- The history of a whole run, and how it ends. -/
def Ends (p : Program C R ε α) (history : List (Event R)) (r : Except ε α) : Prop :=
  Runs p history (ofExcept r)

theorem Runs.append {p q q' : Program C R ε α} {history history' : List (Event R)}
    (h : Runs p history q) (h' : Runs q history' q') : Runs p (history++history') q' := by
  induction h with
  | refl p => exact h'
  | call _ ih => exact .call (ih h')

theorem ends_done {a : α} {history : List (Event R)} {r : Except ε α} :
    Ends (done a : Program C R ε α) history r ↔ history = [] ∧ r = .ok a := by
  constructor
  · intro h
    unfold Ends at h
    cases r with
    | ok b => cases h; exact ⟨rfl,rfl⟩
    | error e => cases h
  · rintro ⟨rfl,rfl⟩
    exact .refl _

theorem ends_fail {e : ε} {history : List (Event R)} {r : Except ε α} :
    Ends (fail e : Program C R ε α) history r ↔ history = [] ∧ r = .error e := by
  constructor
  · intro h
    unfold Ends at h
    cases r with
    | ok b => cases h
    | error e' => cases h; exact ⟨rfl,rfl⟩
  · rintro ⟨rfl,rfl⟩
    exact .refl _

theorem ends_call {c : C} {next : R c → Program C R ε α} {history : List (Event R)}
    {r : Except ε α} :
    Ends (call c next) history r ↔ ∃ a rest, history = ⟨c,a⟩::rest ∧ Ends (next a) rest r := by
  constructor
  · intro h
    unfold Ends at h
    cases r <;> cases h with
    | call h => exact ⟨_,_,rfl,h⟩
  · rintro ⟨a,rest,rfl,h⟩
    exact .call h

theorem ends_perform_bind {c : C} {f : R c → Program C R ε β} {history : List (Event R)}
    {r : Except ε β} :
    Ends (perform c >>= f) history r ↔
      ∃ a rest, history = ⟨c,a⟩::rest ∧ Ends (f a) rest r := ends_call

/-- A sequence ends in its second part, or with a failure of its first. -/
theorem ends_bind {p : Program C R ε α} {f : α → Program C R ε β} {history : List (Event R)}
    {r : Except ε β} :
    Ends (p >>= f) history r ↔
      (∃ first rest a, history = first++rest ∧ Ends p first (.ok a) ∧ Ends (f a) rest r) ∨
      ∃ e, r = .error e ∧ Ends p history (.error e) := by
  induction p generalizing history with
  | done a =>
    rw [done_bind]
    constructor
    · exact fun h => Or.inl ⟨[],history,a,rfl,ends_done.mpr ⟨rfl,rfl⟩,h⟩
    · rintro (⟨first,rest,b,rfl,h1,h2⟩ | ⟨e,_,h⟩)
      · obtain ⟨rfl,hb⟩ := ends_done.mp h1
        injection hb with hb
        exact hb ▸ h2
      · exact absurd (ends_done.mp h).2 (by simp)
  | fail e =>
    rw [fail_bind,ends_fail]
    constructor
    · rintro ⟨rfl,rfl⟩
      exact Or.inr ⟨e,rfl,ends_fail.mpr ⟨rfl,rfl⟩⟩
    · rintro (⟨first,rest,b,_,h1,_⟩ | ⟨e',rfl,h⟩)
      · exact absurd (ends_fail.mp h1).2 (by simp)
      · obtain ⟨rfl,he⟩ := ends_fail.mp h
        injection he with he
        exact ⟨rfl,by rw [he]⟩
  | call c next ih =>
    rw [call_bind,ends_call]
    constructor
    · rintro ⟨a,tail,rfl,htail⟩
      rcases (ih a).mp htail with ⟨first,rest,b,rfl,h1,h2⟩ | ⟨e,rfl,hfail⟩
      · exact Or.inl ⟨⟨c,a⟩::first,rest,b,rfl,ends_call.mpr ⟨a,first,rfl,h1⟩,h2⟩
      · exact Or.inr ⟨e,rfl,ends_call.mpr ⟨a,tail,rfl,hfail⟩⟩
    · rintro (⟨first,rest,b,rfl,h1,h2⟩ | ⟨e,rfl,h⟩)
      · obtain ⟨a,tail,rfl,htail⟩ := ends_call.mp h1
        exact ⟨a,tail++rest,rfl,(ih a).mpr (Or.inl ⟨tail,rest,b,rfl,htail,h2⟩)⟩
      · obtain ⟨a,tail,rfl,htail⟩ := ends_call.mp h
        exact ⟨a,tail,rfl,(ih a).mpr (Or.inr ⟨e,rfl,htail⟩)⟩

/-- The same answers lead to the same end. -/
theorem Ends.unique {p : Program C R ε α} {first first' rest rest' : List (Event R)}
    {r r' : Except ε α} (h : Ends p first r) (h' : Ends p first' r')
    (heq : first++rest = first'++rest') : first = first' ∧ r = r' ∧ rest = rest' := by
  induction p generalizing first first' with
  | done a =>
    obtain ⟨rfl,rfl⟩ := ends_done.mp h
    obtain ⟨rfl,rfl⟩ := ends_done.mp h'
    exact ⟨rfl,rfl,heq⟩
  | fail e =>
    obtain ⟨rfl,rfl⟩ := ends_fail.mp h
    obtain ⟨rfl,rfl⟩ := ends_fail.mp h'
    exact ⟨rfl,rfl,heq⟩
  | call c next ih =>
    obtain ⟨a,tail,rfl,htail⟩ := ends_call.mp h
    obtain ⟨a',tail',rfl,htail'⟩ := ends_call.mp h'
    simp only [List.cons_append,List.cons.injEq,Sigma.mk.injEq,heq_eq_eq,true_and] at heq
    obtain ⟨rfl,heq⟩ := heq
    obtain ⟨rfl,hr,hrest⟩ := ih a htail htail' heq
    exact ⟨rfl,hr,hrest⟩

theorem ends_caught {p : Program C R ε α} {history : List (Event R)}
    {r : Except ε' (Except ε α)} :
    Ends (caught p : Program C R ε' (Except ε α)) history r ↔
      ∃ result, r = .ok result ∧ Ends p history result := by
  induction p generalizing history with
  | done a =>
    rw [caught,ends_done]
    constructor
    · rintro ⟨rfl,rfl⟩
      exact ⟨_,rfl,ends_done.mpr ⟨rfl,rfl⟩⟩
    · rintro ⟨result,rfl,h⟩
      obtain ⟨rfl,rfl⟩ := ends_done.mp h
      exact ⟨rfl,rfl⟩
  | fail e =>
    rw [caught,ends_done]
    constructor
    · rintro ⟨rfl,rfl⟩
      exact ⟨_,rfl,ends_fail.mpr ⟨rfl,rfl⟩⟩
    · rintro ⟨result,rfl,h⟩
      obtain ⟨rfl,rfl⟩ := ends_fail.mp h
      exact ⟨rfl,rfl⟩
  | call c next ih =>
    rw [caught,ends_call]
    constructor
    · rintro ⟨a,rest,rfl,hrest⟩
      obtain ⟨result,rfl,hend⟩ := (ih a).mp hrest
      exact ⟨result,rfl,ends_call.mpr ⟨a,rest,rfl,hend⟩⟩
    · rintro ⟨result,rfl,hend⟩
      obtain ⟨a,rest,rfl,hrest⟩ := ends_call.mp hend
      exact ⟨a,rest,rfl,(ih a).mpr ⟨result,rfl,hrest⟩⟩

/-- What is caught ends first, and the rest goes on from how it has ended. -/
theorem ends_caught_bind {p : Program C R ε α} {f : Except ε α → Program C R ε' β}
    {history : List (Event R)} {r : Except ε' β} :
    Ends (caught p >>= f) history r ↔
      ∃ first rest result, history = first++rest ∧ Ends p first result ∧ Ends (f result) rest r := by
  rw [ends_bind]
  constructor
  · rintro (⟨first,rest,result,rfl,h,hrest⟩ | ⟨e,_,h⟩)
    · obtain ⟨_,heq,hend⟩ := ends_caught.mp h
      injection heq with heq
      exact ⟨first,rest,result,rfl,heq ▸ hend,hrest⟩
    · obtain ⟨_,heq,_⟩ := ends_caught.mp h
      cases heq
  · rintro ⟨first,rest,result,rfl,h,hrest⟩
    exact Or.inl ⟨first,rest,result,rfl,ends_caught.mpr ⟨result,rfl,h⟩,hrest⟩

section Calls

/-- Every call that the program can make has the property. -/
def Calls (P : C → Prop) : Program C R ε α → Prop
  | done _ => True
  | fail _ => True
  | call c next => P c ∧ ∀ r, Calls P (next r)

variable {P Q : C → Prop}

theorem calls_bind {p : Program C R ε α} {f : α → Program C R ε β} (h : Calls P p)
    (hf : ∀ a, Calls P (f a)) : Calls P (p >>= f) := by
  induction p with
  | done a => exact hf a
  | fail e => trivial
  | call c next ih => exact ⟨h.1,fun r => ih r (h.2 r)⟩

theorem calls_caught {p : Program C R ε α} (h : Calls P p) :
    Calls P (caught p : Program C R ε' (Except ε α)) := by
  induction p with
  | done a => trivial
  | fail e => trivial
  | call c next ih => exact ⟨h.1,fun r => ih r (h.2 r)⟩

theorem Calls.mono {p : Program C R ε α} (h : Calls P p) (hPQ : ∀ c, P c → Q c) : Calls Q p := by
  induction p with
  | done a => trivial
  | fail e => trivial
  | call c next ih => exact ⟨hPQ c h.1,fun r => ih r (h.2 r)⟩

theorem calls_perform_bind {c : C} {f : R c → Program C R ε β} (h : P c)
    (hf : ∀ r, Calls P (f r)) : Calls P (perform c >>= f) := ⟨h,hf⟩

/-- The calls of a run so far have the property, and so have those ahead. -/
theorem Calls.runs {p q : Program C R ε α} {history : List (Event R)} (h : Calls P p)
    (hr : Runs p history q) : (∀ e ∈ history, P e.1) ∧ Calls P q := by
  induction hr with
  | refl p => exact ⟨by simp,h⟩
  | call hr ih =>
    obtain ⟨hrest,hq⟩ := ih (h.2 _)
    refine ⟨?_,hq⟩
    intro e he
    rcases List.mem_cons.mp he with rfl | he
    · exact h.1
    · exact hrest e he

end Calls

section Effects

variable (effect : S → Event R → S)

/-- Whatever is answered, the program ends in a state and with a result that satisfy `Q`. -/
def Ensures (Q : S → Except ε α → Prop) : Program C R ε α → S → Prop
  | done a,s => Q s (.ok a)
  | fail e,s => Q s (.error e)
  | call c next,s => ∀ r, Ensures Q (next r) (effect s ⟨c,r⟩)

variable {effect} {Q Q' : S → Except ε α → Prop} {s : S}

theorem Ensures.mono {p : Program C R ε α} (h : Ensures effect Q p s)
    (hQ : ∀ s r, Q s r → Q' s r) : Ensures effect Q' p s := by
  induction p generalizing s with
  | done a => exact hQ _ _ h
  | fail e => exact hQ _ _ h
  | call c next ih => exact fun r => ih r (h r)

theorem ensures_bind {p : Program C R ε α} {f : α → Program C R ε β}
    {Q : S → Except ε β → Prop} :
    Ensures effect Q (p >>= f) s ↔
      Ensures effect (fun s r => match r with
        | .ok a => Ensures effect Q (f a) s
        | .error e => Q s (.error e)) p s := by
  induction p generalizing s with
  | done a => exact Iff.rfl
  | fail e => exact Iff.rfl
  | call c next ih => exact forall_congr' fun r => ih r

theorem ensures_caught {p : Program C R ε α} {Q : S → Except ε' (Except ε α) → Prop} :
    Ensures effect Q (caught p) s ↔ Ensures effect (fun s r => Q s (.ok r)) p s := by
  induction p generalizing s with
  | done a => exact Iff.rfl
  | fail e => exact Iff.rfl
  | call c next ih => exact forall_congr' fun r => ih r

theorem ensures_perform_bind {c : C} {f : R c → Program C R ε α} :
    Ensures effect Q (perform c >>= f) s ↔ ∀ r, Ensures effect Q (f r) (effect s ⟨c,r⟩) := Iff.rfl

/-- What every call of the program keeps, the program keeps. -/
theorem ensures_invariant {P : C → Prop} {Inv : S → Prop} {p : Program C R ε α} (h : Calls P p)
    (hkeep : ∀ s c r, P c → Inv s → Inv (effect s ⟨c,r⟩)) (hs : Inv s) :
    Ensures effect (fun s _ => Inv s) p s := by
  induction p generalizing s with
  | done a => exact hs
  | fail e => exact hs
  | call c next ih => exact fun r => ih r (h.2 r) (hkeep s c r h.1 hs)

/-- Whatever is answered, if the program ends with a value, then so that `Q` holds. -/
def Yields (effect : S → Event R → S) (Q : S → α → Prop) (p : Program C R ε α) (s : S) : Prop :=
  Ensures effect (fun s r => ∀ a, r = .ok a → Q s a) p s

section Yields

variable {Q Q' : S → α → Prop}

theorem yields_done {a : α} : Yields effect Q (done a : Program C R ε α) s ↔ Q s a := by
  constructor
  · exact fun h => h a rfl
  · rintro h b hb
    injection hb with hb
    exact hb ▸ h

theorem yields_fail {e : ε} : Yields effect Q (fail e) s := fun _ h => nomatch h

theorem yields_bind {p : Program C R ε α} {f : α → Program C R ε β} {Q : S → β → Prop} :
    Yields effect Q (p >>= f) s ↔ Yields effect (fun s a => Yields effect Q (f a) s) p s := by
  rw [Yields,ensures_bind]
  constructor
  · refine fun h => Ensures.mono h ?_
    rintro s r hr a rfl
    exact hr
  · refine fun h => Ensures.mono h ?_
    rintro s (e | a) hr
    · exact fun _ he => nomatch he
    · exact hr a rfl

theorem yields_perform_bind {c : C} {f : R c → Program C R ε β} {Q : S → β → Prop} :
    Yields effect Q (perform c >>= f) s ↔ ∀ r, Yields effect Q (f r) (effect s ⟨c,r⟩) := Iff.rfl

theorem yields_caught {p : Program C R ε α} {Q : S → Except ε α → Prop} :
    Yields effect Q (caught p : Program C R ε' (Except ε α)) s ↔ Ensures effect Q p s := by
  rw [Yields,ensures_caught]
  constructor
  · exact fun h => Ensures.mono h fun s r hr => hr r rfl
  · refine fun h => Ensures.mono h ?_
    rintro s r hr a ha
    injection ha with ha
    exact ha ▸ hr

theorem yields_ofExcept {r : Except ε α} (h : ∀ a, r = .ok a → Q s a) :
    Yields effect Q (ofExcept r) s := by
  cases r with
  | ok a => exact yields_done.mpr (h a rfl)
  | error e => exact yields_fail

theorem Yields.mono {p : Program C R ε α} (h : Yields effect Q p s) (hQ : ∀ s a, Q s a → Q' s a) :
    Yields effect Q' p s :=
  Ensures.mono h fun s _ hr a ha => hQ s a (hr a ha)

end Yields

/-- What is ensured holds at the end of every run. -/
theorem ensures_iff {p : Program C R ε α} :
    Ensures effect Q p s ↔ ∀ history r, Ends p history r → Q (history.foldl effect s) r := by
  induction p generalizing s with
  | done a =>
    constructor
    · rintro h history r hend
      obtain ⟨rfl,rfl⟩ := ends_done.mp hend
      exact h
    · exact fun h => h [] _ (ends_done.mpr ⟨rfl,rfl⟩)
  | fail e =>
    constructor
    · rintro h history r hend
      obtain ⟨rfl,rfl⟩ := ends_fail.mp hend
      exact h
    · exact fun h => h [] _ (ends_fail.mpr ⟨rfl,rfl⟩)
  | call c next ih =>
    constructor
    · rintro h history r hend
      obtain ⟨a,rest,rfl,hrest⟩ := ends_call.mp hend
      exact (ih a).mp (h a) rest r hrest
    · intro h a
      exact (ih a).mpr fun rest r hrest => h (⟨c,a⟩::rest) r (ends_call.mpr ⟨a,rest,rfl,hrest⟩)

theorem Yields.ends {Q : S → α → Prop} {p : Program C R ε α} {history : List (Event R)} {a : α}
    (h : Yields effect Q p s) (hend : Ends p history (.ok a)) : Q (history.foldl effect s) a :=
  ensures_iff.mp h history _ hend a rfl

end Effects

section Results

variable {P : Except ε α → Prop}

/-- However the program ends, its result has the property. -/
def Results (P : Except ε α → Prop) : Program C R ε α → Prop
  | done a => P (.ok a)
  | fail e => P (.error e)
  | call _ next => ∀ r, Results P (next r)

theorem results_perform_bind {c : C} {f : R c → Program C R ε α} :
    Results P (perform c >>= f) ↔ ∀ r, Results P (f r) := Iff.rfl

/-- What is ensured of the result alone is a property of every result. -/
theorem Ensures.results {effect : S → Event R → S} {Q : S → Except ε α → Prop}
    {p : Program C R ε α} {s : S} (h : Ensures effect Q p s) (hQ : ∀ s r, Q s r → P r) :
    Results P p := by
  induction p generalizing s with
  | done a => exact hQ _ _ h
  | fail e => exact hQ _ _ h
  | call c next ih => exact fun r => ih r (h r)

theorem Results.ends {p : Program C R ε α} {history : List (Event R)} {r : Except ε α}
    (h : Results P p) (hend : Ends p history r) : P r := by
  induction p generalizing history with
  | done a => exact (ends_done.mp hend).2 ▸ h
  | fail e => exact (ends_fail.mp hend).2 ▸ h
  | call c next ih =>
    obtain ⟨a,rest,rfl,hrest⟩ := ends_call.mp hend
    exact ih a (h a) hrest

end Results

section Answers

variable (answer : S → (c : C) → S × R c)

/-- The run in which a stateful environment answers. -/
def run : Program C R ε α → S → S × Except ε α
  | done a,s => (s,.ok a)
  | fail e,s => (s,.error e)
  | call c next,s => run (next (answer s c).2) (answer s c).1

def history : Program C R ε α → S → List (Event R)
  | done _,_ => []
  | fail _,_ => []
  | call c next,s => ⟨c,(answer s c).2⟩::history (next (answer s c).2) (answer s c).1

/-- What follows a value; a failure is passed on. -/
def goOn (x : S × Except ε α) (f : α → S → S × Except ε β) : S × Except ε β :=
  match x.2 with
  | .ok a => f a x.1
  | .error e => (x.1,.error e)

theorem run_bind (p : Program C R ε α) (f : α → Program C R ε β) (s : S) :
    run answer (p >>= f) s = goOn (run answer p s) fun a s => run answer (f a) s := by
  induction p generalizing s with
  | done a => rfl
  | fail e => rfl
  | call c next ih => exact ih _ _

/-- What follows a value makes its calls after it. -/
theorem history_bind (p : Program C R ε α) (f : α → Program C R ε β) (s : S) :
    history answer (p >>= f) s = history answer p s++
      match (run answer p s).2 with
      | .ok a => history answer (f a) (run answer p s).1
      | .error _ => [] := by
  induction p generalizing s with
  | done a => rfl
  | fail e => rfl
  | call c next ih => exact congrArg (_::·) (ih _ _)

theorem ends_run (p : Program C R ε α) (s : S) : Ends p (history answer p s) (run answer p s).2 := by
  induction p generalizing s with
  | done a => exact ends_done.mpr ⟨rfl,rfl⟩
  | fail e => exact ends_fail.mpr ⟨rfl,rfl⟩
  | call c next ih => exact .call (ih _ _)

end Answers

end Program

end Programs
end RemotePkgInstaller
