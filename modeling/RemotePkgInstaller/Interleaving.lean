import Mathlib.Data.Nat.Notation
import Mathlib.Logic.Function.Basic

/-! Processes that share a state and take turns.  Each has a local state of its own,
one step reads and writes the shared state and the local state of the process that
takes it, and a schedule is the list of processes in the order of their steps. -/
namespace RemotePkgInstaller
namespace Interleaving

variable {ι S L : Type} [DecidableEq ι]

/-- The shared state and the local states. -/
structure Global (ι S L : Type) where
  shared : S
  locals : ι → L

/-- One step of process `i`. -/
def act (step : ι → S → L → S × L) (i : ι) (g : Global ι S L) : Global ι S L :=
  ⟨(step i g.shared (g.locals i)).1,
    Function.update g.locals i (step i g.shared (g.locals i)).2⟩

def run (step : ι → S → L → S × L) : List ι → Global ι S L → Global ι S L
  | [],g => g
  | i::schedule,g => run step schedule (act step i g)

/-- Every step of the schedule is taken in a state that allows it. -/
def Allowed (step : ι → S → L → S × L) (P : ι → Global ι S L → Prop) :
    List ι → Global ι S L → Prop
  | [],_ => True
  | i::schedule,g => P i g ∧ Allowed step P schedule (act step i g)

variable {step : ι → S → L → S × L} {P : ι → Global ι S L → Prop} {g : Global ι S L}

instance decidableAllowed [∀ i g, Decidable (P i g)] :
    (schedule : List ι) → (g : Global ι S L) → Decidable (Allowed step P schedule g)
  | [],_ => inferInstanceAs (Decidable True)
  | i::schedule,g =>
    have := decidableAllowed schedule (act step i g)
    inferInstanceAs (Decidable (P i g ∧ Allowed step P schedule (act step i g)))

@[simp] theorem act_locals_self (i : ι) :
    (act step i g).locals i = (step i g.shared (g.locals i)).2 := by simp [act]

@[simp] theorem act_locals_of_ne {i j : ι} (h : j ≠ i) : (act step i g).locals j = g.locals j := by
  simp [act,h]

theorem allowed_of_forall (h : ∀ i g, P i g) (schedule : List ι) (g : Global ι S L) :
    Allowed step P schedule g := by
  induction schedule generalizing g with
  | nil => trivial
  | cons i schedule ih => exact ⟨h i g,ih _⟩

theorem Allowed.and {Q : ι → Global ι S L → Prop} {schedule : List ι}
    (hP : Allowed step P schedule g) (hQ : Allowed step Q schedule g) :
    Allowed step (fun i g => P i g ∧ Q i g) schedule g := by
  induction schedule generalizing g with
  | nil => trivial
  | cons i schedule ih => exact ⟨⟨hP.1,hQ.1⟩,ih hP.2 hQ.2⟩

/-- What every allowed step keeps, an allowed run keeps. -/
theorem run_invariant {Inv : Global ι S L → Prop}
    (hstep : ∀ i g, Inv g → P i g → Inv (act step i g)) {schedule : List ι}
    (h : Allowed step P schedule g) (hg : Inv g) : Inv (run step schedule g) := by
  induction schedule generalizing g with
  | nil => exact hg
  | cons i schedule ih => exact ih h.2 (hstep i g hg h.1)

/-- Processes that keep their own assertion, and that of every other process, keep all. -/
theorem run_assertions {A : ι → S → L → Prop}
    (hown : ∀ i g, (∀ j, A j g.shared (g.locals j)) → P i g →
      A i (act step i g).shared ((act step i g).locals i))
    (hother : ∀ i j g, j ≠ i → (∀ j, A j g.shared (g.locals j)) → P i g →
      A j (act step i g).shared (g.locals j))
    {schedule : List ι} (h : Allowed step P schedule g)
    (hg : ∀ i, A i g.shared (g.locals i)) :
    ∀ i, A i (run step schedule g).shared ((run step schedule g).locals i) := by
  have hstep : ∀ i g, (∀ j, A j g.shared (g.locals j)) → P i g →
      ∀ j, A j (act step i g).shared ((act step i g).locals j) := by
    intro i g hA hP j
    by_cases hj : j = i
    · exact hj ▸ hown i g hA hP
    · rw [act_locals_of_ne hj]
      exact hother i j g hj hA hP
  exact run_invariant hstep h hg

/-- A process that moves up with each of its steps has moved up as often as it stepped. -/
theorem run_progress {rank : L → ℕ} {top : ℕ}
    (hrank : ∀ i s l, min (rank l+1) top ≤ rank (step i s l).2) (schedule : List ι)
    (g : Global ι S L) (i : ι) :
    min (rank (g.locals i)+schedule.count i) top ≤ rank ((run step schedule g).locals i) := by
  induction schedule generalizing g with
  | nil => exact Nat.min_le_left _ _
  | cons j schedule ih =>
    have hrest := ih (act step j g)
    rw [run]
    by_cases hj : i = j
    · subst hj
      have hone := hrank i g.shared (g.locals i)
      rw [act_locals_self] at hrest
      rw [List.count_cons_self]
      omega
    · rw [act_locals_of_ne hj] at hrest
      rwa [List.count_cons_of_ne (Ne.symm hj)]

end Interleaving
end RemotePkgInstaller
