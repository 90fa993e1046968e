/-! Runs of a system that takes one input after another, and what holds at each of
their steps. -/
namespace RemotePkgInstaller
namespace Runs

variable {S A : Type}

/-- `P` holds of every step of the run, in the state the step is taken in. -/
def Along (step : S → A → S) (P : S → A → Prop) : List A → S → Prop
  | [],_ => True
  | a::as,s => P s a ∧ Along step P as (step s a)

instance decidableAlong {step : S → A → S} {P : S → A → Prop} [∀ s a, Decidable (P s a)] :
    (as : List A) → (s : S) → Decidable (Along step P as s)
  | [],_ => inferInstanceAs (Decidable True)
  | a::as,s =>
    have : Decidable (Along step P as (step s a)) := decidableAlong as (step s a)
    inferInstanceAs (Decidable (P s a ∧ Along step P as (step s a)))

variable {step : S → A → S} {Inv : S → Prop} {P Q : S → A → Prop}

/-- An invariant that allowed steps keep, and from which each of them does what it
should, makes every step of an allowed run do so. -/
theorem along_of_invariant (hkeep : ∀ s a, Inv s → P s a → Inv (step s a))
    (hdo : ∀ s a, Inv s → P s a → Q s a) {as : List A} {s : S} (h : Along step P as s)
    (hs : Inv s) : Along step Q as s := by
  induction as generalizing s with
  | nil => trivial
  | cons a as ih => exact ⟨hdo s a hs h.1,ih h.2 (hkeep s a hs h.1)⟩

/-- An invariant that every step keeps holds in the state each step is taken in. -/
theorem along_invariant (hkeep : ∀ s a, Inv s → Inv (step s a)) {as : List A} {s : S}
    (hs : Inv s) : Along step (fun s _ => Inv s) as s := by
  induction as generalizing s with
  | nil => trivial
  | cons a as ih => exact ⟨hs,ih (hkeep s a hs)⟩

/-- Where a possible step keeps the invariant exactly if it meets a condition, the invariant
holds after every step of a possible run exactly if every step meets the condition. -/
theorem along_iff_of_step {R : S → A → Prop}
    (hstep : ∀ s a, Inv s → R s a → (Inv (step s a) ↔ P s a)) {as : List A} {s : S}
    (h : Along step R as s) (hs : Inv s) :
    Along step (fun s a => Inv (step s a)) as s ↔ Along step P as s := by
  induction as generalizing s with
  | nil => exact Iff.rfl
  | cons a as ih =>
    have ha := hstep s a hs h.1
    constructor
    · rintro ⟨hfirst,hrest⟩
      exact ⟨ha.mp hfirst,(ih h.2 hfirst).mp hrest⟩
    · rintro ⟨hfirst,hrest⟩
      exact ⟨ha.mpr hfirst,(ih h.2 (ha.mpr hfirst)).mpr hrest⟩

end Runs
end RemotePkgInstaller
