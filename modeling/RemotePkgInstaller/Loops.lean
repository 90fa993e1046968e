import Mathlib.Data.Nat.Notation

/-! Loops by their rounds.  A round may depend on its number; the loop ends at the first round
that gives nothing. -/
namespace RemotePkgInstaller
namespace Loops

variable {σ : Type} {round : ℕ → σ → Option σ} {k : ℕ} {s t t' : σ}

/-- From round `k` on the loop comes from the first state to an end in the second. -/
inductive Ends (round : ℕ → σ → Option σ) : ℕ → σ → σ → Prop
  | stop {k : ℕ} {s : σ} (h : round k s = none) : Ends round k s s
  | more {k : ℕ} {s s' t : σ} (h : round k s = some s') (hrest : Ends round (k+1) s' t) :
      Ends round k s t

theorem Ends.unique (h : Ends round k s t) (h' : Ends round k s t') : t' = t := by
  induction h with
  | stop hnone =>
    cases h' with
    | stop => rfl
    | more hsome => cases hnone.symm.trans hsome
  | more hsome _ ih =>
    cases h' with
    | stop hnone => cases hnone.symm.trans hsome
    | more hsome' hrest =>
      cases hsome.symm.trans hsome'
      exact ih hrest

theorem Ends.stopped (h : Ends round k s t) : ∃ k, round k t = none := by
  induction h with
  | stop hnone => exact ⟨_,hnone⟩
  | more _ _ ih => exact ih

/-- What every round keeps holds in the end. -/
theorem Ends.invariant {Inv : σ → Prop}
    (hround : ∀ k s s', Inv s → round k s = some s' → Inv s') (h : Ends round k s t)
    (hs : Inv s) : Inv t := by
  induction h with
  | stop => exact hs
  | more hsome _ ih => exact ih (hround _ _ _ hs hsome)

/-- A loop ends if something gets smaller in every round. -/
theorem ends_of_decreasing (measure : σ → ℕ)
    (hround : ∀ k s s', round k s = some s' → measure s' < measure s) (k : ℕ) (s : σ) :
    ∃ t, Ends round k s t := by
  induction hm : measure s using Nat.strongRecOn generalizing k s with
  | ind m ih =>
    cases hs : round k s with
    | none => exact ⟨s,.stop hs⟩
    | some s' =>
      obtain ⟨t,ht⟩ := ih (measure s') (hm ▸ hround k s s' hs) (k+1) s' rfl
      exact ⟨t,.more hs ht⟩

/-- A loop ends if nothing grows in a round, and there is always a round to come in which it gets
smaller. -/
theorem ends_of_fair (measure : σ → ℕ)
    (hround : ∀ k s s', round k s = some s' → measure s' ≤ measure s)
    (hfair : ∀ k, ∃ j, ∀ s s', round (k+j) s = some s' → measure s' < measure s) (k : ℕ) (s : σ) :
    ∃ t, Ends round k s t := by
  induction hm : measure s using Nat.strongRecOn generalizing k s with
  | ind m ih =>
    obtain ⟨j,hj⟩ := hfair k
    -- on the way to that round, whatever gets smaller earlier is just as good
    induction j generalizing k s with
    | zero =>
      cases hs : round k s with
      | none => exact ⟨s,.stop hs⟩
      | some s' =>
        obtain ⟨t,ht⟩ := ih (measure s') (hm ▸ hj s s' hs) (k+1) s' rfl
        exact ⟨t,.more hs ht⟩
    | succ j ihj =>
      cases hs : round k s with
      | none => exact ⟨s,.stop hs⟩
      | some s' =>
        rcases Nat.lt_or_eq_of_le (hm ▸ hround k s s' hs) with hlt | heq
        · obtain ⟨t,ht⟩ := ih (measure s') hlt (k+1) s' rfl
          exact ⟨t,.more hs ht⟩
        · obtain ⟨t,ht⟩ := ihj (k+1) s' heq fun s s' hs =>
            hj s s' (by rwa [Nat.add_right_comm,Nat.add_assoc] at hs)
          exact ⟨t,.more hs ht⟩

/-- The state after some rounds; the loop may have ended before. -/
def after (round : ℕ → σ → Option σ) : ℕ → ℕ → σ → σ
  | 0,_,s => s
  | n+1,k,s =>
    match round k s with
    | none => s
    | some s' => after round n (k+1) s'

theorem after_invariant {Inv : σ → Prop}
    (hround : ∀ k s s', Inv s → round k s = some s' → Inv s') (n k : ℕ) (hs : Inv s) :
    Inv (after round n k s) := by
  induction n generalizing k s with
  | zero => exact hs
  | succ n ih =>
    rw [after]
    split
    · exact hs
    · next s' hsome => exact ih (k+1) (hround _ _ _ hs hsome)

/-- When it has ended, it stays where it is. -/
theorem Ends.after (h : Ends round k s t) : ∃ m, ∀ n, m ≤ n → Loops.after round n k s = t := by
  induction h with
  | stop hnone =>
    refine ⟨0,fun n _ => ?_⟩
    cases n with
    | zero => rfl
    | succ n => rw [Loops.after,hnone]
  | more hsome _ ih =>
    obtain ⟨m,hm⟩ := ih
    refine ⟨m+1,fun n hn => ?_⟩
    obtain ⟨n,rfl⟩ := Nat.exists_eq_add_one.mpr (Nat.zero_lt_of_lt hn)
    rw [Loops.after,hsome]
    exact hm n (Nat.le_of_succ_le_succ hn)

end Loops
end RemotePkgInstaller
