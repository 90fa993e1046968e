import Mathlib.Algebra.GroupWithZero.Nat
import Mathlib.Algebra.Order.BigOperators.Group.List
import Mathlib.Data.Nat.Notation
import Mathlib.Tactic.Common

/-! Running sums of 64-bit numbers.  Each item of a sequence starts where the one before it
ends, and both the starts and the end are exact as long as the sums stay below 2^64. -/
namespace RemotePkgInstaller
namespace WrappingSums

/-- The end of the items, the first of which starts at `start`. -/
def finish (start : UInt64) (sizes : List UInt64) : UInt64 := sizes.foldl (·+·) start

/-- Where the items start. -/
def starts : UInt64 → List UInt64 → List UInt64
  | _,[] => []
  | start,size::sizes => start::starts (start+size) sizes

/-- The sum that does not wrap. -/
def exactSum (sizes : List UInt64) : ℕ := (sizes.map UInt64.toNat).sum

@[simp] theorem exactSum_nil : exactSum [] = 0 := rfl

@[simp] theorem exactSum_cons (size : UInt64) (sizes : List UInt64) :
    exactSum (size::sizes) = size.toNat+exactSum sizes := rfl

@[simp] theorem exactSum_append (sizes sizes' : List UInt64) :
    exactSum (sizes++sizes') = exactSum sizes+exactSum sizes' := by
  simp [exactSum]

theorem finish_cons (start size : UInt64) (sizes : List UInt64) :
    finish start (size::sizes) = finish (start+size) sizes := rfl

theorem finish_toNat (start : UInt64) (sizes : List UInt64) :
    (finish start sizes).toNat = (start.toNat+exactSum sizes)%2^64 := by
  induction sizes generalizing start with
  | nil => exact (Nat.mod_eq_of_lt start.toNat_lt).symm
  | cons size sizes ih =>
    rw [finish_cons,ih,UInt64.toNat_add,exactSum_cons,Nat.mod_add_mod,Nat.add_assoc]

@[simp] theorem starts_length (start : UInt64) (sizes : List UInt64) :
    (starts start sizes).length = sizes.length := by
  induction sizes generalizing start with
  | nil => rfl
  | cons size sizes ih => simp [starts,ih]

/-- An item starts at the end of those before it. -/
theorem starts_getElem? (start : UInt64) {sizes : List UInt64} {i : ℕ} (hi : i < sizes.length) :
    (starts start sizes)[i]? = some (finish start (sizes.take i)) := by
  induction sizes generalizing start i with
  | nil => exact absurd hi (Nat.not_lt_zero i)
  | cons size sizes ih =>
    cases i with
    | zero => rfl
    | succ i => exact ih (start+size) (by simpa using hi)

theorem exactSum_take_le (sizes : List UInt64) (i : ℕ) : exactSum (sizes.take i) ≤ exactSum sizes := by
  have hsplit := exactSum_append (sizes.take i) (sizes.drop i)
  rw [List.take_append_drop] at hsplit
  omega

theorem finish_exact_iff (sizes : List UInt64) :
    (finish 0 sizes).toNat = exactSum sizes ↔ exactSum sizes < 2^64 := by
  rw [finish_toNat,UInt64.toNat_zero,Nat.zero_add]
  exact ⟨fun h => h ▸ Nat.mod_lt _ (by decide),Nat.mod_eq_of_lt⟩

/-- The starts are exact if and only if that of the last item is. -/
theorem starts_exact_iff (sizes : List UInt64) :
    (∀ (i : ℕ) (s : UInt64), (starts 0 sizes)[i]? = some s → s.toNat = exactSum (sizes.take i)) ↔
      exactSum sizes.dropLast < 2^64 := by
  constructor
  · intro h
    rcases Nat.eq_zero_or_pos sizes.length with hlen | hlen
    · rw [List.length_eq_zero_iff.mp hlen]
      decide
    · have hlast := h (sizes.length-1) _ (starts_getElem? 0 (Nat.sub_lt hlen Nat.one_pos))
      rw [← List.dropLast_eq_take] at hlast
      exact (finish_exact_iff _).mp hlast
  · intro h i s hs
    have hi : i < sizes.length := by
      rw [← starts_length 0 sizes]
      exact (List.getElem?_eq_some_iff.mp hs).1
    rw [starts_getElem? 0 hi,Option.some.injEq] at hs
    have hle : exactSum (sizes.take i) ≤ exactSum sizes.dropLast := by
      have htake : sizes.take i = sizes.dropLast.take i := by
        rw [List.dropLast_eq_take,List.take_take,min_eq_left (Nat.le_sub_one_of_lt hi)]
      rw [htake]
      exact exactSum_take_le _ _
    rw [← hs]
    exact (finish_exact_iff _).mpr (hle.trans_lt h)

end WrappingSums
end RemotePkgInstaller
