import Mathlib.Data.List.Basic
import Mathlib.Tactic.Linarith

/-! The I/O loops of the POSIX and HTTP read and write calls, over an arbitrary
element type.  A call asks for what is left, up to a chunk size, and its result
is an error, zero, or the number of elements moved; the loop goes on until
nothing is left or a call moves nothing.  `results k` is the result of call `k`. -/
namespace RemotePkgInstaller
namespace TransferLoop

variable {α : Type*}

/-- Read up to `left` elements of `rest`, at most `cap` in one call.  The second
component is the error code of the call that failed, or zero. -/
def readLoop (results : ℕ → ℤ) (cap : ℕ) : ℕ → ℕ → ℕ → List α → List α × ℤ
  | 0, _, _, _ => ([],0)
  | fuel+1, k, left, rest =>
    if left = 0 then ([],0)
    else if results k < 0 then ([],results k)
    else
      let n := min (min (results k).toNat (min left cap)) rest.length
      if n = 0 then ([],0)
      else
        let r := readLoop results cap fuel (k+1) (left-n) (rest.drop n)
        (rest.take n ++ r.1,r.2)

/-- Write up to `left` elements; the value is the number accepted. -/
def writeLoop (results : ℕ → ℤ) : ℕ → ℕ → ℕ → ℕ
  | 0, _, _ => 0
  | fuel+1, k, left =>
    if left = 0 then 0
    else if results k ≤ 0 then 0
    else
      let n := min (results k).toNat left
      n + writeLoop results fuel (k+1) (left-n)

theorem readLoop_length_le (results : ℕ → ℤ) (cap fuel k left : ℕ) (rest : List α) :
    (readLoop results cap fuel k left rest).1.length ≤ left := by
  induction fuel generalizing k left rest with
  | zero => simp [readLoop]
  | succ fuel ih =>
    simp only [readLoop]
    split_ifs with h0 hneg hn
    · simp
    · simp
    · simp
    · have hr := ih (k+1) (left - min (min (results k).toNat (min left cap)) rest.length)
        (rest.drop (min (min (results k).toNat (min left cap)) rest.length))
      simp only [List.length_append,List.length_take]
      omega

/-- What a reading loop returns is a prefix of the stream. -/
theorem readLoop_isPrefix (results : ℕ → ℤ) (cap fuel k left : ℕ) (rest : List α) :
    (readLoop results cap fuel k left rest).1 <+: rest := by
  induction fuel generalizing k left rest with
  | zero => simp [readLoop]
  | succ fuel ih =>
    simp only [readLoop]
    split_ifs with h0 hneg hn
    · exact List.nil_prefix
    · exact List.nil_prefix
    · exact List.nil_prefix
    · obtain ⟨t,ht⟩ := ih (k+1) (left - min (min (results k).toNat (min left cap)) rest.length)
        (rest.drop (min (min (results k).toNat (min left cap)) rest.length))
      refine ⟨t,?_⟩
      rw [List.append_assoc,ht,List.take_append_drop]

theorem readLoop_eq_take (results : ℕ → ℤ) (cap fuel k left : ℕ) (rest : List α) :
    (readLoop results cap fuel k left rest).1 =
      rest.take (readLoop results cap fuel k left rest).1.length :=
  List.prefix_iff_eq_take.mp (readLoop_isPrefix results cap fuel k left rest)

/-- A stream whose every call moves something is read in full. -/
theorem readLoop_full (results : ℕ → ℤ) (cap fuel k left : ℕ) (rest : List α)
    (hpos : ∀ i, 0 < results i) (hcap : 0 < cap) (hfuel : left ≤ fuel) :
    readLoop results cap fuel k left rest = (rest.take left,0) := by
  induction fuel generalizing k left rest with
  | zero =>
    have h0 : left = 0 := by omega
    simp [readLoop,h0]
  | succ fuel ih =>
    have hk := hpos k
    simp only [readLoop]
    split_ifs with h0 hneg hn
    · simp [h0]
    · omega
    · have hr : rest = [] := List.length_eq_zero_iff.mp (by omega)
      simp [hr]
    · have hle : min (min (results k).toNat (min left cap)) rest.length ≤ left := by omega
      rw [ih (k+1) _ _ (by omega)]
      dsimp only
      rw [← List.take_add,Nat.add_sub_cancel' hle]

/-- The calls from number `k` on move `left` elements before one of them fails or moves
nothing. -/
inductive Delivers (results : ℕ → ℤ) : ℕ → ℕ → Prop
  | done (k : ℕ) : Delivers results k 0
  | more {k left : ℕ} (hpos : 0 < results k)
      (hrest : Delivers results (k+1) (left-(results k).toNat)) : Delivers results k left

theorem delivers_step (results : ℕ → ℤ) (k : ℕ) {left : ℕ} (hleft : left ≠ 0) :
    Delivers results k left ↔
      0 < results k ∧ Delivers results (k+1) (left-(results k).toNat) := by
  constructor
  · intro h
    cases h with
    | done => exact absurd rfl hleft
    | more hpos hrest => exact ⟨hpos,hrest⟩
  · exact fun h => .more h.1 h.2

/-- A stream is read as far as wanted if and only if the calls deliver that much. -/
theorem readLoop_eq_take_iff (results : ℕ → ℤ) {cap fuel k left : ℕ} {rest : List α}
    (hcap : left ≤ cap) (hfuel : left ≤ fuel) :
    (readLoop results cap fuel k left rest).1 = rest.take left ↔
      Delivers results k (min left rest.length) := by
  induction fuel generalizing k left rest with
  | zero =>
    have h0 : left = 0 := by omega
    subst h0
    simp only [readLoop,List.take_zero,Nat.zero_min,true_iff]
    exact .done k
  | succ fuel ih =>
    by_cases hend : min left rest.length = 0
    · have hnil : rest.take left = [] := List.length_eq_zero_iff.mp (by rw [List.length_take]; exact hend)
      have hloop := (readLoop_isPrefix results cap (fuel+1) k left rest).length_le
      have hleft := readLoop_length_le results cap (fuel+1) k left rest
      rw [hend,hnil,List.eq_nil_iff_length_eq_zero]
      exact iff_of_true (by omega) (.done k)
    · have hne : rest.take left ≠ [] := fun h => hend (by rw [← List.length_take,h,List.length_nil])
      have hleft : left ≠ 0 := by omega
      by_cases hpos : 0 < results k
      · have hn : min (min (results k).toNat (min left cap)) rest.length =
            min (results k).toNat (min left rest.length) := by omega
        have hn0 : min (results k).toNat (min left rest.length) ≠ 0 := by omega
        simp only [readLoop,hleft,if_false,not_lt.mpr hpos.le,hn,hn0]
        have hsplit : rest.take left = rest.take (min (results k).toNat (min left rest.length))++
            (rest.drop (min (results k).toNat (min left rest.length))).take
              (left-min (results k).toNat (min left rest.length)) := by
          rw [← List.take_add]
          congr 1
          omega
        rw [hsplit,List.append_cancel_left_eq,ih (by omega) (by omega),List.length_drop]
        have hmin : min (left-min (results k).toNat (min left rest.length))
            (rest.length-min (results k).toNat (min left rest.length)) =
            min left rest.length-(results k).toNat := by omega
        rw [hmin,delivers_step _ _ hend]
        exact (and_iff_right hpos).symm
      · have hloop : (readLoop results cap (fuel+1) k left rest).1 = [] := by
          simp only [readLoop,hleft,if_false]
          split_ifs with hneg hn
          · rfl
          · rfl
          · omega
        rw [hloop]
        exact iff_of_false (fun h => hne h.symm) fun h => hpos ((delivers_step _ _ hend).mp h).1

/-- All of it is accepted if and only if the calls deliver that much. -/
theorem writeLoop_eq_iff (results : ℕ → ℤ) {fuel k left : ℕ} (hfuel : left ≤ fuel) :
    writeLoop results fuel k left = left ↔ Delivers results k left := by
  induction fuel generalizing k left with
  | zero =>
    obtain rfl : left = 0 := by omega
    exact iff_of_true rfl (.done k)
  | succ fuel ih =>
    by_cases h0 : left = 0
    · subst h0
      exact iff_of_true (by simp [writeLoop]) (.done k)
    rw [delivers_step results k h0,writeLoop,if_neg h0]
    by_cases hneg : results k ≤ 0
    · rw [if_pos hneg]
      exact iff_of_false (Ne.symm h0) fun h => absurd h.1 (by omega)
    · have hsub : left-min (results k).toNat left = left-(results k).toNat := by omega
      have hrest := @ih (k+1) (left-(results k).toNat) (by omega)
      rw [if_neg hneg,and_iff_right (by omega),← hrest]
      simp only [hsub]
      omega

end TransferLoop
end RemotePkgInstaller
