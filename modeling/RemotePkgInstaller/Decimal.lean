import RemotePkgInstaller.ByteString
import Mathlib.Data.Nat.Digits.Defs

/-! Decimal numerals: their values, the accumulating reader behind `atoll`, and
the comparison of numerals of one length as strings. -/
namespace RemotePkgInstaller
namespace Decimal

def isdigit (c : UInt8) : Bool := 0x30 ≤ c && c ≤ 0x39

def digit (c : UInt8) : ℕ := c.toNat-0x30

theorem digit_lt {c : UInt8} (h : isdigit c = true) : digit c < 10 := by
  simp only [isdigit,Bool.and_eq_true,decide_eq_true_eq,UInt8.le_iff_toNat_le] at h
  have h2 : (0x39 : UInt8).toNat = 0x39 := rfl
  unfold digit
  omega

theorem toNat_eq_digit {c : UInt8} (h : isdigit c = true) : c.toNat = 0x30+digit c := by
  simp only [isdigit,Bool.and_eq_true,decide_eq_true_eq,UInt8.le_iff_toNat_le] at h
  have h1 : (0x30 : UInt8).toNat = 0x30 := rfl
  unfold digit
  omega

/-- The number that decimal digits spell, most significant digit first. -/
def value (ds : Bytes) : ℕ := Nat.ofDigits 10 (ds.reverse.map digit)

@[simp] theorem value_nil : value [] = 0 := rfl

theorem value_append_singleton (ds : Bytes) (c : UInt8) :
    value (ds++[c]) = 10*value ds+digit c := by
  simp [value,Nat.ofDigits_cons,Nat.add_comm]

theorem value_cons (c : UInt8) (ds : Bytes) :
    value (c::ds) = digit c*10^ds.length+value ds := by
  simp [value,Nat.ofDigits_append,Nat.add_comm,Nat.mul_comm]

theorem value_lt {ds : Bytes} (h : ∀ c ∈ ds, isdigit c = true) : value ds < 10^ds.length := by
  have hd := Nat.ofDigits_lt_base_pow_length (b := 10) (l := ds.reverse.map digit) (by norm_num)
    (by
      intro x hx
      obtain ⟨c,hc,rfl⟩ := List.mem_map.mp hx
      exact digit_lt (h c (by simpa using hc)))
  simpa [value] using hd

/-- The reader's loop: consume digits, carrying the number read so far. -/
def readDigits (acc : ℕ) : Bytes → ℕ
  | [] => acc
  | c::s => if isdigit c then readDigits (10*acc+digit c) s else acc

theorem readDigits_eq {ds : Bytes} (h : ∀ c ∈ ds, isdigit c = true) (acc : ℕ) :
    readDigits acc ds = acc*10^ds.length+value ds := by
  induction ds generalizing acc with
  | nil => simp [readDigits]
  | cons c ds ih =>
    have hc := h c (by simp)
    rw [readDigits,if_pos hc,ih (fun d hd => h d (by simp [hd])),value_cons,List.length_cons]
    ring

/-- `atoll` on a numeral without leading blanks. -/
def atoll (s : Bytes) : ℤ :=
  match s with
  | 0x2d::ds => -(readDigits 0 ds : ℤ)
  | 0x2b::ds => readDigits 0 ds
  | ds => readDigits 0 ds

/-- The integer that an optional minus sign and digits spell. -/
def integer (s : Bytes) : ℤ :=
  match s with
  | 0x2d::ds => -(value ds : ℤ)
  | ds => value ds

/-- A minus sign, if any, and one or more digits. -/
def IsInteger (s : Bytes) : Prop :=
  ∃ ds : Bytes, ds ≠ [] ∧ (∀ c ∈ ds, isdigit c = true) ∧ (s = ds ∨ s = 0x2d::ds)

theorem head_ne_of_isdigit {c d : UInt8} (h : isdigit c = true) (hd : isdigit d = false) :
    c ≠ d := by
  rintro rfl
  simp [h] at hd

theorem atoll_eq_integer {s : Bytes} (h : IsInteger s) : atoll s = integer s := by
  obtain ⟨ds,hne,hd,rfl | rfl⟩ := h
  · cases s with
    | nil => exact absurd rfl hne
    | cons c ds =>
      have hc := hd c (by simp)
      have h1 := head_ne_of_isdigit hc (show isdigit 0x2d = false by decide)
      have h2 := head_ne_of_isdigit hc (show isdigit 0x2b = false by decide)
      have hr := readDigits_eq hd 0
      simp only [Nat.zero_mul,Nat.zero_add] at hr
      simp [atoll,integer,h1,h2,hr]
  · have hr := readDigits_eq hd 0
    simp only [Nat.zero_mul,Nat.zero_add] at hr
    simp [atoll,integer,hr]

/-- Numerals of one length are ordered as strings are. -/
theorem value_le_of_not_lt {ds es : Bytes} (hlen : ds.length = es.length)
    (hd : ∀ c ∈ ds, isdigit c = true) (he : ∀ c ∈ es, isdigit c = true) (h : ¬ ds < es) :
    value es ≤ value ds := by
  induction ds generalizing es with
  | nil =>
    have : es = [] := List.length_eq_zero_iff.mp hlen.symm
    simp [this]
  | cons c ds ih =>
    cases es with
    | nil => simp at hlen
    | cons e es =>
      simp only [List.length_cons,Nat.add_right_cancel_iff] at hlen
      simp only [List.cons_lt_cons_iff,not_or,not_and] at h
      have hc := toNat_eq_digit (hd c (by simp))
      have hE := toNat_eq_digit (he e (by simp))
      have ht : value es < 10^es.length := value_lt fun d hd' => he d (by simp [hd'])
      rw [value_cons,value_cons,hlen]
      by_cases hce : c = e
      · subst hce
        have := ih hlen (fun d hd' => hd d (by simp [hd'])) (fun d hd' => he d (by simp [hd']))
          (h.2 rfl)
        omega
      · have hlt : e.toNat < c.toNat := by
          have h1 : ¬ c.toNat < e.toNat := by simpa [UInt8.lt_iff_toNat_lt] using h.1
          have h2 : c.toNat ≠ e.toNat := fun hh => hce (UInt8.toNat_inj.mp hh)
          omega
        have hdig : digit e+1 ≤ digit c := by omega
        have hmul := Nat.mul_le_mul_right (10^es.length) hdig
        rw [Nat.add_mul,Nat.one_mul] at hmul
        omega

/-- The decimal text of a number, as `printf` writes it. -/
def text (n : ℕ) : Bytes := (Nat.toDigits 10 n).map fun c => UInt8.ofNat c.toNat

theorem digit_digitChar : ∀ d < 10, digit (UInt8.ofNat (Nat.digitChar d).toNat) = d := by decide

theorem isdigit_digitChar : ∀ d < 10, isdigit (UInt8.ofNat (Nat.digitChar d).toNat) = true := by
  decide

theorem text_of_lt {n : ℕ} (hn : n < 10) : text n = [UInt8.ofNat (Nat.digitChar n).toNat] := by
  rw [text,Nat.toDigits_of_lt_base hn]
  rfl

theorem text_of_le {n : ℕ} (hn : 10 ≤ n) :
    text n = text (n/10)++[UInt8.ofNat (Nat.digitChar (n%10)).toNat] := by
  rw [text,Nat.toDigits_of_base_le (by norm_num) hn,List.map_append]
  rfl

theorem text_isdigit (n : ℕ) : ∀ c ∈ text n, isdigit c = true := by
  induction n using Nat.strongRecOn with
  | ind n ih =>
    by_cases hn : n < 10
    · rw [text_of_lt hn]
      simpa using isdigit_digitChar n hn
    · rw [text_of_le (not_lt.mp hn)]
      intro c hc
      rcases List.mem_append.mp hc with hc | hc
      · exact ih (n/10) (by omega) c hc
      · rw [List.mem_singleton.mp hc]
        exact isdigit_digitChar _ (Nat.mod_lt n (by norm_num))

/-- The text of a number spells it. -/
theorem value_text (n : ℕ) : value (text n) = n := by
  induction n using Nat.strongRecOn with
  | ind n ih =>
    by_cases hn : n < 10
    · rw [text_of_lt hn,value_cons,digit_digitChar n hn]
      simp
    · rw [text_of_le (not_lt.mp hn),value_append_singleton,ih (n/10) (by omega),
        digit_digitChar _ (Nat.mod_lt n (by norm_num))]
      omega

theorem text_ne_nil (n : ℕ) : text n ≠ [] := by
  simp [text,Nat.toDigits_ne_nil]

theorem text_zero : text 0 = [0x30] := by decide

/-- Only zero is written with a leading zero. -/
theorem text_head_ne_zero {n : ℕ} (hn : n ≠ 0) (rest : Bytes) :
    (text n++rest).head? ≠ some 0x30 := by
  induction n using Nat.strongRecOn generalizing rest with
  | ind n ih =>
    by_cases hlt : n < 10
    · have hall : ∀ d < 10, d ≠ 0 → UInt8.ofNat (Nat.digitChar d).toNat ≠ 0x30 := by decide
      rw [text_of_lt hlt]
      simpa using hall n hlt hn
    · rw [text_of_le (not_lt.mp hlt),List.append_assoc]
      exact ih (n/10) (by omega) (by omega) _

theorem text_cons (n : ℕ) : ∃ c ds, text n = c::ds ∧ isdigit c = true ∧
    ∀ d ∈ ds, isdigit d = true := by
  obtain ⟨c,ds,hcons⟩ := List.exists_cons_of_ne_nil (text_ne_nil n)
  have hdigits := text_isdigit n
  rw [hcons] at hdigits
  exact ⟨c,ds,hcons,hdigits c List.mem_cons_self,fun d hd => hdigits d (List.mem_cons_of_mem _ hd)⟩

theorem text_length_le {n k : ℕ} (hk : 0 < k) (hn : n < 10^k) : (text n).length ≤ k := by
  rw [text,List.length_map]
  exact Nat.toDigits_length 10 n k hk hn

end Decimal
end RemotePkgInstaller
