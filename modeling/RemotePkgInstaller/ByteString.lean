import Mathlib.Data.List.TakeWhile
import Mathlib.Logic.Function.Basic
import Mathlib.Tactic.Ring
import Mathlib.Tactic.Linarith

/-! Byte strings, NUL-terminated strings and the numbers stored in them.
A C string is the list of its bytes without the terminator; a pointer into a
string is the suffix that starts there. -/
namespace RemotePkgInstaller

abbrev Bytes := List UInt8

/-- The bytes of an ASCII literal. -/
def bytes (s : String) : Bytes := s.toList.map fun c => UInt8.ofNat c.toNat

/-- What a C string function reads of a buffer: everything before the first NUL. -/
def cstr (b : Bytes) : Bytes := b.takeWhile (· ≠ 0)

/-- The string left in a buffer of `size` bytes by `strlcpy`. -/
def strlcpy (src : Bytes) (size : ℕ) : Bytes := src.take (size-1)

/-- The `n` bytes from index `i` on, clipped to the string. -/
def window (b : Bytes) (i n : ℕ) : Bytes := (b.drop i).take n

theorem cstr_eq_self {b : Bytes} (h : ∀ c ∈ b, c ≠ 0) : cstr b = b :=
  List.takeWhile_eq_self_iff.mpr (by simpa using h)

theorem cstr_ne_zero {b : Bytes} {c : UInt8} (h : c ∈ cstr b) : c ≠ 0 := by
  simpa using List.mem_takeWhile_imp h

/-- A terminator ends the string, whatever follows it. -/
theorem cstr_append_zero {s : Bytes} (hs : (0 : UInt8) ∉ s) (rest : Bytes) :
    cstr (s++0::rest) = s := by
  have hnonzero : ∀ c ∈ s, decide (c ≠ 0) = true := by
    intro c hc
    exact decide_eq_true fun h0 => hs (h0 ▸ hc)
  rw [cstr,List.takeWhile_append_of_pos hnonzero]
  simp

theorem strlcpy_length (src : Bytes) (size : ℕ) :
    (strlcpy src size).length = min (size-1) src.length := by
  simp [strlcpy]

theorem strlcpy_eq_self {src : Bytes} {size : ℕ} (h : src.length < size) :
    strlcpy src size = src :=
  List.take_of_length_le (by omega)

theorem mem_of_mem_strlcpy {src : Bytes} {size : ℕ} {c : UInt8} (h : c ∈ strlcpy src size) :
    c ∈ src := List.mem_of_mem_take h

@[simp] theorem window_length (b : Bytes) (i n : ℕ) :
    (window b i n).length = min n (b.length-i) := by
  simp [window]

theorem window_take (b : Bytes) (i n m : ℕ) :
    (window b i n).take m = window b i (min m n) := by
  simp [window,List.take_take]

theorem window_zero_left (b : Bytes) (n : ℕ) : window b 0 n = b.take n := by
  simp [window]

/-- The number stored in little-endian bytes. -/
def le : Bytes → ℕ
  | [] => 0
  | b::bs => b.toNat+256*le bs

/-- The number stored in big-endian bytes. -/
def be (bs : Bytes) : ℕ := le bs.reverse

theorem le_lt (bs : Bytes) : le bs < 256^bs.length := by
  induction bs with
  | nil => simp [le]
  | cons b bs ih =>
    have hb := b.toNat_lt
    simp only [le,List.length_cons,pow_succ]
    omega

theorem be_lt (bs : Bytes) : be bs < 256^bs.length := by
  simpa [be] using le_lt bs.reverse

end RemotePkgInstaller
