import RemotePkgInstaller.ByteString

/-! Numbers written as little-endian bytes, and the parts of a string that was put together. -/
namespace RemotePkgInstaller

/-- The lowest `k` bytes of a number, the lowest first. -/
def leBytes : ℕ → ℕ → Bytes
  | 0,_ => []
  | k+1,n => UInt8.ofNat n::leBytes k (n/256)

@[simp] theorem leBytes_length (k n : ℕ) : (leBytes k n).length = k := by
  induction k generalizing n with
  | zero => rfl
  | succ k ih => simp [leBytes,ih]

theorem le_leBytes {k n : ℕ} (h : n < 256^k) : le (leBytes k n) = n := by
  induction k generalizing n with
  | zero =>
    rw [pow_zero,Nat.lt_one_iff] at h
    rw [h]
    rfl
  | succ k ih =>
    have hdiv : n/256 < 256^k := by
      rw [Nat.div_lt_iff_lt_mul (by decide)]
      rwa [pow_succ] at h
    have hlow : (UInt8.ofNat n).toNat = n%256 := UInt8.toNat_ofNat'
    rw [leBytes,le,ih hdiv,hlow]
    omega

section Parts

variable {a b c s : Bytes} {i n : ℕ}

/-- A part is found again at its place. -/
theorem window_part (ha : a.length = i) (hb : b.length = n) : window (a++(b++c)) i n = b := by
  rw [window,List.drop_left' ha,List.take_left' hb]

/-- A number that stands between two parts is read. -/
theorem le_window_part {k : ℕ} (ha : a.length = i) (hk : k < 256^n) :
    le (window (a++(leBytes n k++c)) i n) = k := by
  rw [window_part ha (leBytes_length n k),le_leBytes hk]

/-- A place behind the first part is a place in the rest. -/
theorem window_behind (ha : a.length = i) (k : ℕ) : window (a++s) (i+k) n = window s k n := by
  rw [window,← List.drop_drop,List.drop_left' ha,window]

/-- What lies inside the first part is found there. -/
theorem window_before (h : i+n ≤ a.length) : window (a++s) i n = window a i n := by
  rw [window,window,List.drop_append_of_le_length (by omega),
    List.take_append_of_le_length (by rw [List.length_drop]; omega)]

end Parts

end RemotePkgInstaller
