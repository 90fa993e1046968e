import RemotePkgInstaller.ByteString

/-! Programs that look at the bytes of one buffer.  A program's trace is the indices
it examines; looking at an index past the end ends it there. -/
namespace RemotePkgInstaller
namespace BufferAccess

/-- How a program ends: with a value, with a failure of its own, or past the buffer. -/
inductive Outcome (α : Type)
  | ok (a : α)
  | failed
  | fault
  deriving DecidableEq

/-- Go on with the value, if there is one. -/
def Outcome.andThen {α β : Type} (x : Outcome α) (f : α → Outcome β) : Outcome β :=
  match x with
  | .ok a => f a
  | .failed => .failed
  | .fault => .fault

structure Access (α : Type) where
  examined : List ℕ
  outcome : Outcome α
  deriving DecidableEq

namespace Access

variable {α β : Type}

def fail : Access α := ⟨[],.failed⟩

/-- Go on with the value, unless there is none. -/
def andThen (x : Access α) (f : α → Access β) : Access β :=
  match x.outcome with
  | .ok a => ⟨x.examined++(f a).examined,(f a).outcome⟩
  | .failed => ⟨x.examined,.failed⟩
  | .fault => ⟨x.examined,.fault⟩

instance : Monad Access where
  pure := fun a => ⟨[],.ok a⟩
  bind := andThen

/-- A failure of the program's own becomes an answer; past the buffer there is none. -/
def attempt (x : Access α) : Access (Option α) :=
  match x.outcome with
  | .ok a => ⟨x.examined,.ok (some a)⟩
  | .failed => ⟨x.examined,.ok none⟩
  | .fault => ⟨x.examined,.fault⟩

/-- Examine the bytes from `i` on, up to the first index past the end. -/
def readBytes (buf : Bytes) (i n : ℕ) : Access Bytes :=
  if i+n ≤ buf.length ∨ n = 0 then ⟨List.range' i n,.ok (window buf i n)⟩
  else ⟨List.range' i (buf.length-i+1),.fault⟩

/-- Examine the bytes from `i` on, up to the first NUL. -/
def readString (buf : Bytes) (i : ℕ) : Access Bytes :=
  if 0 ∈ buf.drop i then ⟨List.range' i ((cstr (buf.drop i)).length+1),.ok (cstr (buf.drop i))⟩
  else ⟨List.range' i (buf.length-i+1),.fault⟩

/-- Every index examined lies below `n`. -/
def Inside (n : ℕ) (x : Access α) : Prop := ∀ i ∈ x.examined, i < n

@[simp] theorem inside_pure (n : ℕ) (a : α) : Inside n (Pure.pure a : Access α) := by
  intro i hi
  cases hi

@[simp] theorem inside_fail (n : ℕ) : Inside n (fail : Access α) := by
  intro i hi
  cases hi

theorem outcome_pure (a : α) : (Pure.pure a : Access α).outcome = .ok a := rfl

theorem bind_outcome (x : Access α) (f : α → Access β) :
    (x >>= f).outcome = x.outcome.andThen fun a => (f a).outcome := by
  change (Access.andThen x f).outcome = _
  unfold Access.andThen Outcome.andThen
  split <;> rfl

theorem outcome_andThen_assoc {γ : Type} (x : Outcome α) (f : α → Outcome β) (g : β → Outcome γ) :
    (x.andThen f).andThen g = x.andThen fun a => (f a).andThen g := by
  cases x <;> rfl

/-- How a program ends that answers a failure of its part. -/
theorem attempt_bind_outcome (x : Access α) (f : Option α → Access β) :
    (attempt x >>= f).outcome =
      match x.outcome with
      | .ok a => (f (some a)).outcome
      | .failed => (f none).outcome
      | .fault => .fault := by
  rw [bind_outcome,attempt]
  cases x.outcome <;> rfl

theorem bind_examined_of_ok {x : Access α} {a : α} (h : x.outcome = .ok a) (f : α → Access β) :
    (x >>= f).examined = x.examined++(f a).examined := by
  change (Access.andThen x f).examined = _
  simp [Access.andThen,h]

theorem bind_outcome_of_ok {x : Access α} {a : α} (h : x.outcome = .ok a) (f : α → Access β) :
    (x >>= f).outcome = (f a).outcome := by
  change (Access.andThen x f).outcome = _
  simp [Access.andThen,h]

/-- A sequence stays inside when its parts do. -/
theorem inside_bind_of_ok {n : ℕ} {x : Access α} {a : α} (h : x.outcome = .ok a)
    (f : α → Access β) : Inside n (x >>= f) ↔ Inside n x ∧ Inside n (f a) := by
  simp only [Inside,bind_examined_of_ok h,List.mem_append]
  constructor
  · exact fun hi => ⟨fun i h => hi i (Or.inl h),fun i h => hi i (Or.inr h)⟩
  · rintro ⟨h1,h2⟩ i (hi | hi)
    · exact h1 i hi
    · exact h2 i hi

theorem bind_of_not_ok {x : Access α} (h : ∀ a, x.outcome ≠ .ok a) (f : α → Access β) :
    (x >>= f).examined = x.examined ∧ ∀ b, (x >>= f).outcome ≠ .ok b := by
  change (Access.andThen x f).examined = _ ∧ ∀ b, (Access.andThen x f).outcome ≠ .ok b
  unfold Access.andThen
  split
  · rename_i a ha
    exact absurd ha (h a)
  · simp
  · simp

theorem ok_of_bind_ok {x : Access α} {f : α → Access β} {b : β} (h : (x >>= f).outcome = .ok b) :
    ∃ a, x.outcome = .ok a ∧ (f a).outcome = .ok b := by
  by_cases hx : ∃ a, x.outcome = .ok a
  · obtain ⟨a,ha⟩ := hx
    exact ⟨a,ha,(bind_outcome_of_ok ha f).symm.trans h⟩
  · exact absurd h ((bind_of_not_ok (fun a ha => hx ⟨a,ha⟩) f).2 b)

theorem inside_bind_left {n : ℕ} {x : Access α} {f : α → Access β} (h : Inside n (x >>= f)) :
    Inside n x := by
  by_cases hx : ∃ a, x.outcome = .ok a
  · obtain ⟨a,ha⟩ := hx
    exact ((inside_bind_of_ok ha f).mp h).1
  · rw [Inside,(bind_of_not_ok (fun a ha => hx ⟨a,ha⟩) f).1] at h
    exact h

/-- A sequence stays inside if its first part does and every continuation does. -/
theorem inside_bind {n : ℕ} {x : Access α} {f : α → Access β} (hx : Inside n x)
    (hf : ∀ a, x.outcome = .ok a → Inside n (f a)) : Inside n (x >>= f) := by
  by_cases h : ∃ a, x.outcome = .ok a
  · obtain ⟨a,ha⟩ := h
    exact (inside_bind_of_ok ha f).mpr ⟨hx,hf a ha⟩
  · rw [Inside,(bind_of_not_ok (fun a ha => h ⟨a,ha⟩) f).1]
    exact hx

theorem readBytes_of_le {buf : Bytes} {i n : ℕ} (h : i+n ≤ buf.length) :
    readBytes buf i n = ⟨List.range' i n,.ok (window buf i n)⟩ := if_pos (Or.inl h)

theorem length_of_readBytes {buf s : Bytes} {i n : ℕ} (h : (readBytes buf i n).outcome = .ok s) :
    s.length = n := by
  unfold readBytes at h
  split_ifs at h with hin
  cases h
  rw [window_length]
  omega

/-- A read stays inside exactly when all its bytes, if any, are in the buffer. -/
theorem inside_readBytes_iff {buf : Bytes} {i n : ℕ} :
    Inside buf.length (readBytes buf i n) ↔ i+n ≤ buf.length ∨ n = 0 := by
  unfold readBytes Inside
  split_ifs with h
  · refine iff_of_true ?_ h
    intro j hj
    obtain ⟨h1,h2⟩ := List.mem_range'_1.mp hj
    omega
  · refine iff_of_false ?_ h
    intro hi
    have := hi (max i buf.length) (List.mem_range'_1.mpr ⟨le_max_left _ _,by omega⟩)
    omega

/-- A string that stands there with its NUL is read. -/
theorem readString_of_window {buf s : Bytes} {i : ℕ} (h : window buf i (s.length+1) = s++[0])
    (hs : (0 : UInt8) ∉ s) : (readString buf i).outcome = .ok s := by
  have hdrop : buf.drop i = s++0::buf.drop (i+(s.length+1)) := by
    rw [← List.take_append_drop (s.length+1) (buf.drop i),← window,h,List.drop_drop]
    simp
  have hcstr : cstr (buf.drop i) = s := by rw [hdrop,cstr_append_zero hs]
  have hmem : 0 ∈ buf.drop i := by simp [hdrop]
  rw [readString,if_pos hmem,hcstr]

/-- Bytes that stand there, if any, are read. -/
theorem readBytes_of_window {buf s : Bytes} {i n : ℕ} (hn : s.length = n)
    (h : window buf i n = s) : (readBytes buf i n).outcome = .ok s := by
  have hlength := congrArg List.length h
  rw [window_length,hn] at hlength
  have hin : i+n ≤ buf.length ∨ n = 0 := by omega
  rw [readBytes,if_pos hin,h]

/-- A search for NUL stays inside exactly when there is one. -/
theorem inside_readString_iff {buf : Bytes} {i : ℕ} :
    Inside buf.length (readString buf i) ↔ 0 ∈ buf.drop i := by
  unfold readString Inside
  split_ifs with h
  · refine iff_of_true ?_ h
    intro j hj
    obtain ⟨h1,h2⟩ := List.mem_range'_1.mp hj
    have hlt : (cstr (buf.drop i)).length < (buf.drop i).length := by
      refine lt_of_le_of_ne (List.takeWhile_prefix _).length_le fun he => ?_
      have heq : cstr (buf.drop i) = buf.drop i := (List.takeWhile_prefix _).eq_of_length he
      exact cstr_ne_zero (heq ▸ h) rfl
    rw [List.length_drop] at hlt
    omega
  · refine iff_of_false ?_ h
    intro hi
    have := hi (max i buf.length) (List.mem_range'_1.mpr ⟨le_max_left _ _,by omega⟩)
    omega

end Access
end BufferAccess
end RemotePkgInstaller
