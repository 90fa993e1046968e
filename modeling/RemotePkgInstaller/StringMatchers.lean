import RemotePkgInstaller.Looks
import RemotePkgInstaller.Settings

/-! `util.c`: the tests for a prefix and a suffix, byte by byte. -/
namespace RemotePkgInstaller
namespace StringMatchers

open Looks Looks.Looking Settings Util

/-- A pointer into a buffer. -/
structure Pointer (ι : Type) where
  buffer : ι
  index : ℕ

variable {ι : Type} {mem : ι → Bytes}

def Pointer.get (p : Pointer ι) (i : ℕ) : Looking mem UInt8 := look p.buffer (p.index+i)

/-- More rounds than a loop makes before it leaves the buffer. -/
def Pointer.rounds (mem : ι → Bytes) (p : Pointer ι) : ℕ := (mem p.buffer).length-p.index+1

def strlenLoop (p : Pointer ι) : ℕ → ℕ → Looking mem ℕ
  | 0,i => pure i
  | fuel+1,i => do
    let c ← p.get i
    if c = 0 then pure i else strlenLoop p fuel (i+1)

def strlen (p : Pointer ι) : Looking mem ℕ := strlenLoop p (p.rounds mem) 0

/-- The loop ends with the haystack, and its last round has the terminators compared. -/
def startsWithLoop (haystack needle : Pointer ι) : ℕ → ℕ → Looking mem Bool
  | 0,_ => pure false
  | fuel+1,i => do
    let h ← haystack.get i
    let n ← needle.get i
    if h ≠ 0 ∧ h = n then startsWithLoop haystack needle fuel (i+1) else pure (n = 0)

def startsWith (haystack needle : Pointer ι) : Looking mem Bool :=
  startsWithLoop haystack needle (haystack.rounds mem) 0

/-- Bytes count as equal if `fold` makes them so. -/
def endsWithLoop (fold : UInt8 → UInt8) (haystack needle : Pointer ι) (diff : ℤ) :
    ℕ → ℕ → Looking mem Bool
  | 0,_ => pure true
  | fuel+1,i => do
    let n ← needle.get i
    if n = 0 then pure true
    else
      let h ← haystack.get (i+diff).toNat
      if fold n ≠ fold h then pure false else endsWithLoop fold haystack needle diff fuel (i+1)

def endsWithBy (fold : UInt8 → UInt8) (haystack needle : Pointer ι) : Looking mem Bool := do
  let haystackLength ← strlen haystack
  let needleLength ← strlen needle
  let diff : ℤ := haystackLength-needleLength
  if diff < 0 then pure false else endsWithLoop fold haystack needle diff (needle.rounds mem) 0

def endsWith (haystack needle : Pointer ι) : Looking mem Bool := endsWithBy id haystack needle

def endsWithNocase (haystack needle : Pointer ι) : Looking mem Bool :=
  endsWithBy toLower haystack needle

section Strings

/-- From index `i` on the pointer reads this string and its terminator. -/
structure Spells (mem : ι → Bytes) (p : Pointer ι) (i : ℕ) (s : Bytes) : Prop where
  terminated : ∃ rest, (mem p.buffer).drop (p.index+i) = s++0::rest
  nonzero : (0 : UInt8) ∉ s

/-- The string that a pointer points to. -/
def text (mem : ι → Bytes) (p : Pointer ι) : Bytes := cstr ((mem p.buffer).drop p.index)

def Terminated (mem : ι → Bytes) (p : Pointer ι) : Prop := 0 ∈ (mem p.buffer).drop p.index

instance (p : Pointer ι) : Decidable (Terminated mem p) := inferInstanceAs (Decidable (_ ∈ _))

/-- The places of a string, up to its terminator. -/
def UpTo (p : Pointer ι) (n : ℕ) (e : ι × ℕ) : Prop :=
  e.1 = p.buffer ∧ p.index ≤ e.2 ∧ e.2 ≤ p.index+n

variable {p haystack needle : Pointer ι} {i n : ℕ} {c : UInt8} {s t : Bytes}

theorem Terminated.spells (h : Terminated mem p) : Spells mem p 0 (text mem p) := by
  refine ⟨?_,fun hmem => cstr_ne_zero hmem rfl⟩
  obtain ⟨before,rest,heq,hnot⟩ := List.eq_append_cons_of_mem h
  exact ⟨rest,by rw [Nat.add_zero,text,heq,cstr_append_zero hnot]⟩

theorem Spells.get_nil (h : Spells mem p i []) : (mem p.buffer)[p.index+i]? = some 0 := by
  obtain ⟨rest,hrest⟩ := h.terminated
  rw [← Nat.add_zero (p.index+i),← List.getElem?_drop,hrest]
  rfl

theorem Spells.get_cons (h : Spells mem p i (c::s)) : (mem p.buffer)[p.index+i]? = some c := by
  obtain ⟨rest,hrest⟩ := h.terminated
  rw [← Nat.add_zero (p.index+i),← List.getElem?_drop,hrest]
  rfl

theorem Spells.head_ne (h : Spells mem p i (c::s)) : c ≠ 0 := by
  rintro rfl
  exact h.nonzero List.mem_cons_self

theorem Spells.tail (h : Spells mem p i (c::s)) : Spells mem p (i+1) s := by
  obtain ⟨rest,hrest⟩ := h.terminated
  refine ⟨⟨rest,?_⟩,fun hmem => h.nonzero (List.mem_cons_of_mem _ hmem)⟩
  rw [← Nat.add_assoc,← List.drop_drop,hrest]
  rfl

theorem Spells.drop (h : Spells mem p i s) (hn : n ≤ s.length) : Spells mem p (i+n) (s.drop n) := by
  obtain ⟨rest,hrest⟩ := h.terminated
  refine ⟨⟨rest,?_⟩,fun hmem => h.nonzero (List.mem_of_mem_drop hmem)⟩
  rw [← Nat.add_assoc,← List.drop_drop,hrest,List.drop_append_of_le_length hn]

theorem Spells.lt_rounds (h : Spells mem p 0 s) : s.length < p.rounds mem := by
  obtain ⟨rest,hrest⟩ := h.terminated
  have hlength := congrArg List.length hrest
  simp only [List.length_drop,List.length_append,List.length_cons] at hlength
  unfold Pointer.rounds
  omega

/-- From index `i` on these bytes are all that is left of the buffer, with no terminator. -/
structure RunsOut (mem : ι → Bytes) (p : Pointer ι) (i : ℕ) (s : Bytes) : Prop where
  left : (mem p.buffer).drop (p.index+i) = s
  nonzero : (0 : UInt8) ∉ s

theorem runsOut_of_not_terminated (h : ¬ Terminated mem p) :
    RunsOut mem p 0 ((mem p.buffer).drop p.index) := ⟨rfl,h⟩

theorem RunsOut.get_nil (h : RunsOut mem p i []) : (mem p.buffer)[p.index+i]? = none :=
  List.getElem?_eq_none (List.drop_eq_nil_iff.mp h.left)

theorem RunsOut.get_cons (h : RunsOut mem p i (c::s)) : (mem p.buffer)[p.index+i]? = some c := by
  rw [← Nat.add_zero (p.index+i),← List.getElem?_drop,h.left]
  rfl

theorem RunsOut.head_ne (h : RunsOut mem p i (c::s)) : c ≠ 0 := by
  rintro rfl
  exact h.nonzero List.mem_cons_self

theorem RunsOut.tail (h : RunsOut mem p i (c::s)) : RunsOut mem p (i+1) s := by
  refine ⟨?_,fun hmem => h.nonzero (List.mem_cons_of_mem _ hmem)⟩
  rw [← Nat.add_assoc,← List.drop_drop,h.left]
  rfl

theorem RunsOut.lt_rounds (h : RunsOut mem p 0 s) : s.length < p.rounds mem := by
  rw [← h.left,List.length_drop,Nat.add_zero]
  exact Nat.lt_succ_self _

theorem upTo_get (h : i ≤ n) : UpTo p n (p.buffer,p.index+i) :=
  ⟨rfl,Nat.le_add_right _ _,Nat.add_le_add_left h _⟩

/-- A string is measured up to its terminator. -/
theorem strlenLoop_gives {fuel : ℕ} (h : Spells mem p i s) (hfuel : s.length < fuel)
    (hn : i+s.length ≤ n) : Gives (UpTo p n) (strlenLoop p fuel i : Looking mem ℕ) (i+s.length) := by
  induction s generalizing fuel i with
  | nil =>
    obtain ⟨fuel,rfl⟩ := Nat.exists_eq_succ_of_ne_zero (Nat.ne_of_gt hfuel)
    refine (gives_look h.get_nil (upTo_get (by omega))).bind ?_
    rw [if_pos rfl]
    exact gives_pure _
  | cons c s ih =>
    obtain ⟨fuel,rfl⟩ := Nat.exists_eq_succ_of_ne_zero (Nat.ne_zero_of_lt hfuel)
    rw [List.length_cons] at hfuel hn ⊢
    refine (gives_look h.get_cons (upTo_get (by omega))).bind ?_
    rw [if_neg h.head_ne,show i+(s.length+1) = i+1+s.length by omega]
    exact ih h.tail (by omega) (by omega)

theorem strlen_gives (h : Spells mem p 0 s) :
    Gives (UpTo p s.length) (strlen p : Looking mem ℕ) s.length := by
  have hloop := strlenLoop_gives h h.lt_rounds (Nat.zero_add _).le
  rwa [Nat.zero_add] at hloop

end Strings

section Loops

variable {haystack needle : Pointer ι} {i m n fuel : ℕ} {s t : Bytes}

/-- The places of both strings. -/
def UpToEnds (haystack needle : Pointer ι) (m n : ℕ) (e : ι × ℕ) : Prop :=
  UpTo haystack m e ∨ UpTo needle n e

/-- The induction is on the rest of the haystack, which the loop is driven by. -/
theorem startsWithLoop_gives (hs : Spells mem haystack i s) (ht : Spells mem needle i t)
    (hfuel : s.length < fuel) (hm : i+s.length ≤ m) (hn : i+t.length ≤ n) :
    Gives (UpToEnds haystack needle m n) (startsWithLoop haystack needle fuel i : Looking mem Bool)
      (Util.startsWith s t) := by
  induction s generalizing t fuel i with
  | nil =>
    obtain ⟨fuel,rfl⟩ := Nat.exists_eq_succ_of_ne_zero (Nat.ne_zero_of_lt hfuel)
    refine (gives_look hs.get_nil (Or.inl (upTo_get (by omega)))).bind ?_
    cases t with
    | nil =>
      refine (gives_look ht.get_nil (Or.inr (upTo_get (by omega)))).bind ?_
      rw [if_neg (fun h => h.1 rfl)]
      exact gives_pure _
    | cons d t =>
      refine (gives_look ht.get_cons (Or.inr (upTo_get (by omega)))).bind ?_
      rw [if_neg (fun h => h.1 rfl),decide_eq_false ht.head_ne]
      exact gives_pure _
  | cons c s ih =>
    obtain ⟨fuel,rfl⟩ := Nat.exists_eq_succ_of_ne_zero (Nat.ne_zero_of_lt hfuel)
    rw [List.length_cons] at hfuel hm
    refine (gives_look hs.get_cons (Or.inl (upTo_get (by omega)))).bind ?_
    cases t with
    | nil =>
      refine (gives_look ht.get_nil (Or.inr (upTo_get (by omega)))).bind ?_
      rw [if_neg (fun h => h.1 h.2)]
      exact gives_pure _
    | cons d t =>
      rw [List.length_cons] at hn
      refine (gives_look ht.get_cons (Or.inr (upTo_get (by omega)))).bind ?_
      by_cases hcd : c = d
      · rw [if_pos ⟨hs.head_ne,hcd⟩,Util.startsWith,if_pos hcd]
        exact ih hs.tail ht.tail (by omega) (by omega) (by omega)
      · rw [if_neg (fun h => hcd h.2),decide_eq_false ht.head_ne,Util.startsWith,if_neg hcd]
        exact gives_pure _

theorem startsWith_gives (hs : Spells mem haystack 0 s) (ht : Spells mem needle 0 t) :
    Gives (UpToEnds haystack needle s.length t.length) (startsWith haystack needle : Looking mem Bool)
      (Util.startsWith s t) :=
  startsWithLoop_gives hs ht hs.lt_rounds (Nat.zero_add _).le (Nat.zero_add _).le

/-- The induction is on the rest of the needle; as much is left of the haystack. -/
theorem endsWithLoop_gives (fold : UInt8 → UInt8) {diff : ℕ}
    (hs : Spells mem haystack (i+diff) s) (ht : Spells mem needle i t) (hlength : s.length = t.length)
    (hfuel : t.length < fuel) (hm : i+diff+s.length ≤ m) (hn : i+t.length ≤ n) :
    Gives (UpToEnds haystack needle m n)
      (endsWithLoop fold haystack needle diff fuel i : Looking mem Bool)
      (t.map fold = s.map fold) := by
  induction t generalizing s fuel i with
  | nil =>
    obtain ⟨fuel,rfl⟩ := Nat.exists_eq_succ_of_ne_zero (Nat.ne_zero_of_lt hfuel)
    refine (gives_look ht.get_nil (Or.inr (upTo_get (by omega)))).bind ?_
    rw [if_pos rfl,List.length_eq_zero_iff.mp hlength]
    exact gives_pure _
  | cons d t ih =>
    obtain ⟨fuel,rfl⟩ := Nat.exists_eq_succ_of_ne_zero (Nat.ne_zero_of_lt hfuel)
    obtain ⟨c,s,rfl⟩ := List.exists_cons_of_ne_nil (l := s) (by rintro rfl; cases hlength)
    rw [List.length_cons] at hfuel hm hn
    have hindex : ((i : ℤ)+diff).toNat = i+diff := by omega
    refine (gives_look ht.get_cons (Or.inr (upTo_get (by omega)))).bind ?_
    rw [if_neg ht.head_ne,hindex]
    refine (gives_look hs.get_cons (Or.inl (upTo_get (by omega)))).bind ?_
    by_cases hcd : fold d = fold c
    · rw [if_neg (not_not.mpr hcd)]
      have hrest := hs.tail
      rw [Nat.add_right_comm] at hrest
      have hloop := @ih (i+1) fuel s hrest ht.tail (Nat.succ.inj hlength) (by omega) (by omega)
        (by omega)
      simpa [hcd] using hloop
    · rw [if_pos hcd,List.map_cons,List.map_cons,decide_eq_false (fun h => hcd (List.cons.inj h).1)]
      exact gives_pure _

theorem endsWithBy_gives (fold : UInt8 → UInt8) (hs : Spells mem haystack 0 s)
    (ht : Spells mem needle 0 t) :
    Gives (UpToEnds haystack needle s.length t.length)
      (endsWithBy fold haystack needle : Looking mem Bool) (t.map fold <:+ s.map fold) := by
  refine ((strlen_gives hs).mono fun _ => Or.inl).bind ?_
  refine ((strlen_gives ht).mono fun _ => Or.inr).bind ?_
  by_cases hlt : s.length < t.length
  · have hneg : (s.length : ℤ)-t.length < 0 := by omega
    rw [if_pos hneg,decide_eq_false]
    · exact gives_pure _
    · intro h
      have := h.length_le
      simp only [List.length_map] at this
      omega
  · have hpos : ¬ (s.length : ℤ)-t.length < 0 := by omega
    have hdiff : (s.length : ℤ)-t.length = (s.length-t.length : ℕ) := by omega
    have hdrop : (s.drop (s.length-t.length)).length = t.length := by
      rw [List.length_drop]
      omega
    have hsuffix : t.map fold <:+ s.map fold ↔
        t.map fold = (s.drop (s.length-t.length)).map fold := by
      rw [List.suffix_iff_eq_drop,List.length_map,List.length_map,List.map_drop]
    rw [if_neg hpos,hdiff,decide_eq_decide.mpr hsuffix]
    exact endsWithLoop_gives fold (hs.drop (Nat.sub_le _ _)) ht hdrop ht.lt_rounds (by omega)
      (by omega)

end Loops

/-- The two strings of a test, each in a buffer of its own. -/
inductive Side
  | haystack
  | needle
  deriving DecidableEq

/-- The test answers whether `P` holds, and examines no byte beyond either terminator. -/
structure Decides {mem : Side → Bytes} (h n : ℕ) (x : Looking mem Bool) (P : Prop) : Prop where
  answers : ∃ b, x.value = some b ∧ (b = true ↔ P)
  haystack : ∀ i, (.haystack,i) ∈ x.examined → i ≤ h+(text mem ⟨.haystack,h⟩).length
  needle : ∀ i, (.needle,i) ∈ x.examined → i ≤ n+(text mem ⟨.needle,n⟩).length

theorem Decides.of_gives {mem : Side → Bytes} {h n : ℕ} {x : Looking mem Bool} {b : Bool} {P : Prop}
    (hx : Gives (UpToEnds ⟨.haystack,h⟩ ⟨.needle,n⟩ (text mem ⟨.haystack,h⟩).length
      (text mem ⟨.needle,n⟩).length) x b) (hP : b = true ↔ P) : Decides h n x P where
  answers := ⟨b,hx.value,hP⟩
  haystack := by
    intro i hi
    rcases hx.examined _ hi with ⟨_,_,hle⟩ | ⟨hside,_⟩
    · exact hle
    · cases hside
  needle := by
    intro i hi
    rcases hx.examined _ hi with ⟨hside,_⟩ | ⟨_,_,hle⟩
    · cases hside
    · exact hle

/-- Whatever follows the two strings in memory, each test is exact. -/
theorem matchers_exact (mem : Side → Bytes) (h n : ℕ) (hh : Terminated mem ⟨.haystack,h⟩)
    (hn : Terminated mem ⟨.needle,n⟩) :
    Decides h n (startsWith ⟨.haystack,h⟩ ⟨.needle,n⟩ : Looking mem Bool)
        (text mem ⟨.needle,n⟩ <+: text mem ⟨.haystack,h⟩) ∧
      Decides h n (endsWith ⟨.haystack,h⟩ ⟨.needle,n⟩ : Looking mem Bool)
        (text mem ⟨.needle,n⟩ <:+ text mem ⟨.haystack,h⟩) ∧
      Decides h n (endsWithNocase ⟨.haystack,h⟩ ⟨.needle,n⟩ : Looking mem Bool)
        ((text mem ⟨.needle,n⟩).map toLower <:+ (text mem ⟨.haystack,h⟩).map toLower) := by
  have hs := hh.spells
  have ht := hn.spells
  refine ⟨.of_gives (startsWith_gives hs ht) (Util.startsWith_iff _ _),
    .of_gives (endsWithBy_gives id hs ht) ?_,.of_gives (endsWithBy_gives toLower hs ht) ?_⟩
  · rw [decide_eq_true_iff,List.map_id,List.map_id]
  · rw [decide_eq_true_iff]

/-- A file name and an extension, with other bytes behind them. -/
def sampleStrings : Side → Bytes
  | .haystack => bytes "tmp_1.JSON"++[0,0x78]
  | .needle => bytes "?.json"++[0,0x79]

theorem matchers_exact_example :
    Decides 0 1 (endsWithNocase ⟨.haystack,0⟩ ⟨.needle,1⟩ : Looking sampleStrings Bool)
      ((text sampleStrings ⟨.needle,1⟩).map toLower <:+
        (text sampleStrings ⟨.haystack,0⟩).map toLower) :=
  (matchers_exact sampleStrings 0 1 (by decide) (by decide)).2.2

end StringMatchers
end RemotePkgInstaller
