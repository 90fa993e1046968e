import RemotePkgInstaller.PercentCoding

/-! JSON string literals as RFC 8259 defines them: what a literal denotes, and
the standard escaping of a string.  A literal is read from just after its
opening quote, and its text continues after the closing one. -/
namespace RemotePkgInstaller
namespace JsonText

open PercentCoding

/-- The byte of a two-character escape. -/
def shortEscape? (e : UInt8) : Option UInt8 :=
  if e = 0x22 then some 0x22        -- \"
  else if e = 0x5c then some 0x5c   -- \\
  else if e = 0x2f then some 0x2f   -- \/
  else if e = 0x62 then some 0x08   -- \b
  else if e = 0x66 then some 0x0c   -- \f
  else if e = 0x6e then some 0x0a   -- \n
  else if e = 0x72 then some 0x0d   -- \r
  else if e = 0x74 then some 0x09   -- \t
  else none

/-- A byte, raw or spelled by a two-character escape, or a `\uXXXX` escape. -/
inductive Item
  | byte (c : UInt8)
  | unicode (u : UInt16)
  deriving DecidableEq

def hex4? (a b c d : UInt8) : Option UInt16 := do
  let w ← hexValue? a
  let x ← hexValue? b
  let y ← hexValue? c
  let z ← hexValue? d
  pure (UInt16.ofNat (((w*16+x)*16+y)*16+z))

/-- The items of a literal, and the text after its closing quote. -/
def literal? : Bytes → Option (List Item × Bytes)
  | [] => none
  | c::s =>
    if c < 0x20 then none
    else if c = 0x22 then some ([],s)
    else if c = 0x5c then
      match s with
      | 0x75::w::x::y::z::s =>
        match hex4? w x y z with
        | some u => (literal? s).map fun r => (.unicode u::r.1,r.2)
        | none => none
      | e::s =>
        match shortEscape? e with
        | some v => (literal? s).map fun r => (.byte v::r.1,r.2)
        | none => none
      | [] => none
    else (literal? s).map fun r => (.byte c::r.1,r.2)

def isHighSurrogate (u : UInt16) : Bool := 0xd800 ≤ u && u < 0xdc00
def isLowSurrogate (u : UInt16) : Bool := 0xdc00 ≤ u && u < 0xe000

/-- UTF-8 of a code point. -/
def utf8 (n : ℕ) : Bytes := String.utf8EncodeChar (Char.ofNat n)

/-- The UTF-8 text that the items denote; `none` for a surrogate without its partner. -/
def meaning? : List Item → Option Bytes
  | [] => some []
  | .byte c::s => (meaning? s).map (c::·)
  | .unicode u::.unicode v::s =>
    if isHighSurrogate u && isLowSurrogate v then
      (meaning? s).map (utf8 (0x10000+(u.toNat-0xd800)*0x400+(v.toNat-0xdc00))++·)
    else if isHighSurrogate u || isLowSurrogate u then none
    else (meaning? (.unicode v::s)).map (utf8 u.toNat++·)
  | .unicode u::s =>
    if isHighSurrogate u || isLowSurrogate u then none
    else (meaning? s).map (utf8 u.toNat++·)

/-- The bytes a JSON string can hold without a `\u` escape. -/
def isTextByte (c : UInt8) : Bool :=
  0x20 ≤ c || c == 0x08 || c == 0x0c || c == 0x0a || c == 0x0d || c == 0x09

def escapeByte (c : UInt8) : Bytes :=
  if c = 0x22 then [0x5c,0x22]
  else if c = 0x5c then [0x5c,0x5c]
  else if c = 0x08 then [0x5c,0x62]
  else if c = 0x0c then [0x5c,0x66]
  else if c = 0x0a then [0x5c,0x6e]
  else if c = 0x0d then [0x5c,0x72]
  else if c = 0x09 then [0x5c,0x74]
  else [c]

/-- Standard escaping of a text: quote, backslash and the five control bytes. -/
def escape (s : Bytes) : Bytes := s.flatMap escapeByte

theorem escape_length_le (s : Bytes) : (escape s).length ≤ 2*s.length := by
  induction s with
  | nil => simp [escape]
  | cons c s ih =>
    have hc : (escapeByte c).length ≤ 2 := by
      unfold escapeByte
      split_ifs <;> simp
    simp only [escape,List.flatMap_cons,List.length_append,List.length_cons] at ih ⊢
    omega

theorem literal?_quote (s : Bytes) : literal? (0x22::s) = some ([],s) := by
  rw [literal?.eq_def]
  simp

theorem literal?_plain {c : UInt8} (h20 : ¬ c < 0x20) (h22 : c ≠ 0x22) (h5c : c ≠ 0x5c)
    (s : Bytes) : literal? (c::s) = (literal? s).map fun r => (.byte c::r.1,r.2) := by
  rw [literal?.eq_def]
  simp [h20,h22,h5c]

theorem literal?_short {e v : UInt8} (hv : shortEscape? e = some v) (s : Bytes) :
    literal? (0x5c::e::s) = (literal? s).map fun r => (.byte v::r.1,r.2) := by
  have he : e ≠ 0x75 := by
    rintro rfl
    simp [shortEscape?] at hv
  rw [literal?.eq_def]
  simp only [show ¬ (0x5c : UInt8) < 0x20 by decide,show (0x5c : UInt8) ≠ 0x22 by decide,
    if_false,if_true]
  split
  · rename_i heq
    injection heq with h _
    exact absurd h he
  · rename_i heq
    injection heq with h1 h2
    subst h1 h2
    simp [hv]
  · rename_i heq
    simp at heq

theorem literal?_escapeByte {c : UInt8} (hc : isTextByte c = true) (s : Bytes) :
    literal? (escapeByte c++s) = (literal? s).map fun r => (.byte c::r.1,r.2) := by
  unfold escapeByte
  split_ifs with h1 h2 h3 h4 h5 h6 h7
  · subst h1; exact literal?_short (by decide) s
  · subst h2; exact literal?_short (by decide) s
  · subst h3; exact literal?_short (by decide) s
  · subst h4; exact literal?_short (by decide) s
  · subst h5; exact literal?_short (by decide) s
  · subst h6; exact literal?_short (by decide) s
  · subst h7; exact literal?_short (by decide) s
  · have h0 : ¬ c < 0x20 := by simpa [isTextByte,h3,h4,h5,h6,h7] using hc
    exact literal?_plain h0 h1 h2 s

/-- Reading an escaped text gives the text back. -/
theorem literal?_escape {s : Bytes} (hs : ∀ c ∈ s, isTextByte c = true) (rest : Bytes) :
    literal? (escape s++0x22::rest) = some (s.map .byte,rest) := by
  induction s with
  | nil => exact literal?_quote rest
  | cons c s ih =>
    have hc := hs c (by simp)
    have ht := ih (fun d hd => hs d (by simp [hd]))
    rw [escape,List.flatMap_cons,List.append_assoc,literal?_escapeByte hc]
    rw [escape] at ht
    simp [ht]

theorem shortEscape?_isTextByte {e v : UInt8} (h : shortEscape? e = some v) :
    isTextByte v = true := by
  unfold shortEscape? at h
  split_ifs at h <;> (injection h with h; subst v; decide)

theorem literal?_isTextByte {s rest : Bytes} {items : List Item}
    (h : literal? s = some (items,rest)) : ∀ c, Item.byte c ∈ items → isTextByte c = true := by
  fun_induction literal? s generalizing items rest with
  | case1 => simp at h
  | case2 => simp at h
  | case3 =>
    injection h with h
    injection h with h1 h2
    subst items
    simp
  | case4 w x y z s u hu h20 h22 ih =>
    obtain ⟨r,hr,he⟩ := Option.map_eq_some_iff.mp h
    injection he with he1 he2
    subst items
    intro c hc
    exact ih hr c (by simpa using hc)
  | case5 => simp at h
  | case6 e s hne v hv h20 h22 ih =>
    obtain ⟨r,hr,he⟩ := Option.map_eq_some_iff.mp h
    injection he with he1 he2
    subst items
    intro c hc
    rcases List.mem_cons.mp hc with hcv | hc
    · injection hcv with hcv
      exact hcv ▸ shortEscape?_isTextByte hv
    · exact ih hr c hc
  | case7 => simp at h
  | case8 => simp at h
  | case9 c s h20 h22 h5c ih =>
    obtain ⟨r,hr,he⟩ := Option.map_eq_some_iff.mp h
    injection he with he1 he2
    subst items
    intro d hd
    rcases List.mem_cons.mp hd with hcv | hd
    · injection hcv with hcv
      subst d
      simp only [isTextByte,Bool.or_eq_true,decide_eq_true_eq]
      exact Or.inl (Or.inl (Or.inl (Or.inl (Or.inl (UInt8.not_lt.mp h20)))))
    · exact ih hr d hd

/-- The items read with one and the same byte in place of every `\u` escape. -/
def flatten (q : UInt8) (items : List Item) : Bytes :=
  items.map fun
    | .byte c => c
    | .unicode _ => q

theorem utf8_toNat {n : ℕ} (hn : n.isValidChar) : (Char.ofNat n).val.toNat = n := by
  rw [Char.ofNat,dif_pos hn]
  rfl

/-- An ASCII byte starts the UTF-8 text of its own code point only. -/
theorem utf8_head {n : ℕ} (hn : n.isValidChar) {q : UInt8} (hq : q < 0x80) :
    ∃ b t, utf8 n = b::t ∧ (b = q ↔ n = q.toNat) ∧ (n = q.toNat → t = []) := by
  have hq' : q.toNat < 0x80 := UInt8.lt_iff_toNat_lt.mp hq
  simp only [utf8,String.utf8EncodeChar,utf8_toNat hn]
  split_ifs with h1 h2 h3
  · refine ⟨_,_,rfl,?_,fun _ => rfl⟩
    rw [← UInt8.toNat_inj,UInt8.toNat_ofNat']
    omega
  all_goals
    refine ⟨_,_,rfl,?_,fun h => by omega⟩
    rw [← UInt8.toNat_inj,UInt8.toNat_ofNat']
    omega

theorem isValidChar_of_not_surrogate {u : UInt16} (h : isHighSurrogate u = false)
    (hl : isLowSurrogate u = false) : u.toNat.isValidChar := by
  have hu := u.toNat_lt
  simp only [isHighSurrogate,isLowSurrogate,Bool.and_eq_false_iff,decide_eq_false_iff_not,
    UInt16.le_iff_toNat_le,UInt16.lt_iff_toNat_lt] at h hl
  have h1 : (0xd800 : UInt16).toNat = 0xd800 := rfl
  have h2 : (0xdc00 : UInt16).toNat = 0xdc00 := rfl
  have h3 : (0xe000 : UInt16).toNat = 0xe000 := rfl
  unfold Nat.isValidChar
  omega

theorem isValidChar_of_surrogates {u v : UInt16} (hu : isHighSurrogate u = true)
    (hv : isLowSurrogate v = true) :
    (0x10000+(u.toNat-0xd800)*0x400+(v.toNat-0xdc00)).isValidChar := by
  simp only [isHighSurrogate,isLowSurrogate,Bool.and_eq_true,decide_eq_true_eq,
    UInt16.le_iff_toNat_le,UInt16.lt_iff_toNat_lt] at hu hv
  have h1 : (0xd800 : UInt16).toNat = 0xd800 := rfl
  have h2 : (0xdc00 : UInt16).toNat = 0xdc00 := rfl
  have h3 : (0xe000 : UInt16).toNat = 0xe000 := rfl
  unfold Nat.isValidChar
  omega

theorem flatten_cons_unicode {q : UInt8} (hq : q < 0x80) {u : UInt16} (hu : u.toNat.isValidChar)
    {s : List Item} {x : Bytes}
    (ih : flatten q s = x ↔ ∀ w, Item.unicode w ∈ s → w.toNat = q.toNat) :
    flatten q (.unicode u::s) = utf8 u.toNat++x ↔
      ∀ w, Item.unicode w ∈ Item.unicode u::s → w.toNat = q.toNat := by
  obtain ⟨b,t,hbt,hb,ht⟩ := utf8_head hu hq
  rw [hbt]
  have hhead : flatten q (.unicode u::s) = q::flatten q s := rfl
  rw [hhead,List.cons_append,List.cons.injEq]
  constructor
  · rintro ⟨hqb,he⟩
    have hn := hb.mp hqb.symm
    rw [ht hn,List.nil_append] at he
    intro w hw
    rcases List.mem_cons.mp hw with hw | hw
    · injection hw with hw
      exact hw ▸ hn
    · exact ih.mp he w hw
  · intro h
    have hn := h u (by simp)
    refine ⟨(hb.mpr hn).symm,?_⟩
    rw [ht hn,List.nil_append]
    exact ih.mpr fun w hw => h w (by simp [hw])

/-- Flattening agrees with the meaning exactly when each escape spells the byte
put in its place. -/
theorem flatten_eq_meaning {q : UInt8} (hq : q < 0x80) {items : List Item} {v : Bytes}
    (h : meaning? items = some v) :
    flatten q items = v ↔ ∀ u, Item.unicode u ∈ items → u.toNat = q.toNat := by
  fun_induction meaning? items generalizing v with
  | case1 =>
    injection h with h
    simp [flatten,h]
  | case2 c s ih =>
    obtain ⟨w,hw,rfl⟩ := Option.map_eq_some_iff.mp h
    have := ih hw
    simp only [flatten,List.map_cons,List.cons.injEq,true_and] at this ⊢
    simp [this]
  | case3 u w s hs ih =>
    obtain ⟨x,hx,rfl⟩ := Option.map_eq_some_iff.mp h
    simp only [Bool.and_eq_true] at hs
    obtain ⟨b,t,hbt,hb,_⟩ := utf8_head (isValidChar_of_surrogates hs.1 hs.2) hq
    have hq' : q.toNat < 0x80 := UInt8.lt_iff_toNat_lt.mp hq
    rw [hbt]
    constructor
    · intro he
      simp only [flatten,List.map_cons,List.cons_append,List.cons.injEq] at he
      have := hb.mp he.1.symm
      omega
    · intro he
      have hu := he u (by simp)
      have h1 := hs.1
      simp only [isHighSurrogate,Bool.and_eq_true,decide_eq_true_eq,UInt16.le_iff_toNat_le] at h1
      have h2 : (0xd800 : UInt16).toNat = 0xd800 := rfl
      omega
  | case4 => simp at h
  | case5 u w s hs hn ih =>
    obtain ⟨x,hx,rfl⟩ := Option.map_eq_some_iff.mp h
    simp only [Bool.or_eq_true,not_or,Bool.not_eq_true] at hn
    exact flatten_cons_unicode hq (isValidChar_of_not_surrogate hn.1 hn.2) (ih hx)
  | case6 => simp at h
  | case7 u s hne hn ih =>
    obtain ⟨x,hx,rfl⟩ := Option.map_eq_some_iff.mp h
    simp only [Bool.or_eq_true,not_or,Bool.not_eq_true] at hn
    exact flatten_cons_unicode hq (isValidChar_of_not_surrogate hn.1 hn.2) (ih hx)

theorem utf8_length_pos (n : ℕ) : 0 < (utf8 n).length := by
  simp only [utf8,String.utf8EncodeChar]
  split_ifs <;> simp

theorem utf8_length_supplementary {n : ℕ} (hn : n.isValidChar) (h : 0x10000 ≤ n) :
    (utf8 n).length = 4 := by
  simp only [utf8,String.utf8EncodeChar,utf8_toNat hn]
  rw [if_neg (by omega),if_neg (by omega),if_neg (by omega)]
  rfl

theorem flatten_length (q : UInt8) (items : List Item) :
    (flatten q items).length = items.length := by simp [flatten]

/-- No item denotes less than a byte. -/
theorem length_le_meaning {items : List Item} {v : Bytes} (h : meaning? items = some v) :
    items.length ≤ v.length := by
  fun_induction meaning? items generalizing v with
  | case1 => simp
  | case2 c s ih =>
    obtain ⟨w,hw,rfl⟩ := Option.map_eq_some_iff.mp h
    simpa using ih hw
  | case3 u w s hs ih =>
    obtain ⟨x,hx,rfl⟩ := Option.map_eq_some_iff.mp h
    simp only [Bool.and_eq_true] at hs
    have h4 := utf8_length_supplementary (isValidChar_of_surrogates hs.1 hs.2) (by omega)
    have := ih hx
    simp only [List.length_append,List.length_cons,h4]
    omega
  | case4 => simp at h
  | case5 u w s hs hn ih =>
    obtain ⟨x,hx,rfl⟩ := Option.map_eq_some_iff.mp h
    have := ih hx
    have := utf8_length_pos u.toNat
    simp only [List.length_append,List.length_cons] at *
    omega
  | case6 => simp at h
  | case7 u s hne hn ih =>
    obtain ⟨x,hx,rfl⟩ := Option.map_eq_some_iff.mp h
    have := ih hx
    have := utf8_length_pos u.toNat
    simp only [List.length_append,List.length_cons] at *
    omega

/-- A bounded copy of the flattened items is the meaning exactly when the meaning
fits and flattening has not changed it. -/
theorem take_flatten_eq_meaning {q : UInt8} (hq : q < 0x80) {items : List Item} {v : Bytes}
    (h : meaning? items = some v) (n : ℕ) :
    (flatten q items).take n = v ↔
      v.length ≤ n ∧ ∀ u, Item.unicode u ∈ items → u.toNat = q.toNat := by
  have hl := length_le_meaning h
  rw [← flatten_eq_meaning hq h]
  constructor
  · intro he
    have hlen := congrArg List.length he
    rw [List.length_take,flatten_length] at hlen
    refine ⟨by omega,?_⟩
    rwa [List.take_of_length_le (by rw [flatten_length]; omega)] at he
  · rintro ⟨hn,he⟩
    rw [List.take_of_length_le (by rw [flatten_length]; omega),he]

end JsonText
end RemotePkgInstaller
