import RemotePkgInstaller.ByteString

/-! Percent-encoded text and the components of a URL.
A text whose escapes are well formed is a list of tokens, each a raw byte or an
escape; decoding, re-encoding and splitting are all described on that list. -/
namespace RemotePkgInstaller
namespace PercentCoding

/-- The value of an ASCII hexadecimal digit. -/
def hexValue? (c : UInt8) : Option ℕ :=
  if 0x30 ≤ c ∧ c ≤ 0x39 then some (c.toNat-0x30)
  else if 0x41 ≤ c ∧ c ≤ 0x46 then some (c.toNat-0x37)
  else if 0x61 ≤ c ∧ c ≤ 0x66 then some (c.toNat-0x57)
  else none

/-- The byte that two hexadecimal digits spell. -/
def hexPair? (hi lo : UInt8) : Option UInt8 := do
  let a ← hexValue? hi
  let b ← hexValue? lo
  pure (UInt8.ofNat (16*a+b))

/-- Replace each `%XX` by its byte and copy everything else. -/
def percentDecode : Bytes → Bytes
  | [] => []
  | c::a::b::s =>
    if c = 0x25 then
      match hexPair? a b with
      | some v => v::percentDecode s
      | none => c::percentDecode (a::b::s)
    else c::percentDecode (a::b::s)
  | c::s => c::percentDecode s

/-- A raw byte, or `%` and two hexadecimal digits. -/
inductive Token
  | raw (c : UInt8) (h : c ≠ 0x25)
  | esc (hi lo : UInt8) (h : (hexPair? hi lo).isSome)
  deriving DecidableEq

def Token.value : Token → UInt8
  | .raw c _ => c
  | .esc hi lo h => (hexPair? hi lo).get h

def Token.text : Token → Bytes
  | .raw c _ => [c]
  | .esc hi lo _ => [0x25,hi,lo]

def Token.isRaw (c : UInt8) : Token → Bool
  | .raw d _ => d = c
  | .esc .. => false

theorem Token.isRaw_value {c : UInt8} {t : Token} (h : t.isRaw c = true) : t.value = c := by
  cases t with
  | raw d hd => simpa [Token.isRaw,Token.value] using h
  | esc hi lo hv => simp [Token.isRaw] at h

/-- The text that a list of tokens spells. -/
def render (ts : List Token) : Bytes := ts.flatMap Token.text

@[simp] theorem render_nil : render [] = [] := rfl
@[simp] theorem render_cons (t : Token) (ts : List Token) :
    render (t::ts) = t.text++render ts := by simp [render]
@[simp] theorem render_append (ts us : List Token) :
    render (ts++us) = render ts++render us := by simp [render]

/-- Read the tokens of a text; `none` when an escape is not well formed. -/
def tokens? : Bytes → Option (List Token)
  | [] => some []
  | c::s =>
    if hc : c = 0x25 then
      match s with
      | a::b::s => if h : (hexPair? a b).isSome then (tokens? s).map (Token.esc a b h::·) else none
      | _ => none
    else (tokens? s).map (Token.raw c hc::·)

theorem tokens?_text_append (t : Token) (s : Bytes) :
    tokens? (t.text++s) = (tokens? s).map (t::·) := by
  cases t with
  | raw c hc =>
    rw [Token.text,List.singleton_append,tokens?.eq_def]
    simp [hc]
  | esc hi lo hv =>
    rw [Token.text,tokens?.eq_def]
    simp [hv]

theorem tokens?_render (ts : List Token) : tokens? (render ts) = some ts := by
  induction ts with
  | nil => simp [tokens?]
  | cons t ts ih => simp [tokens?_text_append,ih]

theorem render_of_tokens? {s : Bytes} {ts : List Token} (h : tokens? s = some ts) :
    render ts = s := by
  fun_induction tokens? s generalizing ts with
  | case1 => simp_all
  | case2 a b s hv ih =>
    obtain ⟨us,hus,rfl⟩ := Option.map_eq_some_iff.mp h
    simp [Token.text,ih hus]
  | case3 => simp at h
  | case4 => simp at h
  | case5 c s hc ih =>
    obtain ⟨us,hus,rfl⟩ := Option.map_eq_some_iff.mp h
    simp [Token.text,ih hus]

theorem percentDecode_cons_of_ne {c : UInt8} (hc : c ≠ 0x25) (s : Bytes) :
    percentDecode (c::s) = c::percentDecode s := by
  match s with
  | [] => simp [percentDecode]
  | [_] => simp [percentDecode]
  | _::_::_ => simp [percentDecode,hc]

/-- Decoding a well formed text is reading off the values of its tokens. -/
theorem percentDecode_render_append (ts : List Token) (s : Bytes) :
    percentDecode (render ts++s) = ts.map Token.value++percentDecode s := by
  induction ts with
  | nil => simp
  | cons t ts ih =>
    cases t with
    | raw c hc => simp [Token.text,Token.value,percentDecode_cons_of_ne hc,ih]
    | esc hi lo hv =>
      obtain ⟨v,hv'⟩ := Option.isSome_iff_exists.mp hv
      simp [Token.text,Token.value,percentDecode,hv',ih]

theorem percentDecode_render (ts : List Token) :
    percentDecode (render ts) = ts.map Token.value := by
  simpa [percentDecode] using percentDecode_render_append ts []

theorem percentDecode_append_of_plain {p : Bytes} (hp : (0x25 : UInt8) ∉ p) (s : Bytes) :
    percentDecode (p++s) = p++percentDecode s := by
  induction p with
  | nil => rfl
  | cons c p ih =>
    simp only [List.mem_cons,not_or] at hp
    rw [List.cons_append,percentDecode_cons_of_ne (Ne.symm hp.1),ih hp.2,List.cons_append]

/-- Every digit of an escape is an ASCII letter or digit. -/
theorem hexPair?_digits {hi lo v : UInt8} (h : hexPair? hi lo = some v) :
    (hexValue? hi).isSome ∧ (hexValue? lo).isSome := by
  unfold hexPair? at h
  cases ha : hexValue? hi <;> cases hb : hexValue? lo <;> simp_all

section Split

variable {α β : Type*}

/-- Cut at the first separator, which belongs to neither part. -/
def cutAt (p : α → Bool) : List α → List α × Option (List α)
  | [] => ([],none)
  | x::s => if p x then ([],some s) else ((x::(cutAt p s).1),(cutAt p s).2)

theorem cutAt_snd_eq_none_iff (p : α → Bool) (s : List α) :
    (cutAt p s).2 = none ↔ ∀ x ∈ s, p x = false := by
  induction s with
  | nil => simp [cutAt]
  | cons x s ih =>
    by_cases hx : p x = true
    · simp [cutAt,hx]
    · simp [cutAt,hx,ih]

theorem cutAt_of_none (p : α → Bool) (s : List α) (h : ∀ x ∈ s, p x = false) :
    cutAt p s = (s,none) := by
  induction s with
  | nil => rfl
  | cons x s ih =>
    have hx := h x (by simp)
    simp [cutAt,hx,ih (fun y hy => h y (by simp [hy]))]

theorem splitOnP_map (f : α → β) (p : α → Bool) (q : β → Bool) (s : List α)
    (h : ∀ x ∈ s, q (f x) = p x) :
    (s.map f).splitOnP q = (s.splitOnP p).map (List.map f) := by
  induction s with
  | nil => simp [List.splitOnP_nil]
  | cons x s ih =>
    have hx := h x (by simp)
    have ht := ih (fun y hy => h y (by simp [hy]))
    rw [List.map_cons,List.splitOnP_cons_eq_if_modifyHead,List.splitOnP_cons_eq_if_modifyHead,
      hx,ht]
    cases hp : p x with
    | true => simp
    | false =>
      cases hs : s.splitOnP p with
      | nil => exact absurd hs (List.splitOnP_ne_nil p s)
      | cons y ys => simp

theorem length_splitOnP (p : α → Bool) (s : List α) :
    (s.splitOnP p).length = s.countP p+1 := by
  induction s with
  | nil => simp [List.splitOnP_nil]
  | cons x s ih =>
    rw [List.splitOnP_cons_eq_if_modifyHead]
    cases hp : p x with
    | true => simp [hp,ih]
    | false => simp [hp,ih]

end Split

end PercentCoding
end RemotePkgInstaller
