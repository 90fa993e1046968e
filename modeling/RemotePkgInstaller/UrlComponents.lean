import RemotePkgInstaller.PercentCoding

/-! The components of a hierarchical URL, and what re-encoding does to them.
Decoding a whole URL and encoding it again commutes with splitting exactly when
no escape decodes to a separator and no separator is escaped by the encoder. -/
namespace RemotePkgInstaller
namespace UrlComponents

open PercentCoding

/-- The components between the structural delimiters.  `hier` is the authority
followed by the path segments; a query is a list of parameters, each split at `=`. -/
structure Components where
  scheme : Bytes
  hier : List Bytes
  query : Option (List (List Bytes))
  fragment : Option Bytes
  deriving DecidableEq

/-- Split an absolute URL at `://`, `#`, `?`, `/`, `&` and `=`. -/
def splitUrl (u : Bytes) : Option Components :=
  match cutAt (· == 0x3a) u with
  | (scheme,some (0x2f::0x2f::rest)) =>
    let f := cutAt (· == 0x23) rest
    let q := cutAt (· == 0x3f) f.1
    some
      { scheme := scheme
        hier := q.1.splitOn 0x2f
        query := q.2.map fun s => (s.splitOn 0x26).map (·.splitOn 0x3d)
        fragment := f.2 }
  | _ => none

def Components.decoded (p : Components) : Components where
  scheme := p.scheme
  hier := p.hier.map percentDecode
  query := p.query.map (·.map (·.map percentDecode))
  fragment := p.fragment.map percentDecode

/-- Both texts are URLs, they split alike, and components that correspond
decode to the same bytes. -/
def SameComponents (u v : Bytes) : Prop :=
  ∃ p q, splitUrl u = some p ∧ splitUrl v = some q ∧ p.decoded = q.decoded

instance (u v : Bytes) : Decidable (SameComponents u v) :=
  match hu : splitUrl u, hv : splitUrl v with
  | some p, some q => decidable_of_iff (p.decoded = q.decoded)
      ⟨fun h => ⟨p,q,hu,hv,h⟩,fun ⟨_,_,hp,hq,h⟩ => by
        rw [hu] at hp; rw [hv] at hq
        exact Option.some.inj hp ▸ Option.some.inj hq ▸ h⟩
  | none, _ => isFalse fun ⟨_,_,hp,_⟩ => by simp [hu] at hp
  | some _, none => isFalse fun ⟨_,_,_,hq,_⟩ => by simp [hv] at hq

theorem cutAt_append {α : Type*} (p : α → Bool) (s t : List α) (x : α)
    (hs : ∀ y ∈ s, p y = false) (hx : p x = true) :
    cutAt p (s++x::t) = (s,some t) := by
  induction s with
  | nil => simp [cutAt,hx]
  | cons y s ih =>
    have hy := hs y (by simp)
    simp [cutAt,hy,ih (fun z hz => hs z (by simp [hz]))]

theorem cutAt_of_notMem {c : UInt8} {s : Bytes} (h : c ∉ s) : cutAt (· == c) s = (s,none) := by
  apply cutAt_of_none
  intro x hx
  simp only [beq_eq_false_iff_ne]
  rintro rfl
  exact h hx

theorem notMem_of_cutAt_none {c : UInt8} {s : Bytes} (h : (cutAt (· == c) s).2 = none) :
    c ∉ s := by
  intro hc
  simpa using (cutAt_snd_eq_none_iff _ _).mp h c hc

/-- The text of a URL with the given scheme. -/
def withScheme (scheme rest : Bytes) : Bytes := scheme++0x3a::0x2f::0x2f::rest

theorem splitUrl_withScheme {scheme : Bytes} (hs : (0x3a : UInt8) ∉ scheme) (rest : Bytes) :
    splitUrl (withScheme scheme rest) = some
      { scheme := scheme
        hier := (cutAt (· == 0x3f) (cutAt (· == 0x23) rest).1).1.splitOn 0x2f
        query := (cutAt (· == 0x3f) (cutAt (· == 0x23) rest).1).2.map
          fun s => (s.splitOn 0x26).map (·.splitOn 0x3d)
        fragment := (cutAt (· == 0x23) rest).2 } := by
  have hc : cutAt (· == (0x3a : UInt8)) (withScheme scheme rest) =
      (scheme,some (0x2f::0x2f::rest)) := by
    apply cutAt_append
    · intro y hy
      simp only [beq_eq_false_iff_ne]
      exact fun h => hs (h ▸ hy)
    · rfl
  simp [splitUrl,hc]

/-- Without query and fragment only the segments are left to compare. -/
theorem splitUrl_plain {scheme rest : Bytes} (hs : (0x3a : UInt8) ∉ scheme)
    (hf : (0x23 : UInt8) ∉ rest) (hq : (0x3f : UInt8) ∉ rest) :
    splitUrl (withScheme scheme rest) = some
      { scheme := scheme, hier := rest.splitOn 0x2f, query := none, fragment := none } := by
  simp [splitUrl_withScheme hs,cutAt_of_notMem hf,cutAt_of_notMem hq]

/-- A byte that no escape contains. -/
def Separator (c : UInt8) : Prop := c ≠ 0x25 ∧ hexValue? c = none

instance (c : UInt8) : Decidable (Separator c) := inferInstanceAs (Decidable (_ ∧ _))

theorem mem_text_iff {c : UInt8} (hc : Separator c) (t : Token) :
    c ∈ t.text ↔ t.isRaw c = true := by
  cases t with
  | raw d hd => simp [Token.text,Token.isRaw,eq_comm]
  | esc hi lo h =>
    obtain ⟨v,hv⟩ := Option.isSome_iff_exists.mp h
    have hd := hexPair?_digits hv
    have h1 : c ≠ hi := by rintro rfl; simp [hc.2] at hd
    have h2 : c ≠ lo := by rintro rfl; simp [hc.2] at hd
    simp [Token.text,Token.isRaw,hc.1,h1,h2]

theorem mem_render_iff {c : UInt8} (hc : Separator c) (ts : List Token) :
    c ∈ render ts ↔ ∃ t ∈ ts, t.isRaw c = true := by
  simp [render,mem_text_iff hc]

theorem not_mem_render_iff {c : UInt8} (hc : Separator c) (ts : List Token) :
    c ∉ render ts ↔ ∀ t ∈ ts, t.isRaw c = false := by
  simp [mem_render_iff hc]

theorem splitOn_append_of_plain {c : UInt8} {p s : Bytes} (hp : ∀ x ∈ p, (x == c) = false) :
    (p++s).splitOn c = (s.splitOn c).modifyHead (p++·) := by
  induction p with
  | nil =>
    cases hs : s.splitOn c with
    | nil => exact absurd hs (List.splitOn_ne_nil _ _)
    | cons y ys => simp [hs]
  | cons x p ih =>
    have hx := hp x (by simp)
    rw [List.cons_append,List.splitOn_cons_eq_if_modifyHead,hx,
      ih (fun y hy => hp y (by simp [hy]))]
    cases s.splitOn c <;> simp

/-- Splitting the text is splitting its tokens. -/
theorem splitOn_render {c : UInt8} (hc : Separator c) (ts : List Token) :
    (render ts).splitOn c = (ts.splitOnP (Token.isRaw c)).map render := by
  induction ts with
  | nil => simp [List.splitOn_eq_splitOnP,List.splitOnP_nil]
  | cons t ts ih =>
    rw [render_cons,List.splitOnP_cons_eq_if_modifyHead]
    cases hr : t.isRaw c with
    | true =>
      have ht : t.text = [c] := by
        cases t with
        | raw d hd => simpa [Token.isRaw,Token.text] using hr
        | esc hi lo h => simp [Token.isRaw] at hr
      rw [ht,List.singleton_append,List.splitOn_cons_eq_if_modifyHead,ih]
      simp
    | false =>
      have hn : ∀ x ∈ t.text, (x == c) = false := by
        intro x hx
        simp only [beq_eq_false_iff_ne]
        rintro rfl
        exact absurd ((mem_text_iff hc t).mp hx) (by simp [hr])
      rw [splitOn_append_of_plain hn,ih]
      cases hs : ts.splitOnP (Token.isRaw c) with
      | nil => exact absurd hs (List.splitOnP_ne_nil _ _)
      | cons p ps => simp

/-- The decoded segments of a rendered text. -/
theorem splitOn_render_decoded {c : UInt8} (hc : Separator c) (ts : List Token) :
    ((render ts).splitOn c).map percentDecode =
      (ts.splitOnP (Token.isRaw c)).map (List.map Token.value) := by
  rw [splitOn_render hc,List.map_map]
  exact List.map_congr_left fun us _ => percentDecode_render us

/-- Joining the decoded segments again gives the decoded text. -/
theorem intercalate_values (c : UInt8) (ts : List Token) :
    [c].intercalate ((ts.splitOnP (Token.isRaw c)).map (List.map Token.value)) =
      ts.map Token.value := by
  induction ts with
  | nil => simp [List.splitOnP_nil,List.intercalate]
  | cons t ts ih =>
    rw [List.splitOnP_cons_eq_if_modifyHead]
    cases hs : ts.splitOnP (Token.isRaw c) with
    | nil => exact absurd hs (List.splitOnP_ne_nil _ _)
    | cons p ps =>
      rw [hs] at ih
      cases hr : t.isRaw c with
      | true =>
        have hv := Token.isRaw_value hr
        simp only [if_true,List.map_cons,List.map_nil,hv,← ih]
        cases ps <;> simp [List.intercalate]
      | false =>
        simp only [Bool.false_eq_true,if_false,List.modifyHead_cons,List.map_cons,← ih]
        cases ps <;> simp [List.intercalate]

/-- The lower-case hexadecimal digit of a number below sixteen. -/
def hexDigit (n : ℕ) : UInt8 := if n < 10 then UInt8.ofNat (0x30+n) else UInt8.ofNat (0x57+n)

theorem hexValue?_hexDigit : ∀ n < 16, hexValue? (hexDigit n) = some n := by decide

theorem hexPair?_hexDigit (c : UInt8) :
    hexPair? (hexDigit (c.toNat/16)) (hexDigit (c.toNat%16)) = some c := by
  have hc := c.toNat_lt
  have h1 := hexValue?_hexDigit (c.toNat/16) (by omega)
  have h2 := hexValue?_hexDigit (c.toNat%16) (by omega)
  have h3 : 16*(c.toNat/16)+c.toNat%16 = c.toNat := by omega
  simp only [hexPair?,h1,h2,Option.pure_def,Option.bind_eq_bind,Option.bind_some,h3,
    UInt8.ofNat_toNat]

/-- Encode one byte: keep it, or spell it as an escape. -/
def encodeToken (keep : UInt8 → Bool) (c : UInt8) : Token :=
  if h : keep c = true ∧ c ≠ 0x25 then .raw c h.2
  else .esc (hexDigit (c.toNat/16)) (hexDigit (c.toNat%16)) (by simp [hexPair?_hexDigit])

@[simp] theorem encodeToken_value (keep : UInt8 → Bool) (c : UInt8) :
    (encodeToken keep c).value = c := by
  unfold encodeToken
  split
  · rfl
  · simp [Token.value,hexPair?_hexDigit]

theorem encodeToken_isRaw (keep : UInt8 → Bool) (c d : UInt8) :
    (encodeToken keep c).isRaw d = decide (keep c = true ∧ c ≠ 0x25 ∧ c = d) := by
  unfold encodeToken
  split
  · simp_all [Token.isRaw]
  · rename_i h
    simp only [Token.isRaw,Bool.false_eq,decide_eq_false_iff_not]
    exact fun hk => h ⟨hk.1,hk.2.1⟩

/-- Encode the bytes of a C string. -/
def encode (keep : UInt8 → Bool) (s : Bytes) : Bytes := render (s.map (encodeToken keep))

theorem encode_append_of_kept {keep : UInt8 → Bool} {p : Bytes}
    (hp : ∀ c ∈ p, keep c = true ∧ c ≠ 0x25) (s : Bytes) :
    encode keep (p++s) = p++encode keep s := by
  induction p with
  | nil => rfl
  | cons c p ih =>
    have hc := hp c (by simp)
    have ht : encodeToken keep c = .raw c hc.2 := by simp [encodeToken,hc]
    have hs := ih (fun d hd => hp d (by simp [hd]))
    simp only [encode] at hs ⊢
    rw [List.cons_append,List.map_cons,render_cons,ht,hs,Token.text,List.singleton_append,
      List.cons_append]

/-- A predicate that counts as often as a weaker one holds wherever the weaker one does. -/
theorem of_countP_eq {α : Type*} {p q : α → Bool} {l : List α} (h : ∀ x ∈ l, p x → q x)
    (hc : l.countP p = l.countP q) : ∀ x ∈ l, q x → p x := by
  induction l with
  | nil => simp
  | cons y l ih =>
    have hy := h y (by simp)
    have hl : ∀ x ∈ l, p x → q x := fun x hx => h x (by simp [hx])
    have hm := List.countP_mono_left hl
    rw [List.countP_cons,List.countP_cons] at hc
    cases hp : p y <;> cases hq : q y <;> simp_all

section Reencode

variable {keep : UInt8 → Bool} {scheme : Bytes}

/-- Escapes that decode to a separator or end the string, and separators that
the encoder escapes. -/
def Stable (t : Token) : Prop :=
  t.isRaw 0x3f = false ∧ t.isRaw 0x23 = false ∧ (t.value = 0x2f → t.isRaw 0x2f = true) ∧ t.value ≠ 0

instance (t : Token) : Decidable (Stable t) := inferInstanceAs (Decidable (_ ∧ _))

theorem notMem_encode {c : UInt8} (hc : Separator c) (hk : keep c = false) (s : Bytes) :
    c ∉ encode keep s := by
  rw [encode,not_mem_render_iff hc]
  intro t ht
  obtain ⟨d,_,rfl⟩ := List.mem_map.mp ht
  rw [encodeToken_isRaw]
  simp only [decide_eq_false_iff_not]
  rintro ⟨hd,_,rfl⟩
  simp [hk] at hd

theorem encodeToken_isRaw_slash (hslash : keep 0x2f = true) (c : UInt8) :
    (encodeToken keep c).isRaw 0x2f = decide (c = 0x2f) := by
  rw [encodeToken_isRaw]
  congr 1
  apply propext
  constructor
  · exact fun h => h.2.2
  · rintro rfl; exact ⟨hslash,by decide,rfl⟩

/-- The segments of the re-encoded text are cut at every byte `/` of the decoded one. -/
theorem splitOn_encode_decoded (hslash : keep 0x2f = true) (s : Bytes) :
    ((encode keep s).splitOn 0x2f).map percentDecode = s.splitOn 0x2f := by
  rw [encode,splitOn_render_decoded (by decide),
    splitOnP_map (encodeToken keep) (· == 0x2f) (Token.isRaw 0x2f) s
      (fun c _ => by rw [encodeToken_isRaw_slash hslash]; rfl),
    List.map_map,← List.splitOn_eq_splitOnP]
  conv_rhs => rw [← List.map_id (s.splitOn 0x2f)]
  apply List.map_congr_left
  intro p _
  simp [Function.comp_def]

/-- A re-encoded URL has neither query nor fragment. -/
theorem splitUrl_reencode (hs : (0x3a : UInt8) ∉ scheme) (hquery : keep 0x3f = false)
    (hfrag : keep 0x23 = false) (s : Bytes) :
    splitUrl (withScheme scheme (encode keep s)) =
      some ⟨scheme,(encode keep s).splitOn 0x2f,none,none⟩ :=
  splitUrl_plain hs (notMem_encode (by decide) hfrag s) (notMem_encode (by decide) hquery s)

theorem stable_of_sameComponents (hs : (0x3a : UInt8) ∉ scheme)
    (hslash : keep 0x2f = true) (hquery : keep 0x3f = false) (hfrag : keep 0x23 = false)
    {ts : List Token} (h : SameComponents (withScheme scheme (render ts))
      (withScheme scheme (encode keep (cstr (ts.map Token.value))))) :
    ∀ t ∈ ts, Stable t := by
  obtain ⟨p,q,hp,hq,he⟩ := h
  rw [splitUrl_reencode hs hquery hfrag] at hq
  obtain rfl := Option.some.inj hq
  rw [splitUrl_withScheme hs] at hp
  obtain rfl := Option.some.inj hp
  simp only [Components.decoded,Components.mk.injEq,Option.map_none,Option.map_eq_none_iff,
    true_and] at he
  -- the re-encoded side has neither query nor fragment, so the original has none
  obtain ⟨hh,hqn,hfn⟩ := he
  have hf := notMem_of_cutAt_none hfn
  rw [cutAt_of_notMem hf] at hqn hh
  have hqm := notMem_of_cutAt_none hqn
  rw [cutAt_of_notMem hqm,splitOn_encode_decoded hslash,splitOn_render_decoded (by decide)] at hh
  -- joining the segments again: nothing was cut off by a NUL
  have hjoin := congrArg ([(0x2f : UInt8)].intercalate ·) hh
  simp only [intercalate_values,List.intercalate_splitOn] at hjoin
  have hnul : ∀ t ∈ ts, t.value ≠ 0 := by
    intro t ht
    exact cstr_ne_zero (hjoin ▸ List.mem_map_of_mem ht)
  -- as many segments as `/` bytes: every one of them is raw
  have hcount := congrArg List.length hh
  rw [← hjoin,List.length_map,length_splitOnP,List.splitOn_eq_splitOnP,length_splitOnP,
    List.countP_map] at hcount
  have hraw : ∀ t ∈ ts, t.value = 0x2f → t.isRaw 0x2f = true := by
    intro t ht hval
    refine of_countP_eq (q := (· == 0x2f) ∘ Token.value) ?_ (Nat.succ.inj hcount) t ht
      (by simpa using hval)
    intro u _ hu
    simpa using Token.isRaw_value hu
  intro t ht
  exact ⟨(not_mem_render_iff (by decide) ts).mp hqm t ht,
    (not_mem_render_iff (by decide) ts).mp hf t ht,hraw t ht,hnul t ht⟩

theorem sameComponents_of_stable (hs : (0x3a : UInt8) ∉ scheme)
    (hslash : keep 0x2f = true) (hquery : keep 0x3f = false) (hfrag : keep 0x23 = false)
    {ts : List Token} (h : ∀ t ∈ ts, Stable t) :
    SameComponents (withScheme scheme (render ts))
      (withScheme scheme (encode keep (cstr (ts.map Token.value)))) := by
  have hf : (0x23 : UInt8) ∉ render ts :=
    (not_mem_render_iff (by decide) ts).mpr fun t ht => (h t ht).2.1
  have hqm : (0x3f : UInt8) ∉ render ts :=
    (not_mem_render_iff (by decide) ts).mpr fun t ht => (h t ht).1
  have hcs : cstr (ts.map Token.value) = ts.map Token.value := by
    apply cstr_eq_self
    intro c hc
    obtain ⟨t,ht,rfl⟩ := List.mem_map.mp hc
    exact (h t ht).2.2.2
  refine ⟨_,_,splitUrl_plain hs hf hqm,splitUrl_reencode hs hquery hfrag _,?_⟩
  simp only [Components.decoded,Components.mk.injEq,Option.map_none,true_and,and_true]
  rw [splitOn_encode_decoded hslash,splitOn_render_decoded (by decide),hcs,
    List.splitOn_eq_splitOnP,splitOnP_map Token.value (Token.isRaw 0x2f) (· == 0x2f)]
  intro t ht
  rw [Bool.eq_iff_iff]
  simp only [beq_iff_eq]
  exact ⟨(h t ht).2.2.1,Token.isRaw_value⟩

/-- Decoding and encoding again keeps the components exactly when every token is stable. -/
theorem sameComponents_reencode_iff (hs : (0x3a : UInt8) ∉ scheme)
    (hslash : keep 0x2f = true) (hquery : keep 0x3f = false) (hfrag : keep 0x23 = false)
    (ts : List Token) :
    SameComponents (withScheme scheme (render ts))
        (withScheme scheme (encode keep (cstr (ts.map Token.value)))) ↔
      ∀ t ∈ ts, Stable t :=
  ⟨stable_of_sameComponents hs hslash hquery hfrag,sameComponents_of_stable hs hslash hquery hfrag⟩

end Reencode

end UrlComponents
end RemotePkgInstaller
