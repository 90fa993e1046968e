import RemotePkgInstaller.TinyJson

/-! What the parser reads at one place: string literals, as the grammar has them
but for `\u` escapes, and numerals, of which only signed 64-bit integers pass as
integers.  Each reader moves forward in the text. -/
namespace RemotePkgInstaller
namespace TinyJson

open JsonText Decimal PercentCoding

section Strings

theorem getEscape_cases (e : UInt8) :
    (shortEscape? e = none ∧ getEscape e = 0) ∨
      ∃ v, shortEscape? e = some v ∧ getEscape e = v ∧ v ≠ 0 := by
  by_cases he : e ∈ escapePairs.map Prod.fst
  · revert e
    simp only [escapePairs,List.map_cons,List.map_nil,List.forall_mem_cons]
    decide +kernel
  · left
    simp only [escapePairs,List.map_cons,List.map_nil,List.mem_cons,not_or] at he
    obtain ⟨h1,h2,h3,h4,h5,h6,h7,h8,_⟩ := he
    constructor
    · simp [shortEscape?,h1,h2,h3,h4,h5,h6,h7,h8]
    · simp [getEscape,escapePairs,Ne.symm h1,Ne.symm h2,Ne.symm h3,Ne.symm h4,Ne.symm h5,
        Ne.symm h6,Ne.symm h7,Ne.symm h8]

theorem isSome_hexValue? (c : UInt8) : (hexValue? c).isSome = isxdigit c := by
  grind [hexValue?,isxdigit,isdigit]

theorem getCharFromUnicode_cases (w x y z : UInt8) :
    (hex4? w x y z = none ∧ getCharFromUnicode [w,x,y,z] = 0) ∨
      ∃ u, hex4? w x y z = some u ∧ getCharFromUnicode [w,x,y,z] = 0x3f := by
  have hw := isSome_hexValue? w
  have hx := isSome_hexValue? x
  have hy := isSome_hexValue? y
  have hz := isSome_hexValue? z
  unfold hex4? getCharFromUnicode
  simp only [List.all_cons,List.all_nil,← hw,← hx,← hy,← hz]
  cases hexValue? w <;> cases hexValue? x <;> cases hexValue? y <;> cases hexValue? z <;> simp

theorem parseString_quote (s : Bytes) : parseString (0x22::s) = some ([],s) := by
  rw [parseString.eq_def]
  simp

theorem parseString_escape {e : UInt8} {s : Bytes}
    (hne : ∀ w x y z t, e = 0x75 → s = w::x::y::z::t → False) :
    parseString (0x5c::e::s) = if getEscape e = 0 then none
      else (parseString s).map fun r => (getEscape e::r.1,r.2) := by
  rw [parseString.eq_def]
  simp only [show ¬ (0x5c : UInt8) < 0x20 by decide,show (0x5c : UInt8) ≠ 0x22 by decide,
    if_false,if_true]

/-- The parser accepts the literals of the grammar, and leaves `?` for a `\u` escape. -/
theorem parseString_eq (s : Bytes) :
    parseString s = (literal? s).map fun r => (flatten 0x3f r.1,r.2) := by
  fun_induction literal? s with
  | case1 => rfl
  | case2 c s h =>
    rw [parseString.eq_def]
    simp [h]
  | case3 s h => rw [parseString_quote]; rfl
  | case4 w x y z s u hu h20 h22 ih =>
    obtain ⟨hn,_⟩ | ⟨v,hv,hc⟩ := getCharFromUnicode_cases w x y z
    · rw [hn] at hu; cases hu
    · rw [parseString.eq_def]
      simp only [show ¬ (0x5c : UInt8) < 0x20 by decide,show (0x5c : UInt8) ≠ 0x22 by decide,
        if_false,if_true,hc,show (0x3f : UInt8) ≠ 0 by decide,ih]
      cases literal? s <;> rfl
  | case5 w x y z s hn =>
    obtain ⟨_,hc⟩ | ⟨v,hv,_⟩ := getCharFromUnicode_cases w x y z
    · rw [parseString.eq_def]
      simp [hc]
    · rw [hn] at hv; cases hv
  | case6 e s hne v hv h20 h22 ih =>
    obtain ⟨hn,_⟩ | ⟨w,hw,hc,h0⟩ := getEscape_cases e
    · rw [hn] at hv; cases hv
    · rw [hw] at hv
      injection hv with hv
      rw [parseString_escape hne,hc,if_neg h0,ih,hv]
      cases literal? s <;> rfl
  | case7 e s hne hv =>
    obtain ⟨_,hc⟩ | ⟨w,hw,_⟩ := getEscape_cases e
    · rw [parseString_escape hne,if_pos hc]
      rfl
    · rw [hw] at hv; cases hv
  | case8 => rfl
  | case9 c s h20 h22 h5c ih =>
    rw [parseString.eq_def]
    simp only [h20,h22,h5c,if_false,ih]
    cases literal? s <;> rfl

end Strings

section Progress

theorem parseString_suffix {s t : Bytes} {x : Bytes} (h : parseString s = some (x,t)) :
    0x22::t <:+ s := by
  fun_induction parseString s generalizing x t with
  | case1 => simp at h
  | case2 => simp at h
  | case3 s h20 =>
    injection h with h
    injection h with _ h
    exact h ▸ List.suffix_rfl
  | case4 => simp at h
  | case5 w x y z s hc h20 h22 ih =>
    obtain ⟨r,hr,he⟩ := Option.map_eq_some_iff.mp h
    injection he with _ he
    exact (he ▸ ih hr).trans (List.suffix_append [_,_,_,_,_,_] s)
  | case6 => simp at h
  | case7 e s hne he h20 h22 ih =>
    obtain ⟨r,hr,he⟩ := Option.map_eq_some_iff.mp h
    injection he with _ he
    exact (he ▸ ih hr).trans (List.suffix_append [_,_] s)
  | case8 => simp at h
  | case9 c s h20 h22 h5c ih =>
    obtain ⟨r,hr,he⟩ := Option.map_eq_some_iff.mp h
    injection he with _ he
    exact (he ▸ ih hr).trans (List.suffix_cons c s)

theorem goBlank_suffix {s t : Bytes} (h : goBlank s = some t) : t <:+ s := by
  unfold goBlank at h
  split at h
  · cases h
  · rename_i hd
    injection h with h
    rw [← h,← hd]
    exact List.dropWhile_suffix _

theorem goNum_eq {s t : Bytes} (h : goNum s = some t) : s.dropWhile isdigit = t := by
  unfold goNum at h
  split at h
  · cases h
  · rename_i hd
    injection h with h
    rw [hd,h]

theorem goNum_suffix {s t : Bytes} (h : goNum s = some t) : t <:+ s :=
  goNum_eq h ▸ List.dropWhile_suffix _

theorem propertyName_suffix {ptr t : Bytes} {name : Bytes}
    (h : propertyName ptr = some (name,t)) : t <:+ ptr ∧ t.length < ptr.length := by
  simp only [propertyName,Option.bind_eq_bind,Option.bind_eq_some_iff,Prod.exists] at h
  obtain ⟨n,p,hs,q,hb,h⟩ := h
  split at h
  · rename_i r
    obtain ⟨r',hr,he⟩ := Option.map_eq_some_iff.mp h
    injection he with _ he
    subst he
    have h1 := (goBlank_suffix hr).trans (List.suffix_cons 0x3a r)
    have h2 := (h1.trans (goBlank_suffix hb)).trans (List.suffix_cons 0x22 p)
    have h3 := h2.trans ((parseString_suffix hs).trans (List.tail_suffix ptr))
    refine ⟨h3,?_⟩
    have h4 := (goBlank_suffix hr).length_le
    have h5 := (goBlank_suffix hb).length_le
    have h6 := ((parseString_suffix hs).trans (List.tail_suffix ptr)).length_le
    simp only [List.length_cons] at h5 h6
    omega
  · cases h

theorem checkStr_eq {ptr str t : Bytes} (h : checkStr ptr str = some t) : ptr = str++t := by
  fun_induction checkStr ptr str with
  | case1 ptr => simpa using h
  | case2 ptr c str ih => rw [ih h]; rfl
  | case3 => cases h
  | case4 => cases h

theorem setToNull_suffix (s : Bytes) : setToNull s <:+ s := by
  unfold setToNull
  split
  · split_ifs
    · exact List.suffix_rfl
    · exact List.suffix_cons _ _
  · exact List.suffix_rfl

theorem wholePart_eq {s t : Bytes} (h : wholePart s = some t) :
    ∃ ds : Bytes, ds ≠ [] ∧ (∀ c ∈ ds, isdigit c = true) ∧ s = ds++t := by
  unfold wholePart at h
  split_ifs at h with hd
  split at h
  · rename_i u
    split_ifs at h
    injection h with h
    exact ⟨[0x30],by simp,by simp [isdigit],by rw [h]; rfl⟩
  · refine ⟨s.takeWhile isdigit,?_,fun c hc => List.mem_takeWhile_imp hc,?_⟩
    · cases s with
      | nil => simp at hd
      | cons c s =>
        have hc : isdigit c = true := by simpa using hd
        simp [hc]
    · rw [← goNum_eq h,List.takeWhile_append_dropWhile]

/-- What stands before a point or an exponent is an integer. -/
theorem wholePart_skipMinus_eq {s t : Bytes} (h : wholePart (skipMinus s) = some t) :
    ∃ string, IsInteger string ∧ s = string++t := by
  obtain ⟨ds,hne,hd,he⟩ := wholePart_eq h
  unfold skipMinus at he
  split at he
  · exact ⟨0x2d::ds,⟨ds,hne,hd,Or.inr rfl⟩,by rw [he]; rfl⟩
  · exact ⟨ds,⟨ds,hne,hd,Or.inl rfl⟩,he⟩

theorem fraqValue_suffix {s t : Bytes} (h : fraqValue s = some t) : t <:+ s := by
  unfold fraqValue at h
  split_ifs at h
  exact (goNum_suffix h).trans (List.tail_suffix s)

theorem expValue_suffix {s t : Bytes} (h : expValue s = some t) : t <:+ s := by
  unfold expValue at h
  simp only at h
  split_ifs at h
  refine ((goNum_suffix h).trans (List.tail_suffix _)).trans ?_
  split
  · exact List.suffix_cons _ _
  · exact List.suffix_cons _ _
  · exact List.suffix_rfl

end Progress

section Scalars

/-- A type fits its payload, and a value is what the parser reads at its pointer. -/
def Reads (type : JsonType) (u : Payload) : Prop :=
  match type,u with
  | .obj,.container _ _ => True
  | .array,.container _ _ => True
  | .text,.value ptr s => ∃ rest, parseString ptr = some (s,rest)
  | .boolean,.value _ s => s = bytes "true" ∨ s = bytes "false"
  | .integer,.value _ s => IsInteger s ∧ -2^63 ≤ integer s ∧ integer s < 2^63
  | .real,.value _ _ => True
  | .null,.value _ _ => True
  | _,_ => False

theorem value_le_threshold {ds es : Bytes} (hd : ∀ c ∈ ds, isdigit c = true)
    (he : ∀ c ∈ es, isdigit c = true) (hlen : 10^(es.length-1) ≤ value es+1)
    (hle : ds.length ≤ es.length) (h : ds.length = es.length → ¬ es < ds) :
    value ds ≤ value es := by
  rcases Nat.lt_or_eq_of_le hle with hlt | heq
  · have h1 := value_lt hd
    have h2 : 10^ds.length ≤ 10^(es.length-1) := Nat.pow_le_pow_right (by norm_num) (by omega)
    omega
  · exact value_le_of_not_lt heq.symm he hd (h heq)

/-- The text comparison refuses every integer outside the signed 64-bit range. -/
theorem integer_bounds {s : Bytes} (hs : IsInteger s) (h : exceedsInt64 s = false) :
    -2^63 ≤ integer s ∧ integer s < 2^63 := by
  obtain ⟨ds,hne,hd,rfl | rfl⟩ := hs
  · have hhead : s.head? ≠ some 0x2d := by
      intro hh
      have := hd 0x2d (List.mem_of_head? hh)
      exact absurd this (by decide)
    simp only [exceedsInt64,if_neg hhead,Bool.or_eq_false_iff,decide_eq_false_iff_not,
      Bool.and_eq_false_iff,beq_eq_false_iff_ne,not_lt] at h
    have hv := @value_le_threshold _ maxText hd (by decide +kernel) (by decide) h.1
      (fun hl => h.2.resolve_left fun h2 => h2 hl)
    have hm : value maxText = 2^63-1 := by decide
    have hi : integer s = value s := by
      unfold integer
      split
      · simp at hhead
      · rfl
    rw [hi]
    omega
  · have hm : value (minText.tail) = 2^63 := by decide
    have hlen : minText.length = minText.tail.length+1 := rfl
    simp only [exceedsInt64,List.head?_cons,if_true,Bool.or_eq_false_iff,decide_eq_false_iff_not,
      Bool.and_eq_false_iff,beq_eq_false_iff_ne,not_lt,List.length_cons,hlen,
      Nat.add_le_add_iff_right] at h
    have hv := @value_le_threshold _ minText.tail hd (by decide +kernel) (by decide) h.1
      (fun hl hlt => (h.2.resolve_left fun h2 => h2 (by rw [hl]))
        (List.cons_lt_cons_self.mpr hlt))
    have hi : integer (0x2d::ds) = -(value ds : ℤ) := rfl
    rw [hi]
    omega

theorem fractionPart_spec {s t : Bytes} {type : JsonType} (h : fractionPart s = some (type,t)) :
    t <:+ s ∧ (type = .integer ∧ t = s ∨ type = .real) := by
  unfold fractionPart at h
  split at h
  · obtain ⟨r,hr,he⟩ := Option.map_eq_some_iff.mp h
    injection he with h1 h2
    exact ⟨h2 ▸ (fraqValue_suffix hr).trans (List.suffix_cons _ _),Or.inr h1.symm⟩
  · injection h with h
    injection h with h1 h2
    exact ⟨h2 ▸ List.suffix_rfl,Or.inl ⟨h1.symm,h2.symm⟩⟩

theorem exponentPart_spec {s t : Bytes} {type ty : JsonType}
    (h : exponentPart ty s = some (type,t)) :
    t <:+ s ∧ (type = ty ∧ t = s ∨ type = .real) := by
  unfold exponentPart at h
  split at h
  · obtain ⟨r,hr,he⟩ := Option.map_eq_some_iff.mp h
    injection he with h1 h2
    exact ⟨h2 ▸ (expValue_suffix hr).trans (List.suffix_cons _ _),Or.inr h1.symm⟩
  · obtain ⟨r,hr,he⟩ := Option.map_eq_some_iff.mp h
    injection he with h1 h2
    exact ⟨h2 ▸ (expValue_suffix hr).trans (List.suffix_cons _ _),Or.inr h1.symm⟩
  · injection h with h
    injection h with h1 h2
    exact ⟨h2 ▸ List.suffix_rfl,Or.inl ⟨h1.symm,h2.symm⟩⟩

theorem numValue_spec {v t : Bytes} {type : JsonType} {u : Payload}
    (h : numValue v = some (type,u,t)) :
    Reads type u ∧ (∃ s, u = .value v s) ∧ t <:+ v ∧ t.length < v.length := by
  simp only [numValue,Option.bind_eq_bind,Option.bind_eq_some_iff,Prod.exists] at h
  obtain ⟨p,hp,ty₁,q,hq,ty₂,r,hr,h⟩ := h
  split_ifs at h with hend
  simp only [Option.some.injEq,Prod.mk.injEq] at h
  obtain ⟨rfl,rfl,rfl⟩ := h
  obtain ⟨string,hint,hv⟩ := wholePart_skipMinus_eq hp
  obtain ⟨hqs,hqt⟩ := fractionPart_spec hq
  obtain ⟨hrs,hrt⟩ := exponentPart_spec hr
  have hs := (setToNull_suffix r).trans (hrs.trans hqs)
  have hlen : 0 < string.length := by
    obtain ⟨ds,hne,_,rfl | rfl⟩ := hint
    · exact List.length_pos_iff.mpr hne
    · simp
  refine ⟨?_,⟨_,rfl⟩,hv ▸ hs.trans (List.suffix_append _ _),?_⟩
  · rcases hrt with ⟨hty,hrq⟩ | hty
    · rcases hqt with ⟨hty',hqp⟩ | hty'
      · have hstr : v.take (v.length-r.length) = string := by
          rw [hrq,hqp,hv,List.length_append,Nat.add_sub_cancel,List.take_left]
        simp only [hty,hty',decide_true,Bool.true_and,Bool.or_eq_true,not_or,
          Bool.not_eq_true,hstr] at hend ⊢
        exact ⟨hint,integer_bounds hint hend.2⟩
      · simp [Reads,hty,hty']
    · simp [Reads,hty]
  · have := hs.length_le
    rw [hv,List.length_append]
    omega

theorem textValue_spec {v t : Bytes} {type : JsonType} {u : Payload}
    (h : textValue v = some (type,u,t)) :
    Reads type u ∧ (∃ s, u = .value v.tail s) ∧ t <:+ v ∧ t.length < v.length := by
  obtain ⟨r,hr,he⟩ := Option.map_eq_some_iff.mp h
  simp only [Prod.mk.injEq] at he
  obtain ⟨rfl,rfl,rfl⟩ := he
  have hs := (parseString_suffix hr).trans (List.tail_suffix v)
  refine ⟨⟨r.2,hr⟩,⟨r.1,rfl⟩,(List.suffix_cons _ _).trans hs,?_⟩
  have := hs.length_le
  simp only [List.length_cons] at this
  omega

theorem primitiveValue_spec {v value t : Bytes} {type ty : JsonType} {u : Payload}
    (hne : value ≠ []) (h : primitiveValue v value ty = some (type,u,t)) :
    type = ty ∧ u = .value v value ∧ t <:+ v ∧ t.length < v.length := by
  unfold primitiveValue at h
  split at h
  · rename_i next hnext
    split_ifs at h
    simp only [Option.some.injEq,Prod.mk.injEq] at h
    obtain ⟨rfl,rfl,rfl⟩ := h
    have hv := checkStr_eq hnext
    have hs := setToNull_suffix next
    refine ⟨rfl,rfl,hv ▸ hs.trans (List.suffix_append _ _),?_⟩
    have h1 := hs.length_le
    have h2 := List.length_pos_iff.mpr hne
    rw [hv,List.length_append]
    omega
  · cases h

theorem scalarValue_spec {v t : Bytes} {type : JsonType} {u : Payload}
    (h : scalarValue v = some (type,u,t)) :
    Reads type u ∧ (∃ p s, u = .value p s ∧ p <:+ v) ∧ t <:+ v ∧ t.length < v.length := by
  unfold scalarValue at h
  split at h
  · obtain ⟨hr,⟨s,hs⟩,ht⟩ := textValue_spec h
    exact ⟨hr,⟨_,s,hs,List.tail_suffix _⟩,ht⟩
  · obtain ⟨rfl,rfl,ht⟩ := primitiveValue_spec (by decide) h
    exact ⟨Or.inl rfl,⟨_,_,rfl,List.suffix_rfl⟩,ht⟩
  · obtain ⟨rfl,rfl,ht⟩ := primitiveValue_spec (by decide) h
    exact ⟨Or.inr rfl,⟨_,_,rfl,List.suffix_rfl⟩,ht⟩
  · obtain ⟨rfl,rfl,ht⟩ := primitiveValue_spec (by decide) h
    exact ⟨trivial,⟨_,_,rfl,List.suffix_rfl⟩,ht⟩
  · obtain ⟨hr,⟨s,hs⟩,ht⟩ := numValue_spec h
    exact ⟨hr,⟨v,s,hs,List.suffix_rfl⟩,ht⟩

end Scalars

end TinyJson
end RemotePkgInstaller
