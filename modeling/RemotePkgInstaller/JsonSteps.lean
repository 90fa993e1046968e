import RemotePkgInstaller.JsonDocument
import Mathlib.Logic.Relation

/-! What one round of the reader's loop does with each kind of text that can follow, and
the reading of texts written with the standard escapes. -/
namespace RemotePkgInstaller
namespace TinyJson

open Decimal JsonText

/-- A string written with the standard escapes is read back. -/
theorem parseString_escaped {s : Bytes} (hs : ∀ c ∈ s, isTextByte c = true) (rest : Bytes) :
    parseString (escape s++0x22::rest) = some (s,rest) := by
  rw [parseString_eq,literal?_escape hs]
  simp [flatten,Function.comp_def]

theorem propertyName_escaped {s : Bytes} (hs : ∀ c ∈ s, isTextByte c = true) (rest : Bytes) :
    propertyName (0x22::(escape s++0x22::0x3a::rest)) = (goBlank rest).map (s,·) := by
  have hblank : goBlank (0x3a::rest) = some (0x3a::rest) := by
    simp [goBlank,show isBlank 0x3a = false by decide]
  simp [propertyName,parseString_escaped hs,hblank]

theorem scalarValue_escaped {s : Bytes} (hs : ∀ c ∈ s, isTextByte c = true) (rest : Bytes) :
    scalarValue (0x22::(escape s++0x22::rest)) =
      some (.text,.value (escape s++0x22::rest) s,rest) := by
  simp [scalarValue,textValue,parseString_escaped hs]

section Steps

variable {qty : ℕ} {st : State} {obj : Node} {s : Bytes}

theorem objStep_comma (hblank : goBlank st.ptr = some (0x2c::s)) (hobj : st.nodes[st.obj]? = some obj) :
    objStep qty st = .more { st with ptr := s } := by
  simp [objStep,hblank,hobj]

theorem objStep_close (hblank : goBlank st.ptr = some (endChar obj::s))
    (hobj : st.nodes[st.obj]? = some obj) (hroot : obj.sibling = none) :
    objStep qty st = .done st.nodes := by
  have hend : endChar obj ≠ 0x2c := by
    unfold endChar
    split_ifs <;> decide
  simp [objStep,hblank,hobj,hend,hroot]

/-- A property of an object, with a value that is not an object or array. -/
theorem objStep_scalar {name ptr next : Bytes} {u : Payload} {type : JsonType}
    (hblank : goBlank st.ptr = some (0x22::s)) (hobj : st.nodes[st.obj]? = some obj)
    (htype : obj.type = .obj) (hroom : st.nodes.length < qty)
    (hname : propertyName (0x22::s) = some (name,ptr)) (hbrace : ptr.head? ≠ some 0x7b)
    (hbracket : ptr.head? ≠ some 0x5b) (hvalue : scalarValue ptr = some (type,u,next)) :
    objStep qty st =
      .more ⟨next,st.obj,add st.nodes st.obj ⟨none,some name,u,type⟩⟩ := by
  have hend : endChar obj = 0x7d := by simp [endChar,htype]
  have hprop : newProperty st.obj (some name) ptr = some (⟨none,some name,u,type⟩,false,next) := by
    unfold newProperty
    split
    · simp at hbrace
    · simp at hbracket
    · simp [hvalue]
  simp [objStep,hblank,hobj,hend,nameAndValue,htype,hname,hprop,hroom]

/-- An object among the elements of an array. -/
theorem objStep_openElement (hblank : goBlank st.ptr = some (0x7b::s))
    (hobj : st.nodes[st.obj]? = some obj) (htype : obj.type = .array)
    (hroom : st.nodes.length < qty) :
    objStep qty st = .more ⟨s,st.nodes.length,
      add st.nodes st.obj ⟨some st.obj,none,.container none none,.obj⟩⟩ := by
  have hend : endChar obj = 0x5d := by simp [endChar,htype]
  simp [objStep,hblank,hobj,hend,nameAndValue,htype,newProperty,hroom]

/-- A property of an object that is an array. -/
theorem objStep_openArray {name next : Bytes} (hblank : goBlank st.ptr = some (0x22::s))
    (hobj : st.nodes[st.obj]? = some obj) (htype : obj.type = .obj)
    (hroom : st.nodes.length < qty) (hname : propertyName (0x22::s) = some (name,0x5b::next)) :
    objStep qty st = .more ⟨next,st.nodes.length,
      add st.nodes st.obj ⟨some st.obj,some name,.container none none,.array⟩⟩ := by
  have hend : endChar obj = 0x7d := by simp [endChar,htype]
  simp [objStep,hblank,hobj,hend,nameAndValue,htype,hname,newProperty,hroom]

/-- The end of an object or array that is not the root. -/
theorem objStep_leave {parent : ℕ} (hblank : goBlank st.ptr = some (endChar obj::s))
    (hobj : st.nodes[st.obj]? = some obj) (hparent : obj.sibling = some parent) :
    objStep qty st = .more ⟨s,parent,st.nodes.modify st.obj (setSibling none)⟩ := by
  have hend : endChar obj ≠ 0x2c := by
    unfold endChar
    split_ifs <;> decide
  simp [objStep,hblank,hobj,hend,hparent]

end Steps

section Leads

variable {qty : ℕ} {st st' st'' : State}

/-- The rounds of the loop take the one state to the other. -/
def Leads (qty : ℕ) : State → State → Prop :=
  Relation.ReflTransGen fun st st' => objStep qty st = .more st'

theorem Leads.refl (st : State) : Leads qty st st := Relation.ReflTransGen.refl

theorem Leads.head (h : objStep qty st = .more st') (h' : Leads qty st' st'') :
    Leads qty st st'' := Relation.ReflTransGen.head h h'

theorem Leads.trans (h : Leads qty st st') (h' : Leads qty st' st'') : Leads qty st st'' :=
  Relation.ReflTransGen.trans h h'

/-- Where the rounds lead to the end of the root, the loop ends there. -/
theorem objValue_of_leads {nodes : List Node} (h : Leads qty st st')
    (hdone : objStep qty st' = .done nodes) {fuel : ℕ} (hfuel : st.ptr.length < fuel) :
    objValue qty fuel st = some nodes := by
  induction h using Relation.ReflTransGen.head_induction_on generalizing fuel with
  | refl =>
    obtain ⟨fuel,rfl⟩ := Nat.exists_eq_add_one.mpr (Nat.zero_lt_of_lt hfuel)
    simp [objValue,hdone]
  | head hstep _ ih =>
    obtain ⟨fuel,rfl⟩ := Nat.exists_eq_add_one.mpr (Nat.zero_lt_of_lt hfuel)
    have hlen := (objStep_more hstep).2.2
    simp only [objValue,hstep]
    exact ih (by omega)

end Leads

section Numerals

theorem exceedsInt64_text {n : ℕ} (hn : n < 2^63) : exceedsInt64 (Decimal.text n) = false := by
  obtain ⟨c,ds,hcons,hc,_⟩ := text_cons n
  have hminus : (Decimal.text n).head? ≠ some 0x2d := by
    rw [hcons]
    simpa using head_ne_of_isdigit hc (show isdigit 0x2d = false by decide)
  have hmax : maxText = Decimal.text (2^63-1) := by decide +kernel
  have hlen : (Decimal.text n).length ≤ maxText.length :=
    text_length_le (by decide) (hn.trans (by decide))
  have hlt : (Decimal.text n).length = maxText.length → ¬ maxText < Decimal.text n := by
    intro hlength h
    have hle := value_le_of_not_lt hlength (text_isdigit n) (hmax ▸ text_isdigit _)
      (List.lt_asymm h)
    rw [value_text,hmax,value_text] at hle
    have heq : n = 2^63-1 := by omega
    rw [heq,← hmax] at h
    exact List.lt_irrefl _ h
  simp only [exceedsInt64,hminus,if_false,Bool.or_eq_false_iff,Bool.and_eq_false_iff,
    decide_eq_false_iff_not,beq_eq_false_iff_ne]
  refine ⟨not_lt.mpr hlen,?_⟩
  by_cases h : (Decimal.text n).length = maxText.length
  · exact Or.inr (hlt h)
  · exact Or.inl h

theorem goNum_text {ds : Bytes} (h : ∀ d ∈ ds, isdigit d = true) (rest : Bytes) :
    goNum (ds++0x2c::rest) = some (0x2c::rest) := by
  have hdrop : (ds++0x2c::rest).dropWhile isdigit = 0x2c::rest := by
    rw [List.dropWhile_append_of_pos h]
    rfl
  rw [goNum,hdrop]

theorem wholePart_text (n : ℕ) (rest : Bytes) :
    wholePart (Decimal.text n++0x2c::rest) = some (0x2c::rest) := by
  obtain ⟨c,ds,hcons,hc,hds⟩ := text_cons n
  by_cases hn : n = 0
  · subst hn
    rw [text_zero]
    rfl
  · have hhead := text_head_ne_zero hn (0x2c::rest)
    rw [hcons] at hhead ⊢
    unfold wholePart
    rw [if_pos (by simpa using hc)]
    split
    · next heq =>
      rw [heq] at hhead
      exact absurd rfl hhead
    · have hdigits : ∀ d ∈ c::ds, isdigit d = true := by
        intro d hd
        rcases List.mem_cons.mp hd with rfl | hd
        · exact hc
        · exact hds d hd
      exact goNum_text hdigits rest

/-- A number that is followed by a comma, which is read with it. -/
theorem scalarValue_text {n : ℕ} (hn : n < 2^63) (rest : Bytes) :
    scalarValue (Decimal.text n++0x2c::rest) =
      some (.integer,.value (Decimal.text n++0x2c::rest) (Decimal.text n),rest) := by
  obtain ⟨c,ds,hcons,hc,_⟩ := text_cons n
  have hne : ∀ d : UInt8, isdigit d = false → c ≠ d := fun d => head_ne_of_isdigit hc
  have hskip : skipMinus (Decimal.text n++0x2c::rest) = Decimal.text n++0x2c::rest := by
    rw [hcons]
    simp [skipMinus,hne 0x2d (by decide)]
  have hnum : scalarValue (Decimal.text n++0x2c::rest) = numValue (Decimal.text n++0x2c::rest) := by
    rw [hcons]
    simp [scalarValue,hne 0x22 (by decide),hne 0x74 (by decide),hne 0x66 (by decide),
      hne 0x6e (by decide)]
  have htake : (Decimal.text n++0x2c::rest).take
      ((Decimal.text n++0x2c::rest).length-(0x2c::rest).length) = Decimal.text n := by
    simp
  have hfraction : fractionPart (0x2c::rest) = some (.integer,0x2c::rest) := rfl
  have hexponent : exponentPart .integer (0x2c::rest) = some (.integer,0x2c::rest) := rfl
  have hends : endsPrimitive (0x2c::rest) = true := rfl
  have hnull : setToNull (0x2c::rest) = rest := rfl
  rw [hnum,numValue,hskip,wholePart_text]
  simp only [Option.bind_eq_bind,Option.bind_some,hfraction,hexponent,htake,hends,hnull,
    exceedsInt64_text hn,Bool.not_true,Bool.and_false,Bool.or_false,Bool.false_eq_true,if_false]

end Numerals

section Properties

variable {qty : ℕ} {obj : Node} {name : Bytes}

/-- Bytes that a string has as they are, between quotes. -/
def PlainText (s : Bytes) : Prop := ∀ c ∈ s, isTextByte c = true ∧ escapeByte c = [c]

theorem PlainText.escape {s : Bytes} (h : PlainText s) : JsonText.escape s = s := by
  induction s with
  | nil => rfl
  | cons c s ih =>
    have hc := (h c List.mem_cons_self).2
    have hs := ih fun d hd => h d (List.mem_cons_of_mem _ hd)
    rw [JsonText.escape,List.flatMap_cons,hc]
    exact congrArg (c::·) hs

/-- A property with a text, and what follows it. -/
def textProperty (name value rest : Bytes) : Bytes :=
  0x22::(name++0x22::0x3a::0x22::(value++0x22::rest))

/-- A property with a number that is not the last one. -/
def numberProperty (name : Bytes) (n : ℕ) (rest : Bytes) : Bytes :=
  0x22::(name++0x22::0x3a::(Decimal.text n++0x2c::rest))

/-- A property with an array, up to its first element. -/
def arrayProperty (name rest : Bytes) : Bytes := 0x22::(name++0x22::0x3a::0x5b::rest)

theorem goBlank_cons {c : UInt8} (hc : isBlank c = false) (s : Bytes) :
    goBlank (c::s) = some (c::s) := by
  simp [goBlank,hc]

theorem propertyName_plain (hname : PlainText name) {c : UInt8} (hc : isBlank c = false)
    (s : Bytes) : propertyName (0x22::(name++0x22::0x3a::c::s)) = some (name,c::s) := by
  have h := propertyName_escaped (fun c hc => (hname c hc).1) (c::s)
  rw [hname.escape,goBlank_cons hc] at h
  exact h

theorem objStep_textProperty {o : ℕ} {nodes : List Node} {value : Bytes} (hname : PlainText name)
    (hvalue : PlainText value) (rest : Bytes) (hobj : nodes[o]? = some obj)
    (htype : obj.type = .obj) (hroom : nodes.length < qty) :
    objStep qty ⟨textProperty name value rest,o,nodes⟩ = .more ⟨rest,o,
      add nodes o ⟨none,some name,.value (value++0x22::rest) value,.text⟩⟩ := by
  have hscalar := scalarValue_escaped (fun c hc => (hvalue c hc).1) rest
  rw [hvalue.escape] at hscalar
  exact objStep_scalar (goBlank_cons (by decide) _) hobj htype hroom
    (propertyName_plain hname (by decide) _) (by simp) (by simp) hscalar

theorem objStep_numberProperty {o n : ℕ} {nodes : List Node} (hname : PlainText name)
    (hn : n < 2^63) (rest : Bytes) (hobj : nodes[o]? = some obj) (htype : obj.type = .obj)
    (hroom : nodes.length < qty) :
    objStep qty ⟨numberProperty name n rest,o,nodes⟩ = .more ⟨rest,o,
      add nodes o ⟨none,some name,.value (Decimal.text n++0x2c::rest) (Decimal.text n),
        .integer⟩⟩ := by
  obtain ⟨c,ds,hcons,hc,_⟩ := text_cons n
  have hne : ∀ d : UInt8, isdigit d = false → c ≠ d := fun d => head_ne_of_isdigit hc
  have hblank : isBlank c = false := by
    have hall : ∀ d < 256, isBlank (UInt8.ofNat d) = true → isdigit (UInt8.ofNat d) = false := by
      decide +kernel
    by_contra h
    have hd := hall c.toNat c.toNat_lt (by simpa using h)
    rw [UInt8.ofNat_toNat,hc] at hd
    cases hd
  have hnamed : propertyName (0x22::(name++0x22::0x3a::(Decimal.text n++0x2c::rest))) =
      some (name,Decimal.text n++0x2c::rest) := by
    rw [hcons]
    exact propertyName_plain hname hblank _
  have hhead : (Decimal.text n++0x2c::rest).head? = some c := by rw [hcons]; rfl
  refine objStep_scalar (goBlank_cons (by decide) _) hobj htype hroom hnamed ?_ ?_
    (scalarValue_text hn rest)
  · rw [hhead]
    simpa using hne 0x7b (by decide)
  · rw [hhead]
    simpa using hne 0x5b (by decide)

theorem objStep_arrayProperty {o : ℕ} {nodes : List Node} (hname : PlainText name) (rest : Bytes)
    (hobj : nodes[o]? = some obj) (htype : obj.type = .obj) (hroom : nodes.length < qty) :
    objStep qty ⟨arrayProperty name rest,o,nodes⟩ = .more ⟨rest,nodes.length,
      add nodes o ⟨some o,some name,.container none none,.array⟩⟩ :=
  objStep_openArray (goBlank_cons (by decide) _) hobj htype hroom
    (propertyName_plain hname (by decide) _)

end Properties

end TinyJson
end RemotePkgInstaller
