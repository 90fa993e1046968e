import RemotePkgInstaller.ReferenceJson

/-! Whole json documents, with objects and arrays in each other as deep as they like and blanks
between the tokens: the parser takes them as soon as its pool has a node for every value, and the
walk over its nodes finds the document that was spelled. -/
namespace RemotePkgInstaller
namespace JsonTrees

open Decimal JsonText ReferenceJson Responses TinyJson

/-- What a document without fractions says. -/
inductive Json
  | text (s : Bytes)
  | integer (n : ℤ)
  | boolean (b : Bool)
  | null
  | array (elements : List Json)
  | obj (members : List (Bytes × Json))

/-- What is in an object or array, with the names that an object gives. -/
abbrev Item := Option Bytes × Json

def elementItems (elements : List Json) : List Item := elements.map fun j => (none,j)

def memberItems (members : List (Bytes × Json)) : List Item :=
  members.map fun m => (some m.1,m.2)

mutual

/-- How many values there are, the containers included. -/
def Json.size : Json → ℕ
  | .array elements => elementsSize elements+1
  | .obj members => membersSize members+1
  | _ => 1

def elementsSize : List Json → ℕ
  | [] => 0
  | j::elements => j.size+elementsSize elements

def membersSize : List (Bytes × Json) → ℕ
  | [] => 0
  | (_,j)::members => j.size+membersSize members

end

def itemsSize (items : List Item) : ℕ := (items.map fun item => item.2.size).sum

theorem size_array (elements : List Json) :
    (Json.array elements).size = itemsSize (elementItems elements)+1 := by
  rw [Json.size]
  congr 1
  induction elements with
  | nil => rfl
  | cons j elements ih =>
    rw [elementsSize,ih]
    rfl

theorem size_obj (members : List (Bytes × Json)) :
    (Json.obj members).size = itemsSize (memberItems members)+1 := by
  rw [Json.size]
  congr 1
  induction members with
  | nil => rfl
  | cons m members ih =>
    rw [membersSize,ih]
    rfl

theorem itemsSize_cons (name : Option Bytes) (j : Json) (items : List Item) :
    itemsSize ((name,j)::items) = j.size+itemsSize items := by
  rw [itemsSize,List.map_cons,List.sum_cons]
  rfl

section Grammar

/-- A string between its quotes, with every byte plain or in one of the short escapes. -/
inductive Quoted : Bytes → Bytes → Prop
  | nil : Quoted [] []
  | plain {c : UInt8} {s lit : Bytes} (h20 : ¬ c < 0x20) (h22 : c ≠ 0x22) (h5c : c ≠ 0x5c)
      (h : Quoted s lit) : Quoted (c::s) (c::lit)
  | escaped {e v : UInt8} {s lit : Bytes} (hv : shortEscape? e = some v) (h : Quoted s lit) :
      Quoted (v::s) (0x5c::e::lit)

def Blank (w : Bytes) : Prop := ∀ c ∈ w, isBlank c = true

instance (w : Bytes) : Decidable (Blank w) := List.decidableBAll (fun c => isBlank c = true) w

/-- What stands in front of a value in an object or array. -/
inductive Label : JsonType → Option Bytes → Bytes → Prop
  | array : Label .array none []
  | obj {name lit w w' : Bytes} (h : Quoted name lit) (hw : Blank w) (hw' : Blank w') :
      Label .obj (some name) (0x22::(lit++0x22::(w++0x3a::w')))

/-- What an object or array ends with. -/
def closing (type : JsonType) : UInt8 := if type = .obj then 0x7d else 0x5d

mutual

/-- The texts of a value. -/
inductive Spells : Json → Bytes → Prop
  | text {s lit : Bytes} (h : Quoted s lit) : Spells (.text s) (0x22::(lit++[0x22]))
  | integer {n : ℤ} (hlow : -2^63 ≤ n) (hhigh : n < 2^63) : Spells (.integer n) (intText n)
  | boolTrue : Spells (.boolean true) (bytes "true")
  | boolFalse : Spells (.boolean false) (bytes "false")
  | null : Spells .null (bytes "null")
  | array {elements : List Json} {s : Bytes} (h : Items .array (elementItems elements) s) :
      Spells (.array elements) (0x5b::s)
  | obj {members : List (Bytes × Json)} {s : Bytes} (h : Items .obj (memberItems members) s) :
      Spells (.obj members) (0x7b::s)

/-- The texts of what is in an object or array, from behind the bracket to the one that closes. -/
inductive Items : JsonType → List Item → Bytes → Prop
  | nil {type : JsonType} {w : Bytes} (hw : Blank w) : Items type [] (w++[closing type])
  | last {type : JsonType} {name : Option Bytes} {j : Json} {w l s w' : Bytes} (hw : Blank w)
      (hl : Label type name l) (hs : Spells j s) (hw' : Blank w') :
      Items type [(name,j)] (w++(l++(s++(w'++[closing type]))))
  | cons {type : JsonType} {name : Option Bytes} {j : Json} {item : Item} {items : List Item}
      {w l s w' t : Bytes} (hw : Blank w) (hl : Label type name l) (hs : Spells j s)
      (hw' : Blank w') (ht : Items type (item::items) t) :
      Items type ((name,j)::item::items) (w++(l++(s++(w'++0x2c::t))))

end

end Grammar

section Nodes

mutual

/-- The node of a value at index `b`, with everything below it. -/
inductive Holds : ℕ → Option Bytes → Json → Subtree → Prop
  | text {b : ℕ} {name : Option Bytes} {s : Bytes} (ptr : Bytes) :
      Holds b name (.text s) (leaf ⟨none,name,.value ptr s,.text⟩)
  | integer {b : ℕ} {name : Option Bytes} {n : ℤ} (ptr : Bytes) :
      Holds b name (.integer n) (leaf ⟨none,name,.value ptr (intText n),.integer⟩)
  | boolean {b : ℕ} {name : Option Bytes} {v : Bool} (ptr : Bytes) :
      Holds b name (.boolean v)
        (leaf ⟨none,name,.value ptr (if v then bytes "true" else bytes "false"),.boolean⟩)
  | null {b : ℕ} {name : Option Bytes} (ptr : Bytes) :
      Holds b name .null (leaf ⟨none,name,.value ptr (bytes "null"),.null⟩)
  | array {b parent : ℕ} {name : Option Bytes} {elements : List Json} {ts : List Subtree}
      (h : HoldsAll (b+1) (elementItems elements) ts) :
      Holds b name (.array elements)
        (closed b ⟨some parent,name,.container none none,.array⟩ ts)
  | obj {b parent : ℕ} {name : Option Bytes} {members : List (Bytes × Json)} {ts : List Subtree}
      (h : HoldsAll (b+1) (memberItems members) ts) :
      Holds b name (.obj members) (closed b ⟨some parent,name,.container none none,.obj⟩ ts)

/-- The children of an object or array, from index `b` on. -/
inductive HoldsAll : ℕ → List Item → List Subtree → Prop
  | nil {b : ℕ} : HoldsAll b [] []
  | cons {b : ℕ} {name : Option Bytes} {j : Json} {items : List Item} {t : Subtree}
      {ts : List Subtree} (h : Holds b name j t) (hs : HoldsAll (b+t.size) items ts) :
      HoldsAll b ((name,j)::items) (t::ts)

end

/-- The document that the nodes make, by the functions that the program reads them with. -/
def readBack (nodes : List Node) : ℕ → Node → Option Json
  | 0,_ => none
  | fuel+1,node =>
    match jsonGetType node with
    | .text => some (.text (jsonGetValue node))
    | .integer => some (.integer (jsonGetInteger node))
    | .real => none
    | .boolean => some (.boolean (jsonGetBoolean node))
    | .null => some .null
    | .array => ((children nodes node).mapM (readBack nodes fuel)).map .array
    | .obj =>
      ((children nodes node).mapM fun (child : Node) => do
        let name ← child.name
        let j ← readBack nodes fuel child
        pure (name,j)).map .obj

end Nodes

section Scalars

variable {rest s lit : Bytes}

theorem parseString_quoted (h : Quoted s lit) (rest : Bytes) :
    parseString (lit++0x22::rest) = some (s,rest) := by
  have hliteral : literal? (lit++0x22::rest) = some (s.map JsonText.Item.byte,rest) := by
    induction h with
    | nil => exact literal?_quote rest
    | plain h20 h22 h5c _ ih =>
      rw [List.cons_append,literal?_plain h20 h22 h5c,ih]
      rfl
    | escaped hv _ ih =>
      rw [List.cons_append,List.cons_append,literal?_short hv,ih]
      rfl
  rw [parseString_eq,hliteral]
  simp [flatten,Function.comp_def]

/-- Where a number or a word may end. -/
theorem endsPrimitive_cons (h : endsPrimitive rest = true) : ∃ c r, rest = c::r ∧
    isdigit c = false ∧ c ≠ 0x2e ∧ c ≠ 0x65 ∧ c ≠ 0x45 := by
  have hall : ∀ n < 256, isEndOfPrimitive (UInt8.ofNat n) = true →
      isdigit (UInt8.ofNat n) = false ∧ UInt8.ofNat n ≠ 0x2e ∧ UInt8.ofNat n ≠ 0x65 ∧
        UInt8.ofNat n ≠ 0x45 := by decide +kernel
  cases rest with
  | nil => cases h
  | cons c r =>
    have hc := hall c.toNat c.toNat_lt
    rw [UInt8.ofNat_toNat] at hc
    exact ⟨c,r,rfl,hc (by simpa [endsPrimitive] using h)⟩

/-- A numeral that is no longer than another one and not behind it. -/
theorem text_not_gt {m n k : ℕ} (hmn : m ≤ n) (hn : n < 10^k) (hlen : (Decimal.text n).length = k)
    (hk : 0 < k) : (Decimal.text m).length ≤ (Decimal.text n).length ∧
      ((Decimal.text m).length = (Decimal.text n).length →
        ¬ Decimal.text n < Decimal.text m) := by
  refine ⟨hlen ▸ text_length_le hk (Nat.lt_of_le_of_lt hmn hn),fun hlength hlt => ?_⟩
  have hle := value_le_of_not_lt hlength (text_isdigit m) (text_isdigit n) (List.lt_asymm hlt)
  rw [value_text,value_text] at hle
  obtain rfl := Nat.le_antisymm hmn hle
  exact List.lt_irrefl _ hlt

theorem exceedsInt64_intText {n : ℤ} (hlow : -2^63 ≤ n) (hhigh : n < 2^63) :
    exceedsInt64 (intText n) = false := by
  unfold intText
  split_ifs with hneg
  · have hmin : minText = 0x2d::Decimal.text (2^63) := by decide +kernel
    obtain ⟨hle,hlt⟩ := text_not_gt (m := n.natAbs) (n := 2^63) (k := 19) (by omega) (by decide)
      (by decide +kernel) (by decide)
    simp only [exceedsInt64,List.head?_cons,if_true,hmin,List.length_cons,
      Nat.add_lt_add_iff_right,Bool.or_eq_false_iff,Bool.and_eq_false_iff,decide_eq_false_iff_not,
      beq_eq_false_iff_ne]
    refine ⟨not_lt.mpr hle,?_⟩
    by_cases hlength : (Decimal.text n.natAbs).length = (Decimal.text (2^63)).length
    · refine Or.inr fun h => hlt hlength ?_
      simpa using h
    · exact Or.inl fun h => hlength (by omega)
  · exact exceedsInt64_text (by omega)

theorem wholePart_digits (n : ℕ) (h : endsPrimitive rest = true) :
    wholePart (Decimal.text n++rest) = some rest := by
  obtain ⟨d,r,rfl,hd,-⟩ := endsPrimitive_cons h
  obtain ⟨c,ds,hcons,hc,hds⟩ := text_cons n
  by_cases hn : n = 0
  · subst hn
    rw [text_zero]
    simp [wholePart,hd,show isdigit 0x30 = true by decide]
  · have hhead := text_head_ne_zero hn (d::r)
    rw [hcons] at hhead ⊢
    unfold wholePart
    rw [if_pos (by simpa using hc)]
    split
    · next heq =>
      rw [heq] at hhead
      exact absurd rfl hhead
    · have hdigits : ∀ d ∈ c::ds, isdigit d = true := by
        intro d hd
        rcases List.mem_cons.mp hd with rfl | hd
        · exact hc
        · exact hds d hd
      have hstop : ¬ isdigit d = true := by rw [hd]; exact Bool.false_ne_true
      rw [goNum,List.dropWhile_append_of_pos hdigits,List.dropWhile_cons_of_neg hstop]

/-- Behind the sign of a number. -/
theorem skipMinus_intText (n : ℤ) :
    skipMinus (intText n++rest) = Decimal.text n.natAbs++rest := by
  unfold intText
  split_ifs
  · rfl
  · obtain ⟨c,ds,hcons,hc,-⟩ := text_cons n.natAbs
    rw [hcons]
    unfold skipMinus
    split
    · next heq =>
      cases heq
      exact absurd hc (by decide)
    · rfl

theorem numValue_intText {n : ℤ} (hlow : -2^63 ≤ n) (hhigh : n < 2^63)
    (h : endsPrimitive rest = true) : numValue (intText n++rest) =
      some (.integer,.value (intText n++rest) (intText n),setToNull rest) := by
  have hwhole := wholePart_digits n.natAbs h
  obtain ⟨c,r,rfl,-,hpoint,hlower,hupper⟩ := endsPrimitive_cons h
  have hfraction : fractionPart (c::r) = some (.integer,c::r) := by
    unfold fractionPart
    split
    · next heq =>
      cases heq
      exact absurd rfl hpoint
    · rfl
  have hexponent : exponentPart .integer (c::r) = some (.integer,c::r) := by
    unfold exponentPart
    split
    · next heq =>
      cases heq
      exact absurd rfl hlower
    · next heq =>
      cases heq
      exact absurd rfl hupper
    · rfl
  have htake : (intText n++c::r).take ((intText n++c::r).length-(c::r).length) = intText n := by
    simp
  rw [numValue,skipMinus_intText,hwhole]
  simp only [Option.bind_eq_bind,Option.bind_some,hfraction,hexponent,htake,h,
    exceedsInt64_intText hlow hhigh,Bool.not_true,Bool.and_false,Bool.or_false,
    Bool.false_eq_true,if_false]

theorem intText_head (n : ℤ) : ∃ c s, intText n = c::s ∧ (c = 0x2d ∨ isdigit c = true) := by
  unfold intText
  split_ifs
  · exact ⟨0x2d,_,rfl,Or.inl rfl⟩
  · obtain ⟨c,ds,hcons,hc,-⟩ := text_cons n.natAbs
    exact ⟨c,ds,hcons,Or.inr hc⟩

/-- The first byte of a value that is neither text nor a container. -/
theorem scalarValue_intText {n : ℤ} (hlow : -2^63 ≤ n) (hhigh : n < 2^63)
    (h : endsPrimitive rest = true) : scalarValue (intText n++rest) =
      some (.integer,.value (intText n++rest) (intText n),setToNull rest) := by
  obtain ⟨c,s,hcons,hc⟩ := intText_head n
  have hne : ∀ d : UInt8, d ≠ 0x2d → isdigit d = false → c ≠ d := by
    rintro d hminus hdigit rfl
    rcases hc with hc | hc
    · exact hminus hc
    · cases hdigit.symm.trans hc
  rw [← numValue_intText hlow hhigh h,hcons,List.cons_append]
  simp [scalarValue,hne 0x22 (by decide) (by decide),hne 0x74 (by decide) (by decide),
    hne 0x66 (by decide) (by decide),hne 0x6e (by decide) (by decide)]

theorem checkStr_append (value rest : Bytes) : checkStr (value++rest) value = some rest := by
  induction value with
  | nil => cases rest <;> rfl
  | cons c value ih => rw [List.cons_append,checkStr,if_pos rfl,ih]

theorem primitiveValue_append (value : Bytes) (type : JsonType) (h : endsPrimitive rest = true) :
    primitiveValue (value++rest) value type =
      some (type,.value (value++rest) value,setToNull rest) := by
  rw [primitiveValue,checkStr_append]
  exact if_pos h

end Scalars

section Reading

variable {qty : ℕ} {front : List Node} {node : Node} {ts us : List Subtree} {name : Option Bytes}
  {j : Json} {items : List Item} {type : JsonType} {w l s rest v next : Bytes}

/-- What a value may begin with. -/
def StartsValue (v : Bytes) : Prop :=
  ∃ c t, v = c::t ∧ isBlank c = false ∧ c ≠ 0x2c ∧ c ≠ 0x5d

theorem spells_starts (h : Spells j s) (rest : Bytes) : StartsValue (s++rest) := by
  cases h with
  | text => exact ⟨0x22,_,rfl,by decide⟩
  | @integer n =>
    obtain ⟨c,t,hcons,hc⟩ := intText_head n
    refine ⟨c,t++rest,by rw [hcons]; rfl,?_⟩
    rcases hc with rfl | hc
    · decide
    · have hall : ∀ d < 256, isdigit (UInt8.ofNat d) = true → isBlank (UInt8.ofNat d) = false ∧
          UInt8.ofNat d ≠ 0x2c ∧ UInt8.ofNat d ≠ 0x5d := by decide +kernel
      have hd := hall c.toNat c.toNat_lt
      rw [UInt8.ofNat_toNat] at hd
      exact hd hc
  | boolTrue => exact ⟨0x74,_,rfl,by decide⟩
  | boolFalse => exact ⟨0x66,_,rfl,by decide⟩
  | null => exact ⟨0x6e,_,rfl,by decide⟩
  | array => exact ⟨0x5b,_,rfl,by decide⟩
  | obj => exact ⟨0x7b,_,rfl,by decide⟩

theorem goBlank_blank (hw : Blank w) {c : UInt8} (hc : isBlank c = false) (t : Bytes) :
    goBlank (w++c::t) = some (c::t) := by
  have hstop : ¬ isBlank c = true := by rw [hc]; exact Bool.false_ne_true
  rw [goBlank,List.dropWhile_append_of_pos hw,List.dropWhile_cons_of_neg hstop]

theorem propertyName_label {name lit w w' : Bytes} (h : Quoted name lit) (hw : Blank w)
    (hw' : Blank w') (hv : StartsValue v) :
    propertyName (0x22::(lit++0x22::(w++0x3a::w'))++v) = some (name,v) := by
  obtain ⟨c,t,rfl,hc,-⟩ := hv
  have hstring := parseString_quoted h (w++0x3a::(w'++c::t))
  have htail : (0x22::(lit++0x22::(w++0x3a::w'))++c::t : Bytes).tail =
      lit++0x22::(w++0x3a::(w'++c::t)) := by simp
  rw [propertyName,htail,hstring]
  simp [goBlank_blank hw (show isBlank 0x3a = false by decide),goBlank_blank hw' hc]

/-- A round of the loop in front of a value: its node is added. -/
theorem objStep_item {property : Node} {opened : Bool} (st : State)
    (hptr : st.ptr = w++(l++v)) (hobj : st.nodes[st.obj]? = some node)
    (hroom : st.nodes.length < qty) (hw : Blank w) (hl : Label node.type name l)
    (hv : StartsValue v) (hproperty : newProperty st.obj name v = some (property,opened,next)) :
    objStep qty st =
      .more ⟨next,if opened then st.nodes.length else st.obj,add st.nodes st.obj property⟩ := by
  obtain ⟨c,t,hcons,hblank,hcomma,hend,hname⟩ : ∃ c t, l++v = c::t ∧ isBlank c = false ∧
      c ≠ 0x2c ∧ c ≠ endChar node ∧ nameAndValue node (c::t) = some (name,v) := by
    generalize htype : node.type = type at hl
    cases hl with
    | array =>
      obtain ⟨c,t,rfl,hc,hcomma,hend⟩ := hv
      refine ⟨c,t,rfl,hc,hcomma,?_,?_⟩
      · rwa [endChar,htype,if_neg (by decide)]
      · rw [nameAndValue,if_pos htype]
    | @obj name lit w₁ w₂ hquoted hw hw' =>
      refine ⟨0x22,(lit++0x22::(w₁++0x3a::w₂))++v,rfl,by decide,by decide,?_,?_⟩
      · rw [endChar,if_pos htype]
        decide
      · have hnamed := propertyName_label hquoted hw hw' hv
        rw [List.cons_append] at hnamed
        rw [nameAndValue,if_neg (by rw [htype]; decide),hnamed]
        rfl
  have hgo : goBlank st.ptr = some (c::t) := by rw [hptr,hcons,goBlank_blank hw hblank]
  simp only [objStep,hgo,hobj,hcomma,hend,if_false,not_le.mpr hroom,hname,hproperty]

/-- Neither an object nor an array. -/
def Json.IsScalar : Json → Prop
  | .array _ => False
  | .obj _ => False
  | _ => True

/-- The node of such a value, and where the text goes on. -/
theorem scalar_reads (h : Spells j s) (hscalar : j.IsScalar) (hrest : endsPrimitive rest = true)
    (name : Option Bytes) :
    ∃ u type next,
      (∀ o, newProperty o name (s++rest) = some (⟨none,name,u,type⟩,false,next)) ∧
      (∀ b, Holds b name j (leaf ⟨none,name,u,type⟩)) ∧ j.size = 1 ∧
      (next = rest ∨ next = setToNull rest) := by
  cases h with
  | @text s lit hquoted =>
    have hstring := parseString_quoted hquoted rest
    have hvalue : scalarValue (0x22::(lit++[0x22])++rest) =
        some (.text,.value (lit++0x22::rest) s,rest) := by
      have hcons : (0x22::(lit++[0x22])++rest : Bytes) = 0x22::(lit++0x22::rest) := by simp
      rw [hcons]
      simp only [scalarValue,textValue,List.tail_cons,hstring,Option.map_some]
    refine ⟨.value (lit++0x22::rest) s,_,rest,fun o => ?_,fun b => .text _,rfl,Or.inl rfl⟩
    rw [List.cons_append] at hvalue ⊢
    rw [newProperty,hvalue]
    · rfl
    · intro s h
      cases h
    · intro s h
      cases h
  | @integer n hlow hhigh =>
    have hvalue := scalarValue_intText hlow hhigh hrest
    obtain ⟨c,t,hcons,hc⟩ := intText_head n
    have hne : ∀ d : UInt8, d ≠ 0x2d → isdigit d = false → c ≠ d := by
      rintro d hminus hdigit rfl
      rcases hc with hc | hc
      · exact hminus hc
      · cases hdigit.symm.trans hc
    refine ⟨.value (intText n++rest) (intText n),_,setToNull rest,fun o => ?_,
      fun b => .integer _,rfl,Or.inr rfl⟩
    rw [newProperty,hvalue]
    · rfl
    · intro s h
      rw [hcons] at h
      exact hne 0x7b (by decide) (by decide) (List.cons.inj h).1
    · intro s h
      rw [hcons] at h
      exact hne 0x5b (by decide) (by decide) (List.cons.inj h).1
  | boolTrue =>
    exact ⟨.value (bytes "true"++rest) (bytes "true"),_,setToNull rest,fun o =>
      congrArg (Option.map _) (primitiveValue_append (bytes "true") .boolean hrest),fun b => .boolean (v := true) _,
      rfl,Or.inr rfl⟩
  | boolFalse =>
    exact ⟨.value (bytes "false"++rest) (bytes "false"),_,setToNull rest,fun o =>
      congrArg (Option.map _) (primitiveValue_append (bytes "false") .boolean hrest),fun b => .boolean (v := false) _,
      rfl,Or.inr rfl⟩
  | null =>
    exact ⟨.value (bytes "null"++rest) (bytes "null"),_,setToNull rest,fun o =>
      congrArg (Option.map _) (primitiveValue_append (bytes "null") .null hrest),fun b => .null _,
      rfl,Or.inr rfl⟩
  | array => exact hscalar.elim
  | obj => exact hscalar.elim

/-- An object or array in another one: what is in it is read at its own index, and behind its
bracket it is one of the children of the other. -/
theorem leads_container {c : UInt8} (rest : Bytes)
    (hc : c = 0x5b ∧ type = .array ∨ c = 0x7b ∧ type = .obj) (hw : Blank w) (hl : Label node.type name l)
    (hroom : front.length+1+extent ts+(itemsSize items+1) ≤ qty)
    (hinner : ∀ {front : List Node} {node : Node}, node.type = type →
      front.length+1+extent []+itemsSize items ≤ qty → ∃ us w, HoldsAll (front.length+1+extent [])
        items us ∧ extent us = itemsSize items ∧ Blank w ∧ Leads qty
        ⟨s++rest,front.length,front++family front.length node []⟩
        ⟨w++closing type::rest,front.length,front++family front.length node ([]++us)⟩) :
    ∃ us, HoldsAll (front.length+1+extent ts+1) items us ∧ extent us = itemsSize items ∧ Leads qty
      ⟨w++(l++(c::s++rest)),front.length,front++family front.length node ts⟩
      ⟨rest,front.length,front++family front.length node (ts++[closed (front.length+1+extent ts)
        ⟨some front.length,name,.container none none,type⟩ us])⟩ := by
  obtain ⟨property,hproperty⟩ : ∃ property : Node,
      property = ⟨some front.length,name,.container none none,type⟩ := ⟨_,rfl⟩
  have hnew : newProperty front.length name (c::s++rest) = some (property,true,s++rest) := by
    rcases hc with ⟨rfl,rfl⟩ | ⟨rfl,rfl⟩ <;> rw [hproperty] <;> rfl
  have hstarts : StartsValue (c::s++rest) := by
    rcases hc with ⟨rfl,_⟩ | ⟨rfl,_⟩ <;> exact ⟨_,_,rfl,by decide⟩
  obtain ⟨inner,hinner'⟩ : ∃ inner, inner = front++withLinks front.length node
      (ts++[leaf property])::linked (front.length+1) ts := ⟨_,rfl⟩
  have hlen : inner.length = front.length+1+extent ts := by
    rw [hinner',List.length_append,List.length_cons,length_linked]
    omega
  have hlength : (front++family front.length node ts).length = inner.length := by
    rw [length_front_family,hlen]
    omega
  have hadd : add (front++family front.length node ts) front.length property =
      inner++family inner.length property [] := by
    rw [add_family,hinner',hproperty]
    rfl
  have hfits : (front++family front.length node ts).length < qty := by
    rw [hlength,hlen]
    omega
  have hstep := objStep_item ⟨w++(l++(c::s++rest)),front.length,
    front++family front.length node ts⟩ rfl (family_get _ _ _) hfits hw hl hstarts hnew
  dsimp only at hstep
  rw [hadd,hlength] at hstep
  obtain ⟨us,w',hholds,hextent,hw',hleads⟩ := @hinner inner property (by rw [hproperty])
    (by rw [hlen,extent_nil]; omega)
  rw [extent_nil,Nat.add_zero,hlen] at hholds
  refine ⟨us,hholds,hextent,.head hstep (hleads.trans ?_)⟩
  have hend : endChar (withLinks inner.length property us) = closing type := by
    rw [hproperty]
    rfl
  have hclose : isBlank (closing type) = false := by
    unfold closing
    split_ifs <;> decide
  have hleaveStep := @objStep_leave qty ⟨w'++closing type::rest,inner.length,
    inner++family inner.length property us⟩ _ rest front.length
    (hend ▸ goBlank_blank hw' hclose rest) (family_get _ _ _)
    (show property.sibling = some front.length by rw [hproperty])
  refine .head hleaveStep ?_
  have hleave := leave_family front inner.length property node us ts hlen
  rw [← hinner'] at hleave
  dsimp only
  rw [hleave,hlen,hproperty]
  exact .refl _

/-- What the parser has left of the text behind a value. -/
theorem rest_cases {c : UInt8} (hc : isEndOfBlock c = true ∨ c = 0x2c) (hw : Blank w)
    (h : next = w++c::rest ∨ next = setToNull (w++c::rest)) :
    (∃ w', Blank w' ∧ next = w'++c::rest) ∨ c = 0x2c ∧ next = rest := by
  rcases h with rfl | rfl
  · exact Or.inl ⟨w,hw,rfl⟩
  · cases w with
    | nil =>
      rcases hc with hc | rfl
      · exact Or.inl ⟨[],hw,by simp [setToNull,hc]⟩
      · exact Or.inr ⟨rfl,rfl⟩
    | cons b w =>
      have hb : isEndOfBlock b = false := by
        have hall : ∀ n < 256, isBlank (UInt8.ofNat n) = true →
            isEndOfBlock (UInt8.ofNat n) = false := by decide +kernel
        have hbyte := hall b.toNat b.toNat_lt
        rw [UInt8.ofNat_toNat] at hbyte
        exact hbyte (hw b List.mem_cons_self)
      exact Or.inl ⟨w,fun d hd => hw d (List.mem_cons_of_mem _ hd),by simp [setToNull,hb]⟩

theorem endsPrimitive_blank {c : UInt8} (hc : isEndOfPrimitive c = true) (hw : Blank w) :
    endsPrimitive (w++c::rest) = true := by
  cases w with
  | nil => exact hc
  | cons b w => simp [endsPrimitive,isEndOfPrimitive,hw b List.mem_cons_self]

theorem closing_ne_comma (type : JsonType) : closing type ≠ 0x2c := by
  unfold closing
  split_ifs <;> decide

theorem isEndOfPrimitive_closing (type : JsonType) : isEndOfPrimitive (closing type) = true := by
  unfold closing
  split_ifs <;> decide

theorem isEndOfBlock_closing (type : JsonType) : isEndOfBlock (closing type) = true := by
  unfold closing
  split_ifs <;> decide

theorem size_closed (b : ℕ) (node : Node) (ts : List Subtree) :
    (closed b node ts).size = extent ts+1 := by
  rw [closed,Subtree.size,length_chain]

mutual

/-- A value is read as one more child of the object or array around it. -/
theorem leads_value {j : Json} {s : Bytes} (h : Spells j s) {front : List Node} {node : Node}
    {ts : List Subtree} {name : Option Bytes} {w l : Bytes} (rest : Bytes) (hw : Blank w)
    (hl : Label node.type name l) (hrest : endsPrimitive rest = true)
    (hroom : front.length+1+extent ts+j.size ≤ qty) :
    ∃ t next, Holds (front.length+1+extent ts) name j t ∧ t.size = j.size ∧
      (next = rest ∨ next = setToNull rest) ∧ Leads qty
        ⟨w++(l++(s++rest)),front.length,front++family front.length node ts⟩
        ⟨next,front.length,front++family front.length node (ts++[t])⟩ := by
  have hscalar : j.IsScalar → ∃ t next, Holds (front.length+1+extent ts) name j t ∧
      t.size = j.size ∧ (next = rest ∨ next = setToNull rest) ∧ Leads qty
        ⟨w++(l++(s++rest)),front.length,front++family front.length node ts⟩
        ⟨next,front.length,front++family front.length node (ts++[t])⟩ := by
    intro hj
    obtain ⟨u,type,next,hnew,hholds,hsize,hnext⟩ := scalar_reads h hj hrest name
    refine ⟨leaf ⟨none,name,u,type⟩,next,hholds _,hsize.symm,hnext,?_⟩
    have hfits : (front++family front.length node ts).length < qty := by
      rw [length_front_family]
      omega
    have hstep := objStep_item ⟨w++(l++(s++rest)),front.length,
      front++family front.length node ts⟩ rfl (family_get _ _ _) hfits hw hl
      (spells_starts h rest) (hnew _)
    refine .head hstep ?_
    dsimp only
    rw [add_leaf rfl]
    exact .refl _
  match h with
  | .text _ => exact hscalar trivial
  | .integer _ _ => exact hscalar trivial
  | .boolTrue => exact hscalar trivial
  | .boolFalse => exact hscalar trivial
  | .null => exact hscalar trivial
  | @Spells.array elements s hitems =>
    rw [size_array] at hroom ⊢
    obtain ⟨us,hholds,hextent,hleads⟩ := leads_container rest (Or.inl ⟨rfl,rfl⟩) hw hl
      hroom fun htype hroom => leads_items hitems rest htype hroom
    exact ⟨_,rest,.array hholds,by rw [size_closed,hextent],Or.inl rfl,hleads⟩
  | @Spells.obj members s hitems =>
    rw [size_obj] at hroom ⊢
    obtain ⟨us,hholds,hextent,hleads⟩ := leads_container rest (Or.inr ⟨rfl,rfl⟩) hw hl
      hroom fun htype hroom => leads_items hitems rest htype hroom
    exact ⟨_,rest,.obj hholds,by rw [size_closed,hextent],Or.inl rfl,hleads⟩

theorem leads_items {type : JsonType} {items : List Item} {s : Bytes} (h : Items type items s)
    {front : List Node} {node : Node} {ts : List Subtree} (rest : Bytes) (htype : node.type = type)
    (hroom : front.length+1+extent ts+itemsSize items ≤ qty) :
    ∃ us w, HoldsAll (front.length+1+extent ts) items us ∧ extent us = itemsSize items ∧
      Blank w ∧ Leads qty ⟨s++rest,front.length,front++family front.length node ts⟩
        ⟨w++closing type::rest,front.length,front++family front.length node (ts++us)⟩ := by
  match h with
  | .nil hw =>
    refine ⟨[],_,.nil,rfl,hw,?_⟩
    rw [List.append_assoc,List.append_nil]
    exact .refl _
  | @Items.last _ name j w l s w' hw hl hs hw' =>
    subst htype
    rw [itemsSize_cons] at hroom ⊢
    have hfits : front.length+1+extent ts+j.size ≤ qty := by omega
    obtain ⟨t,next,hholds,hsize,hnext,hleads⟩ := leads_value hs (w'++closing node.type::rest) hw hl
      (endsPrimitive_blank (isEndOfPrimitive_closing node.type) hw') hfits
    obtain ⟨w'',hw'',rfl⟩ : ∃ w'', Blank w'' ∧ next = w''++closing node.type::rest := by
      rcases rest_cases (Or.inl (isEndOfBlock_closing _)) hw' hnext with hblank | ⟨hcomma,_⟩
      · exact hblank
      · exact absurd hcomma (closing_ne_comma _)
    refine ⟨[t],w'',.cons hholds .nil,by rw [extent_cons,hsize]; rfl,hw'',?_⟩
    simpa only [List.append_assoc,List.cons_append,List.nil_append] using hleads
  | @Items.cons _ name j item items w l s w' t hw hl hs hw' ht =>
    rw [itemsSize_cons] at hroom ⊢
    have hfits : front.length+1+extent ts+j.size ≤ qty := by omega
    obtain ⟨u,next,hholds,hsize,hnext,hleads⟩ := leads_value hs (w'++0x2c::(t++rest)) hw
      (htype ▸ hl) (endsPrimitive_blank (by decide) hw') hfits
    have hafter : Leads qty ⟨next,front.length,front++family front.length node (ts++[u])⟩
        ⟨t++rest,front.length,front++family front.length node (ts++[u])⟩ := by
      rcases rest_cases (Or.inr rfl) hw' hnext with ⟨w'',hw'',rfl⟩ | ⟨_,rfl⟩
      · exact .head (objStep_comma (goBlank_blank hw'' (by decide) _) (family_get _ _ _)) (.refl _)
      · exact .refl _
    have hextent : extent (ts++[u]) = extent ts+j.size := by
      rw [extent_append,extent_cons,extent_nil,hsize,Nat.add_zero]
    have hmore : front.length+1+extent (ts++[u])+itemsSize (item::items) ≤ qty := by omega
    obtain ⟨us,w'',hall,hsizes,hw'',hrest⟩ := leads_items ht rest htype hmore
    refine ⟨u::us,w'',.cons hholds ?_,by rw [extent_cons,hsize,hsizes],hw'',?_⟩
    · rwa [hextent,← hsize,← Nat.add_assoc] at hall
    · have hwhole := hleads.trans (hafter.trans hrest)
      simpa only [List.append_assoc,List.cons_append,List.nil_append] using hwhole

end

end Reading

section ReadingBack

variable {nodes : List Node} {fuel : ℕ}

theorem mapM_of_forall₂ {α β : Type} {f : β → Option α} {as : List α} {bs : List β}
    (h : List.Forall₂ (fun a b => f b = some a) as bs) : bs.mapM f = some as := by
  induction h with
  | nil => rfl
  | cons hf _ ih =>
    rw [List.mapM_cons,hf,ih]
    rfl

/-- The node has the name and the value of the item. -/
def Shows (nodes : List Node) (fuel : ℕ) (item : Item) (node : Node) : Prop :=
  node.name = item.1 ∧ readBack nodes fuel node = some item.2

theorem readBack_array {node : Node} {elements : List Json} (htype : node.type = .array)
    (h : List.Forall₂ (Shows nodes fuel) (elementItems elements) (children nodes node)) :
    readBack nodes (fuel+1) node = some (.array elements) := by
  have hmap : (children nodes node).mapM (readBack nodes fuel) = some elements :=
    mapM_of_forall₂ ((List.forall₂_map_left_iff.mp h).imp fun _ _ hshows => hshows.2)
  rw [readBack,jsonGetType,htype]
  simp only [hmap,Option.map_some]

theorem readBack_obj {node : Node} {members : List (Bytes × Json)} (htype : node.type = .obj)
    (h : List.Forall₂ (Shows nodes fuel) (memberItems members) (children nodes node)) :
    readBack nodes (fuel+1) node = some (.obj members) := by
  have hmap : ((children nodes node).mapM fun (child : Node) => do
      let name ← child.name
      let j ← readBack nodes fuel child
      pure (name,j)) = some members := by
    refine mapM_of_forall₂ ((List.forall₂_map_left_iff.mp h).imp ?_)
    rintro ⟨name,j⟩ child ⟨hname,hvalue⟩
    rw [hname,hvalue]
    rfl
  rw [readBack,jsonGetType,htype]
  simp only [hmap,Option.map_some]

theorem atoll_intText (n : ℤ) : atoll (intText n) = n := by
  have hisInteger : IsInteger (intText n) := by
    refine ⟨Decimal.text n.natAbs,text_ne_nil _,text_isdigit _,?_⟩
    unfold intText
    split_ifs
    · exact Or.inr rfl
    · exact Or.inl rfl
  rw [atoll_eq_integer hisInteger]
  unfold intText
  split_ifs with hneg
  · rw [integer,value_text]
    omega
  · obtain ⟨c,ds,hcons,hc,-⟩ := text_cons n.natAbs
    have hvalue := value_text n.natAbs
    rw [hcons] at hvalue ⊢
    unfold integer
    split
    · next heq =>
      cases heq
      exact absurd hc (by decide)
    · rw [hvalue]
      omega

/-- A container with its children in front of what is behind it. -/
theorem children_closed {front back : List Node} {b : ℕ} (hb : front.length = b) (node : Node)
    (next : Option ℕ) (ts : List Subtree) :
    children (front++(closed b node ts).nodes next++back)
      (setSibling next (closed b node ts).head) = heads (b+1) ts := by
  subst hb
  exact children_family (setSibling next node) ts

theorem nodes_closed (front back : List Node) (b : ℕ) (node : Node) (next : Option ℕ)
    (ts : List Subtree) : front++(closed b node ts).nodes next++back =
      (front++[setSibling next (withLinks b node ts)])++chain (b+1) ts++back := by
  simp only [closed,Subtree.nodes,List.append_assoc,List.cons_append,List.nil_append]

mutual

/-- The nodes of a value show it, wherever they lie in the pool. -/
theorem readBack_holds {b : ℕ} {name : Option Bytes} {j : Json} {t : Subtree}
    (h : Holds b name j t) {front back : List Node} {next : Option ℕ} {fuel : ℕ}
    (hb : front.length = b) (hfuel : j.size ≤ fuel) :
    Shows (front++t.nodes next++back) fuel (name,j) (setSibling next t.head) := by
  have hpos : 0 < j.size := by cases j <;> simp [Json.size]
  obtain ⟨fuel,rfl⟩ := Nat.exists_eq_add_one.mpr (Nat.lt_of_lt_of_le hpos hfuel)
  match h with
  | .text _ => exact ⟨rfl,rfl⟩
  | .integer _ => exact ⟨rfl,congrArg (fun n => some (Json.integer n)) (atoll_intText _)⟩
  | .boolean (v := v) _ => exact ⟨rfl,by cases v <;> rfl⟩
  | .null _ => exact ⟨rfl,rfl⟩
  | .array hitems =>
    rw [size_array] at hfuel
    refine ⟨rfl,readBack_array rfl ?_⟩
    rw [children_closed hb,nodes_closed]
    exact readBack_holdsAll hitems (by rw [List.length_append,hb]; rfl)
      (Nat.le_of_succ_le_succ hfuel)
  | .obj hitems =>
    rw [size_obj] at hfuel
    refine ⟨rfl,readBack_obj rfl ?_⟩
    rw [children_closed hb,nodes_closed]
    exact readBack_holdsAll hitems (by rw [List.length_append,hb]; rfl)
      (Nat.le_of_succ_le_succ hfuel)

theorem readBack_holdsAll {b : ℕ} {items : List Item} {ts : List Subtree}
    (h : HoldsAll b items ts) {front back : List Node} {fuel : ℕ} (hb : front.length = b)
    (hfuel : itemsSize items ≤ fuel) :
    List.Forall₂ (Shows (front++chain b ts++back) fuel) items (heads b ts) := by
  match h with
  | .nil => exact .nil
  | @HoldsAll.cons _ name j items t ts hhead htail =>
    rw [itemsSize_cons] at hfuel
    have hsplit : front++chain b (t::ts)++back =
        front++t.nodes (nextIndex b t ts)++(chain (b+t.size) ts++back) := by
      rw [chain]
      simp only [List.append_assoc]
    have hrest : front++chain b (t::ts)++back =
        (front++t.nodes (nextIndex b t ts))++chain (b+t.size) ts++back := by
      rw [chain]
      simp only [List.append_assoc]
    refine .cons ?_ ?_
    · rw [hsplit]
      exact readBack_holds hhead hb (by omega)
    · rw [hrest]
      exact readBack_holdsAll htail (by rw [List.length_append,length_nodes,hb]) (by omega)

end

end ReadingBack

section Bytes

theorem quoted_ne_zero {s lit : Bytes} (h : Quoted s lit) : ∀ c ∈ lit, c ≠ 0 := by
  induction h with
  | nil => exact fun _ h => (by cases h)
  | plain h20 _ _ _ ih =>
    refine List.forall_mem_cons.mpr ⟨?_,ih⟩
    rintro rfl
    exact h20 (by decide)
  | escaped hv _ ih =>
    refine List.forall_mem_cons.mpr ⟨by decide,List.forall_mem_cons.mpr ⟨?_,ih⟩⟩
    rintro rfl
    cases hv

theorem blank_ne_zero {w : Bytes} (h : Blank w) : ∀ c ∈ w, c ≠ 0 := by
  rintro c hc rfl
  cases h 0 hc

theorem closing_ne_zero (type : JsonType) : closing type ≠ 0 := by
  unfold closing
  split_ifs <;> decide

theorem label_ne_zero {type : JsonType} {name : Option Bytes} {l : Bytes} (h : Label type name l) :
    ∀ c ∈ l, c ≠ 0 := by
  cases h with
  | array => exact fun _ h => (by cases h)
  | obj hquoted hw hw' =>
    simp only [List.forall_mem_cons,List.forall_mem_append]
    exact ⟨by decide,quoted_ne_zero hquoted,by decide,blank_ne_zero hw,by decide,blank_ne_zero hw'⟩

theorem intText_ne_zero (n : ℤ) : ∀ c ∈ intText n, c ≠ 0 := by
  have hdigits : ∀ c ∈ Decimal.text n.natAbs, c ≠ 0 := by
    rintro c hc rfl
    cases text_isdigit _ _ hc
  unfold intText
  split_ifs
  · exact List.forall_mem_cons.mpr ⟨by decide,hdigits⟩
  · exact hdigits

theorem word_ne_zero {word : Bytes} (h : word.all (· != 0) = true) : ∀ c ∈ word, c ≠ 0 := by
  intro c hc
  simpa using List.all_eq_true.mp h c hc

mutual

/-- The text of a value is one C string. -/
theorem spells_ne_zero {j : Json} {s : Bytes} (h : Spells j s) : ∀ c ∈ s, c ≠ 0 := by
  match h with
  | .text hquoted =>
    simp only [List.forall_mem_cons,List.forall_mem_append]
    exact ⟨by decide,quoted_ne_zero hquoted,by decide,fun _ h => (by cases h)⟩
  | .integer _ _ => exact intText_ne_zero _
  | .boolTrue => exact word_ne_zero (by decide)
  | .boolFalse => exact word_ne_zero (by decide)
  | .null => exact word_ne_zero (by decide)
  | .array hitems => exact List.forall_mem_cons.mpr ⟨by decide,items_ne_zero hitems⟩
  | .obj hitems => exact List.forall_mem_cons.mpr ⟨by decide,items_ne_zero hitems⟩

theorem items_ne_zero {type : JsonType} {items : List Item} {s : Bytes} (h : Items type items s) :
    ∀ c ∈ s, c ≠ 0 := by
  match h with
  | .nil hw =>
    simp only [List.forall_mem_cons,List.forall_mem_append]
    exact ⟨blank_ne_zero hw,closing_ne_zero _,fun _ h => (by cases h)⟩
  | .last hw hl hs hw' =>
    simp only [List.forall_mem_cons,List.forall_mem_append]
    exact ⟨blank_ne_zero hw,label_ne_zero hl,spells_ne_zero hs,blank_ne_zero hw',
      closing_ne_zero _,fun _ h => (by cases h)⟩
  | .cons hw hl hs hw' ht =>
    simp only [List.forall_mem_cons,List.forall_mem_append]
    exact ⟨blank_ne_zero hw,label_ne_zero hl,spells_ne_zero hs,blank_ne_zero hw',by decide,
      items_ne_zero ht⟩

end

theorem cstr_append {s : Bytes} (hs : ∀ c ∈ s, c ≠ 0) (rest : Bytes) :
    cstr (s++rest) = s++cstr rest :=
  List.takeWhile_append_of_pos fun c hc => decide_eq_true (hs c hc)

end Bytes

section Pools

variable {qty qty' : ℕ}

/-- A round that a smaller pool has room for is the same in a larger one. -/
theorem objStep_mono (hle : qty' ≤ qty) {st : State} (h : objStep qty' st ≠ .fail) :
    objStep qty st = objStep qty' st := by
  unfold objStep at h ⊢
  split
  · next c s obj hblank hobj =>
    simp only [hblank,hobj] at h
    split_ifs at h ⊢ with hcomma hend hroom hroom' hroom'
    · rfl
    · rfl
    · exact absurd rfl h
    · omega
    · exact absurd rfl h
    · rfl
  · rfl

theorem objValue_mono (hle : qty' ≤ qty) {fuel : ℕ} {st : State} {nodes : List Node}
    (h : objValue qty' fuel st = some nodes) : objValue qty fuel st = some nodes := by
  induction fuel generalizing st with
  | zero => cases h
  | succ fuel ih =>
    have hstep : objStep qty' st ≠ .fail := by
      intro hfail
      rw [objValue,hfail] at h
      cases h
    rw [objValue,objStep_mono hle hstep]
    rw [objValue] at h
    split at h
    · exact ih h
    · exact h
    · cases h

theorem jsonCreate_mono (hle : qty' ≤ qty) {str : Bytes} {nodes : List Node}
    (h : jsonCreate str qty' = some nodes) : jsonCreate str qty = some nodes := by
  unfold jsonCreate at h ⊢
  split at h
  · exact objValue_mono hle h
  · cases h

end Pools

section Documents

variable {members : List (Bytes × Json)} {w text : Bytes} {qty : ℕ}

theorem jsonCreate_obj (hw : Blank w) (h : Spells (.obj members) text) (rest : Bytes)
    (hroom : (Json.obj members).size ≤ qty) : ∃ nodes root,
      jsonCreate (w++(text++rest)) qty = some nodes ∧ nodes.length = (Json.obj members).size ∧
      nodes[0]? = some root ∧
      readBack nodes (Json.obj members).size root = some (.obj members) := by
  have hsize := size_obj members
  cases h with
  | @obj _ s hitems =>
    have hfits : ([] : List Node).length+1+extent []+itemsSize (memberItems members) ≤ qty := by
      rw [List.length_nil,extent_nil]
      omega
    obtain ⟨us,w',hholds,hextent,hw',hleads⟩ := leads_items hitems (cstr rest)
      (show rootNode.type = .obj from rfl) hfits
    refine ⟨family 0 rootNode us,withLinks 0 rootNode us,?_,?_,rfl,?_⟩
    · have hzero : ∀ c ∈ w++0x7b::s, c ≠ 0 := List.forall_mem_append.mpr
        ⟨blank_ne_zero hw,spells_ne_zero (.obj hitems)⟩
      have hcstr := cstr_append hzero rest
      rw [List.append_assoc,List.append_assoc] at hcstr
      have hdone : objStep qty ⟨w'++0x7d::cstr rest,0,family 0 rootNode us⟩ =
          .done (family 0 rootNode us) :=
        objStep_close (goBlank_blank hw' (by decide) _) rfl rfl
      rw [jsonCreate,hcstr,List.cons_append,goBlank_blank hw (by decide)]
      exact objValue_of_leads hleads hdone (Nat.lt_succ_self _)
    · rw [length_family,hextent,hsize]
    · have hall : List.Forall₂ (Shows ([withLinks 0 rootNode us]++chain 1 us++[])
          (itemsSize (memberItems members))) (memberItems members) (heads 1 us) :=
        readBack_holdsAll hholds rfl (Nat.le_refl _)
      have hchildren : children ([]++(closed 0 rootNode us).nodes none++[])
          (setSibling none (closed 0 rootNode us).head) = heads 1 us :=
        children_closed rfl rootNode none us
      rw [List.append_nil] at hall hchildren
      rw [hsize]
      exact readBack_obj rfl (hchildren ▸ hall)

end Documents

end JsonTrees
end RemotePkgInstaller
