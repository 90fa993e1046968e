import RemotePkgInstaller.JsonDocument
import RemotePkgInstaller.Responses

/-! Reading the fields of a request.  Every helper answers the client itself when
it fails, so its failure is the answer. -/
namespace RemotePkgInstaller
namespace Requests

open HttpText JsonText Responses TinyJson

/-- Enough nodes for the largest request any endpoint accepts. -/
def jsonPoolSize : ℕ := 256

abbrev Answer := List SbCall

/-- A conversion to the 32-bit `int`. -/
def toInt32 (n : ℤ) : ℤ := n.bmod (2^32)

def badRequest (sdk : TextSdk) (text : Bytes) : Answer := kickErrorf sdk 400 (bytes "Bad request") text

/-- A message with the name of a parameter in quotes. -/
def quoted (before name after : Bytes) : Bytes := before++bytes "'"++name++bytes "'"++after

def requestParse (sdk : TextSdk) (inData : Option Bytes) : Except Answer (List Node) :=
  match inData with
  | none => .error (kickError sdk 400 (bytes "Bad request") (bytes "Missing request body"))
  | some data =>
    if cstr data = [] then
      .error (kickError sdk 400 (bytes "Bad request") (bytes "Missing request body"))
    else
      match jsonCreate data jsonPoolSize with
      | none => .error (kickError sdk 400 (bytes "Bad request") (bytes "Invalid JSON format"))
      | some nodes => .ok nodes

def rootProperty (nodes : List Node) (name : Bytes) : Option Node :=
  jsonGetProperty nodes (nodes.headD rootNode) name

def requestField (sdk : TextSdk) (nodes : List Node) (name : Bytes) (type : JsonType) :
    Except Answer Node :=
  match rootProperty nodes name with
  | none => .error (badRequest sdk (quoted (bytes "No ") name (bytes " parameter specified.")))
  | some field =>
    if jsonGetType field ≠ type then
      .error (badRequest sdk (quoted (bytes "Invalid type for parameter ") name (bytes ".")))
    else .ok field

def requestStr (sdk : TextSdk) (nodes : List Node) (name : Bytes) : Except Answer Bytes := do
  let field ← requestField sdk nodes name .text
  pure (jsonGetValue field)

/-- Copies a bounded identifier into a buffer of `outSize` bytes. -/
def requestId (sdk : TextSdk) (nodes : List Node) (name : Bytes) (outSize : ℕ) :
    Except Answer Bytes := do
  let val ← requestStr sdk nodes name
  if val = [] then
    .error (badRequest sdk (quoted (bytes "Empty value for parameter ") name (bytes ".")))
  else pure (strlcpy val outSize)

def requestInt (sdk : TextSdk) (nodes : List Node) (name : Bytes) : Except Answer ℤ := do
  let field ← requestField sdk nodes name .integer
  pure (toInt32 (jsonGetInteger field))

def requestTaskId (sdk : TextSdk) (nodes : List Node) : Except Answer ℤ := do
  let out ← requestInt sdk nodes (bytes "task_id")
  if out < 0 then
    .error (badRequest sdk
      (quoted (bytes "Invalid value for ") (bytes "task_id") (bytes " parameter specified.")))
  else pure out

/-- An absent boolean leaves `out` as it is. -/
def requestBoolOpt (sdk : TextSdk) (nodes : List Node) (name : Bytes) (out : Bool) :
    Except Answer Bool :=
  match rootProperty nodes name with
  | none => .ok out
  | some field =>
    if jsonGetType field ≠ .boolean then
      .error (badRequest sdk (quoted (bytes "Invalid type for parameter ") name (bytes ".")))
    else .ok (jsonGetBoolean field)

section Fields

variable {sdk : TextSdk} {nodes : List Node} {name : Bytes} {field : Node}

theorem requestField_eq_ok {type : JsonType} :
    requestField sdk nodes name type = .ok field ↔
      rootProperty nodes name = some field ∧ field.type = type := by
  unfold requestField
  cases rootProperty nodes name with
  | none => simp
  | some f =>
    simp only [jsonGetType,Option.some.injEq]
    by_cases h : f.type = type
    · simp only [h,ne_eq,not_true_eq_false,if_false,Except.ok.injEq]
      constructor
      · rintro rfl
        exact ⟨rfl,h⟩
      · exact And.left
    · simp only [h,ne_eq,not_false_eq_true,if_true,reduceCtorEq,false_iff,not_and]
      rintro rfl
      exact h

theorem bind_eq_ok {ε α β : Type} {x : Except ε α} {f : α → Except ε β} {b : β} :
    (x >>= f) = .ok b ↔ ∃ a, x = .ok a ∧ f a = .ok b := by
  cases x <;> simp [bind,Except.bind]

theorem exists_eq_error {ε α : Type} {x : Except ε α} (h : ∀ a, x ≠ .ok a) : ∃ e, x = .error e := by
  cases x with
  | error e => exact ⟨e,rfl⟩
  | ok a => exact absurd rfl (h a)

/-- A parameter that is there is read, or it is no text. -/
theorem requestStr_cases (sdk : TextSdk) (hf : rootProperty nodes name = some field) :
    (field.type = .text ∧ requestStr sdk nodes name = .ok (jsonGetValue field)) ∨
      (field.type ≠ .text ∧ ∃ reply, requestStr sdk nodes name = .error reply) := by
  by_cases ht : field.type = .text
  · have hfield : requestField sdk nodes name .text = .ok field := requestField_eq_ok.mpr ⟨hf,ht⟩
    exact Or.inl ⟨ht,by rw [requestStr,hfield]; rfl⟩
  · refine Or.inr ⟨ht,exists_eq_error fun value h => ?_⟩
    obtain ⟨field',hfield,_⟩ := bind_eq_ok.mp h
    obtain ⟨hf',ht'⟩ := requestField_eq_ok.mp hfield
    rw [hf] at hf'
    injection hf' with hf'
    exact ht (hf' ▸ ht')

/-- An id is taken from a text that is not empty, as the buffer holds it. -/
theorem requestId_eq_ok {outSize : ℕ} {id : Bytes} :
    requestId sdk nodes name outSize = .ok id ↔
      ∃ field, rootProperty nodes name = some field ∧ field.type = .text ∧
        jsonGetValue field ≠ [] ∧ id = strlcpy (jsonGetValue field) outSize := by
  simp only [requestId,requestStr,bind_eq_ok,requestField_eq_ok,pure,Except.pure,Except.ok.injEq]
  constructor
  · rintro ⟨val,⟨field,⟨hf,ht⟩,rfl⟩,h⟩
    split_ifs at h with hne
    exact ⟨field,hf,ht,hne,by simpa using h.symm⟩
  · rintro ⟨field,hf,ht,hne,rfl⟩
    exact ⟨_,⟨field,⟨hf,ht⟩,rfl⟩,by rw [if_neg hne]⟩

theorem requestInt_eq_ok {n : ℤ} :
    requestInt sdk nodes name = .ok n ↔
      ∃ field, rootProperty nodes name = some field ∧ field.type = .integer ∧
        n = toInt32 (jsonGetInteger field) := by
  simp only [requestInt,bind_eq_ok,requestField_eq_ok,pure,Except.pure,Except.ok.injEq]
  constructor
  · rintro ⟨field,⟨hf,ht⟩,rfl⟩
    exact ⟨field,hf,ht,rfl⟩
  · rintro ⟨field,hf,ht,rfl⟩
    exact ⟨field,⟨hf,ht⟩,rfl⟩

theorem requestTaskId_eq_ok {n : ℤ} :
    requestTaskId sdk nodes = .ok n ↔ requestInt sdk nodes (bytes "task_id") = .ok n ∧ 0 ≤ n := by
  simp only [requestTaskId,bind_eq_ok,pure,Except.pure]
  constructor
  · rintro ⟨m,hm,h⟩
    split_ifs at h with hneg
    injection h with h
    exact ⟨h ▸ hm,h ▸ not_lt.mp hneg⟩
  · rintro ⟨hn,h0⟩
    exact ⟨n,hn,by rw [if_neg (not_lt.mpr h0)]⟩

/-- A request whose body parses is read from the nodes of the body's document. -/
theorem requestParse_ok {data : Bytes} (h : jsonCreate data jsonPoolSize = some nodes) :
    requestParse sdk (some data) = .ok nodes := by
  have hne : cstr data ≠ [] := by
    intro he
    simp [jsonCreate,he,goBlank] at h
  simp [requestParse,hne,h]

theorem requestBoolOpt_eq_ok {out b : Bool} :
    requestBoolOpt sdk nodes name out = .ok b ↔
      (rootProperty nodes name = none ∧ b = out) ∨
        ∃ field, rootProperty nodes name = some field ∧ field.type = .boolean ∧
          b = jsonGetBoolean field := by
  unfold requestBoolOpt
  cases rootProperty nodes name with
  | none => simp [eq_comm]
  | some field =>
    by_cases ht : field.type = .boolean
    · simp [jsonGetType,ht,eq_comm]
    · simp [jsonGetType,ht]

theorem requestParse_eq_ok {inData : Option Bytes} :
    requestParse sdk inData = .ok nodes ↔
      inData.bind (fun data => jsonCreate data jsonPoolSize) = some nodes := by
  cases inData with
  | none => simp [requestParse]
  | some data =>
    cases hc : jsonCreate data jsonPoolSize with
    | none =>
      simp only [requestParse,hc]
      split_ifs <;> simp [hc]
    | some nodes' => simp [requestParse_ok hc,hc]

/-- The items of the literal that a text field was sent as, and the value they denote. -/
structure SentText (data : Bytes) (field : Node) (items : List Item) (v : Bytes) : Prop where
  text : field.type = .text
  literal : ∃ ptr s rest, field.u = .value ptr s ∧ ptr <:+ cstr data ∧
    literal? ptr = some (items,rest)
  meaning : meaning? items = some v

/-- The parser keeps of a text its items, with `?` for a `\u` escape. -/
theorem SentText.value_eq {data : Bytes} {items : List Item} {v : Bytes} (h : SentText data field items v)
    (hparse : jsonCreate data jsonPoolSize = some nodes) (hmem : field ∈ nodes) :
    jsonGetValue field = flatten 0x3f items := by
  obtain ⟨ptr,items',rest,_,hl,hu⟩ := (document hparse).text_value hmem h.text
  obtain ⟨ptr',s,rest',hu',_,hl'⟩ := h.literal
  rw [hu] at hu'
  injection hu' with h1 h2
  subst h1
  rw [hl] at hl'
  injection hl' with hl'
  injection hl' with h3 h4
  rw [jsonGetValue,hu,h3]

/-- Only `\u003f` is what the parser makes of a `\u` escape. -/
def PlainItems (items : List Item) : Prop := ∀ u, Item.unicode u ∈ items → u = 0x3f

/-- A buffer holds the value that was sent exactly when it fits and its `\u` escapes
are kept. -/
theorem strlcpy_flatten_eq_iff {items : List Item} {v : Bytes} {size : ℕ} (hsize : 0 < size)
    (h : meaning? items = some v) :
    strlcpy (flatten 0x3f items) size = v ↔ v.length < size ∧ PlainItems items := by
  have hu : ∀ u : UInt16, u.toNat = (0x3f : UInt8).toNat ↔ u = 0x3f := by
    intro u
    rw [← UInt16.toNat_inj]
    rfl
  rw [strlcpy,take_flatten_eq_meaning (by decide) h]
  simp only [PlainItems,hu]
  constructor <;> rintro ⟨h1,h2⟩ <;> exact ⟨by omega,h2⟩

/-- A 64-bit integer that is not a 32-bit one comes out as another number. -/
theorem toInt32_eq_self_iff (n : ℤ) : toInt32 n = n ↔ -2^31 ≤ n ∧ n < 2^31 := by
  constructor
  · intro h
    have h1 := Int.le_bmod (x := n) (m := 2^32) (by norm_num)
    have h2 := Int.bmod_lt (x := n) (m := 2^32) (by norm_num)
    rw [toInt32] at h
    norm_num at h1 h2 h ⊢
    omega
  · rintro ⟨h1,h2⟩
    exact Int.bmod_eq_of_le_mul_two (by norm_num at *; omega) (by norm_num at *; omega)

end Fields

end Requests
end RemotePkgInstaller
