import RemotePkgInstaller.JsonText
import RemotePkgInstaller.Decimal

/-! The JSON parser.  It works in place: a pointer is the suffix of the text that
starts there, and a string in a node is what the parser left at its pointer.  The
nodes are those taken from the pool so far, the root at index 0. -/
namespace RemotePkgInstaller
namespace TinyJson

open JsonText Decimal

inductive JsonType
  | obj | array | text | boolean | integer | real | null
  deriving DecidableEq

/-- The union of a node: the value pointer and the string at it, or the links to
the first and the last child. -/
inductive Payload
  | value (ptr string : Bytes)
  | container (child lastChild : Option ℕ)
  deriving DecidableEq

/-- While an object or array is being read, `sibling` leads to the one around it. -/
structure Node where
  sibling : Option ℕ
  name : Option Bytes
  u : Payload
  type : JsonType
  deriving DecidableEq

def isBlank (c : UInt8) : Bool := (bytes " \n\r\t\x0c").contains c

def isEndOfBlock (c : UInt8) : Bool := (bytes "\x7d]").contains c

def isEndOfPrimitive (c : UInt8) : Bool := c == 0x2c || isBlank c || isEndOfBlock c

def goBlank (str : Bytes) : Option Bytes :=
  match str.dropWhile isBlank with
  | [] => none
  | c::s => some (c::s)

def goNum (str : Bytes) : Option Bytes :=
  match str.dropWhile isdigit with
  | [] => none
  | c::s => some (c::s)

def escapePairs : List (UInt8 × UInt8) :=
  [(0x22,0x22),(0x5c,0x5c),(0x2f,0x2f),(0x62,0x08),(0x66,0x0c),(0x6e,0x0a),(0x72,0x0d),(0x74,0x09)]

def getEscape (ch : UInt8) : UInt8 :=
  match escapePairs.find? fun p => p.1 = ch with
  | some p => p.2
  | none => 0

def isxdigit (c : UInt8) : Bool :=
  isdigit c || (0x41 ≤ c && c ≤ 0x46) || (0x61 ≤ c && c ≤ 0x66)

def getCharFromUnicode (str : Bytes) : UInt8 := if str.all isxdigit then 0x3f else 0

/-- The string left in place of a literal, and the text after the closing quote. -/
def parseString : Bytes → Option (Bytes × Bytes)
  | [] => none
  | c::s =>
    if c < 0x20 then none
    else if c = 0x22 then some ([],s)
    else if c = 0x5c then
      match s with
      | 0x75::w::x::y::z::s =>
        if getCharFromUnicode [w,x,y,z] = 0 then none
        else (parseString s).map fun r => (getCharFromUnicode [w,x,y,z]::r.1,r.2)
      -- this includes a `u` with less than four characters after it
      | e::s =>
        if getEscape e = 0 then none
        else (parseString s).map fun r => (getEscape e::r.1,r.2)
      | [] => none
    else (parseString s).map fun r => (c::r.1,r.2)

/-- The name of a property and the text of its value; `ptr` is at the opening quote. -/
def propertyName (ptr : Bytes) : Option (Bytes × Bytes) := do
  let (name,ptr) ← parseString ptr.tail
  match ← goBlank ptr with
  | 0x3a::ptr => (goBlank ptr).map (name,·)
  | _ => none

/-- A value that is not an object or array: its type and payload, and the text after it. -/
abbrev Scalar := JsonType × Payload × Bytes

def textValue (ptr : Bytes) : Option Scalar :=
  (parseString ptr.tail).map fun r => (.text,.value ptr.tail r.1,r.2)

def checkStr : Bytes → Bytes → Option Bytes
  | ptr,[] => some ptr
  | p::ptr,c::str => if p = c then checkStr ptr str else none
  | [],_::_ => none

def setToNull (ch : Bytes) : Bytes :=
  match ch with
  | c::s => if isEndOfBlock c then c::s else s
  | [] => []

def endsPrimitive (ptr : Bytes) : Bool := ptr.head?.any isEndOfPrimitive

def primitiveValue (ptr value : Bytes) (type : JsonType) : Option Scalar :=
  match checkStr ptr value with
  | some next =>
    if endsPrimitive next then some (type,.value ptr value,setToNull next) else none
  | none => none

def expValue (ptr : Bytes) : Option Bytes :=
  let ptr := match ptr with
    | 0x2d::s => s
    | 0x2b::s => s
    | s => s
  if ptr.head?.any isdigit then goNum ptr.tail else none

def fraqValue (ptr : Bytes) : Option Bytes :=
  if ptr.head?.any isdigit then goNum ptr.tail else none

def minText : Bytes := bytes "-9223372036854775808"
def maxText : Bytes := bytes "9223372036854775807"

/-- Past the digits before a point or an exponent. -/
def wholePart (ptr : Bytes) : Option Bytes :=
  if ptr.head?.any isdigit then
    match ptr with
    | 0x30::s => if s.head?.any isdigit then none else some s
    | s => goNum s
  else none

def skipMinus (ptr : Bytes) : Bytes :=
  match ptr with
  | 0x2d::s => s
  | s => s

/-- Whether a numeral is refused because it is not a signed 64-bit integer. -/
def exceedsInt64 (value : Bytes) : Bool :=
  let threshold := if value.head? = some 0x2d then minText else maxText
  threshold.length < value.length || (value.length == threshold.length && threshold < value)

def fractionPart (ptr : Bytes) : Option (JsonType × Bytes) :=
  match ptr with
  | 0x2e::s => (fraqValue s).map (.real,·)
  | s => some (.integer,s)

def exponentPart (type : JsonType) (ptr : Bytes) : Option (JsonType × Bytes) :=
  match ptr with
  | 0x65::s => (expValue s).map (.real,·)
  | 0x45::s => (expValue s).map (.real,·)
  | s => some (type,s)

def numValue (value : Bytes) : Option Scalar := do
  let ptr ← wholePart (skipMinus value)
  let (type,ptr) ← fractionPart ptr
  let (type,ptr) ← exponentPart type ptr
  let string := value.take (value.length-ptr.length)
  if !endsPrimitive ptr || (type = .integer && exceedsInt64 string) then none
  else some (type,.value value string,setToNull ptr)

def scalarValue (ptr : Bytes) : Option Scalar :=
  match ptr with
  | 0x22::_ => textValue ptr
  | 0x74::_ => primitiveValue ptr (bytes "true") .boolean
  | 0x66::_ => primitiveValue ptr (bytes "false") .boolean
  | 0x6e::_ => primitiveValue ptr (bytes "null") .null
  | _ => numValue ptr

def setSibling (s : Option ℕ) (node : Node) : Node := { node with sibling := s }

/-- The links of `obj` after `add`, when `property` is its new child. -/
def addLink (property : ℕ) (node : Node) : Node :=
  match node.u with
  | .container none _ => { node with u := .container (some property) (some property) }
  | .container (some child) _ => { node with u := .container (some child) (some property) }
  | .value _ _ => node

/-- The index of the last child, when there is a first one. -/
def lastChild? (node : Node) : Option ℕ :=
  match node.u with
  | .container (some _) last => last
  | _ => none

/-- The nodes with `property` added as a new child of `obj`. -/
def add (nodes : List Node) (obj : ℕ) (property : Node) : List Node :=
  let linked := match (nodes[obj]?).bind lastChild? with
    | some last => nodes.modify last (setSibling (some nodes.length))
    | none => nodes
  linked.modify obj (addLink nodes.length)++[property]

/-- What the reader's loop carries: the text ahead, the object or array it is in,
and the nodes taken from the pool. -/
structure State where
  ptr : Bytes
  obj : ℕ
  nodes : List Node

inductive Step
  | more (st : State)
  | done (nodes : List Node)
  | fail

/-- The property's name, if the node `obj` names its children, and the text of its value. -/
def nameAndValue (obj : Node) (ptr : Bytes) : Option (Option Bytes × Bytes) :=
  if obj.type = .array then some (none,ptr)
  else if ptr.head? = some 0x22 then (propertyName ptr).map fun r => (some r.1,r.2)
  else none

/-- The node for the value at `ptr`, whether it stays open, and the text after
the value or its opening bracket. -/
def newProperty (obj : ℕ) (name : Option Bytes) (ptr : Bytes) : Option (Node × Bool × Bytes) :=
  match ptr with
  | 0x7b::s => some (⟨some obj,name,.container none none,.obj⟩,true,s)
  | 0x5b::s => some (⟨some obj,name,.container none none,.array⟩,true,s)
  | _ => (scalarValue ptr).map fun r => (⟨none,name,r.2.1,r.1⟩,false,r.2.2)

def endChar (node : Node) : UInt8 := if node.type = .obj then 0x7d else 0x5d

/-- One round of the loop of `objValue`, with a pool of `qty` nodes. -/
def objStep (qty : ℕ) (st : State) : Step :=
  match goBlank st.ptr,st.nodes[st.obj]? with
  | some (c::s),some obj =>
    if c = 0x2c then .more { st with ptr := s }
    else if c = endChar obj then
      match obj.sibling with
      | none => .done st.nodes
      | some parent => .more ⟨s,parent,st.nodes.modify st.obj (setSibling none)⟩
    else if qty ≤ st.nodes.length then .fail
    else
      match nameAndValue obj (c::s) with
      | none => .fail
      | some (name,ptr) =>
        match newProperty st.obj name ptr with
        | none => .fail
        | some (property,opened,next) =>
          .more ⟨next,if opened then st.nodes.length else st.obj,add st.nodes st.obj property⟩
  | _,_ => .fail

/-- The loop of `objValue`; every round but the last consumes text, so more fuel
than text is never used up. -/
def objValue (qty : ℕ) : ℕ → State → Option (List Node)
  | 0,_ => none
  | fuel+1,st =>
    match objStep qty st with
    | .more st => objValue qty fuel st
    | .done nodes => some nodes
    | .fail => none

def rootNode : Node := ⟨none,none,.container none none,.obj⟩

/-- The nodes of the document in the text, at most `qty` of them. -/
def jsonCreate (str : Bytes) (qty : ℕ) : Option (List Node) :=
  match goBlank (cstr str) with
  | some (0x7b::s) => objValue qty (s.length+1) ⟨s,0,[rootNode]⟩
  | _ => none

def jsonGetType (node : Node) : JsonType := node.type

def jsonGetValue (node : Node) : Bytes :=
  match node.u with
  | .value _ s => s
  | .container _ _ => []

def jsonGetChild (node : Node) : Option ℕ :=
  match node.u with
  | .container child _ => child
  | .value _ _ => none

def jsonGetBoolean (node : Node) : Bool := (jsonGetValue node).head? = some 0x74

def jsonGetInteger (node : Node) : ℤ := atoll (jsonGetValue node)

/-- The indices met on the way along the sibling links from one on. -/
def siblings (nodes : List Node) : ℕ → Option ℕ → List ℕ
  | fuel+1,some i =>
    match nodes[i]? with
    | some node => i::siblings nodes fuel node.sibling
    | none => []
  | _,_ => []

def childIndices (nodes : List Node) (obj : Node) : List ℕ :=
  siblings nodes nodes.length (jsonGetChild obj)

def children (nodes : List Node) (obj : Node) : List Node :=
  (childIndices nodes obj).filterMap (nodes[·]?)

def jsonGetProperty (nodes : List Node) (obj : Node) (property : Bytes) : Option Node :=
  (children nodes obj).find? fun node => node.name = some property

def jsonGetPropertyValue (nodes : List Node) (obj : Node) (property : Bytes) : Option Bytes :=
  match jsonGetProperty nodes obj property with
  | none => none
  | some field =>
    if jsonGetType field = .obj ∨ jsonGetType field = .array then none
    else some (jsonGetValue field)

end TinyJson
end RemotePkgInstaller
