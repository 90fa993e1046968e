import RemotePkgInstaller.SendStream
import RemotePkgInstaller.Settings

/-! How `sandbird.c` receives a request: the bytes of a client are collected until the header,
and after it the announced body, is there, and the request line is taken apart. -/
namespace RemotePkgInstaller
namespace ReceivedRequests

open Decimal SendStream Settings

/-- What `isspace` accepts. -/
def isspace (c : UInt8) : Bool := c = 0x20 || (0x09 ≤ c && c ≤ 0x0d)

/-- A conversion `%s` or `%*s` behind the white space in front of it: what it reads of at
most `width` bytes, and the rest, if it reads anything. -/
def scanWord (width : ℕ) (s : Bytes) : Option (Bytes × Bytes) :=
  let word := (s.takeWhile fun c => ¬ isspace c).take width
  if word = [] then none else some (word,s.drop word.length)

/-- The byte that `%u` ends up with; `wide` is what it makes of a number that does not fit
in 32 bits, which the language leaves open. -/
def strToUint (wide : ℕ → UInt32) (str : Bytes) : UInt32 :=
  let convert := fun (n : ℕ) => if n < 2^32 then UInt32.ofNat n else wide n
  match str.dropWhile isspace with
  | 0x2d::s => if (s.takeWhile isdigit) = [] then 0 else -convert (value (s.takeWhile isdigit))
  | 0x2b::s => convert (value (s.takeWhile isdigit))
  | s => convert (value (s.takeWhile isdigit))

def hexToInt (c : UInt8) : UInt8 := if isdigit c then c-0x30 else toLower c-0x61+10

/-- The bytes at which a query value ends. -/
def endsValue (c : UInt8) : Bool := c ∈ bytes "?& \t\r\n"

/-- What `url_decode` stores while it has room, and what it returns. -/
def decodeInto : ℕ → Bytes → SbResult × Bytes
  | 0,_ => (.truncated,[])
  | _+1,[] => (.success,[])
  | room+1,c::src =>
    if endsValue c then (.success,[])
    else
      match c,src with
      | 0x25,a::b::src =>
        let decoded := decodeInto room src
        (decoded.1,((hexToInt a <<< 4) ||| hexToInt b)::decoded.2)
      | 0x2b,src =>
        let decoded := decodeInto room src
        (decoded.1,0x20::decoded.2)
      | c,src =>
        let decoded := decodeInto room src
        (decoded.1,c::decoded.2)

def urlDecode (src : Bytes) (len : ℕ) : SbResult × Bytes := decodeInto (len-1) src

/-- The value of a header, if it is there.  Without a result the loop makes no more progress:
it stands at a carriage return that no line feed follows. -/
def findHeaderValue (field : Bytes) : ℕ → Bytes → Option (Option Bytes)
  | 0,_ => none
  | fuel+1,str =>
    if str = [] ∨ crlf <+: str then some none
    else if sameNoCase (str.take field.length) field = true ∧
        (str.drop field.length).head? = some 0x3a then
      some (some ((str.drop (field.length+1)).dropWhile fun c => c = 0x20 ∨ c = 0x09))
    else
      let rest := str.dropWhile (· ≠ 0x0d)
      findHeaderValue field fuel (if crlf <+: rest then rest.drop 2 else rest)

/-- The rest of a string from the value of a variable on. -/
def findVarValue (name : Bytes) : ℕ → Bytes → Option Bytes
  | 0,_ => none
  | fuel+1,str =>
    if name <+: str ∧ (str.drop name.length).head? = some 0x3d then
      some (str.drop (name.length+1))
    else
      match str.dropWhile fun c => c ∉ bytes "& \t\r\n" with
      | 0x26::rest => findVarValue name fuel rest
      | _ => none

/-- A request as `event_handler` is given it, with what it reads of the stream. -/
structure ReceivedRequest where
  method : Bytes
  path : Bytes
  recvBuf : Bytes
  expectedRecvLen : ℕ
  dataIdx : ℕ
  deriving DecidableEq

def sbGetVar (r : ReceivedRequest) (name : Bytes) (len : ℕ) : SbResult × Bytes :=
  let find := fun str => findVarValue name (str.length+1) str
  let fromQuery := match (cstr r.recvBuf).dropWhile fun c => c ≠ 0x3f ∧ c ≠ 0x0d with
    | 0x3f::query => find query
    | _ => none
  let fromData := if r.dataIdx ≠ 0 then find (cstr (r.recvBuf.drop r.dataIdx)) else none
  match fromQuery.or fromData with
  | none => (.notFound,[])
  | some s => urlDecode s len

/-- The stream while it receives. -/
structure Receiving where
  headerDone : Bool
  recvBuf : Bytes
  expectedRecvLen : ℕ
  dataIdx : ℕ
  deriving DecidableEq

def Receiving.start : Receiving := ⟨false,[],0,0⟩

/-- Where `sb_stream_recv` stands after some bytes. -/
inductive Reception
  | receiving (st : Receiving)
  | request (r : ReceivedRequest)
  | closed
  | stuck
  deriving DecidableEq

/-- The method, the index of the path and the version. -/
def requestLine (recvBuf : Bytes) : Option (Bytes × ℕ × Bytes) := do
  let s := cstr recvBuf
  let (method,s1) ← scanWord 15 (s.dropWhile isspace)
  let s2 := s1.dropWhile isspace
  let (_,s3) ← scanWord s2.length s2
  let (ver,_) ← scanWord 15 (s3.dropWhile isspace)
  pure (method,s.length-s2.length,ver)

def handleRequest (st : Receiving) : Reception :=
  match requestLine st.recvBuf with
  | none => .closed
  | some (method,pathIdx,ver) =>
    if ver.take 4 ≠ bytes "HTTP" then .closed
    else
      let path := (urlDecode ((cstr st.recvBuf).drop pathIdx) 512).2
      .request ⟨method,cstr path,st.recvBuf,st.expectedRecvLen,st.dataIdx⟩

/-- The part of the loop behind the check for the end of the header. -/
def checkComplete (st : Receiving) : Reception :=
  if st.expectedRecvLen = st.recvBuf.length then handleRequest st else .receiving st

def endsHeader (st : Receiving) : Prop :=
  st.headerDone = false ∧ crlf++crlf <:+ st.recvBuf

instance (st : Receiving) : Decidable (endsHeader st) := by
  delta endsHeader
  infer_instance

/-- One byte goes into the buffer. -/
def recvByte (wide : ℕ → UInt32) (st : Receiving) (c : UInt8) : Reception :=
  let st := { st with recvBuf := st.recvBuf++[c] }
  if endsHeader st then
    let st := { st with headerDone := true }
    match findHeaderValue (bytes "Content-Length") ((cstr st.recvBuf).length+1) (cstr st.recvBuf) with
    | none => .stuck
    | some none => handleRequest st
    | some (some s) =>
      checkComplete
        { st with
          expectedRecvLen := st.recvBuf.length+(strToUint wide s).toNat
          dataIdx := st.recvBuf.length }
  else checkComplete st

/-- The bytes come in chunks, each of which goes through the loop byte by byte; what comes
behind a request is not looked at. -/
def Reception.recv (wide : ℕ → UInt32) (reception : Reception) (arrived : Bytes) : Reception :=
  arrived.foldl (fun reception c => match reception with
    | .receiving st => recvByte wide st c
    | done => done) reception

def received (wide : ℕ → UInt32) (chunks : List Bytes) : Reception :=
  chunks.foldl (Reception.recv wide) (.receiving .start)

/-- It makes no difference how the bytes are divided. -/
theorem received_eq (wide : ℕ → UInt32) (chunks : List Bytes) :
    received wide chunks = Reception.recv wide (.receiving .start) chunks.flatten := by
  unfold received
  generalize Reception.receiving .start = reception
  induction chunks generalizing reception with
  | nil => rfl
  | cons chunk chunks ih =>
    rw [List.foldl_cons,ih,List.flatten_cons,Reception.recv,Reception.recv,Reception.recv,
      List.foldl_append]

end ReceivedRequests
end RemotePkgInstaller
