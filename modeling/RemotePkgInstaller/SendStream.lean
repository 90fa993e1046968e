import RemotePkgInstaller.Requests

/-! The stream of a client from the point where its request is complete: the functions of
`sandbird.c` that answer, each in the state that the ones before it have left. -/
namespace RemotePkgInstaller
namespace SendStream

open Requests Responses

inductive StreamState
  | receivingHeader | receivingRequest | sendingStatus | sendingHeader | sendingData
  | sendingFile | closing
  deriving DecidableEq

/-- The states in the order in which they are compared. -/
def StreamState.rank : StreamState → ℕ
  | receivingHeader => 0
  | receivingRequest => 1
  | sendingStatus => 2
  | sendingHeader => 3
  | sendingData => 4
  | sendingFile => 5
  | closing => 6

inductive SbResult
  | success | failure | outOfMem | truncated | badState | badResult | cantOpen | notFound
  deriving DecidableEq

def sbErrorStr : SbResult → Bytes
  | .success => bytes "success"
  | .failure => bytes "failure"
  | .outOfMem => bytes "out of memory"
  | .truncated => bytes "result truncated"
  | .badState => bytes "bad stream state for this operation"
  | .badResult => bytes "bad result code from event handler"
  | .cantOpen => bytes "cannot open file"
  | .notFound => bytes "not found"

/-- What is queued for the client, and the file that is sent behind it. -/
structure Stream where
  state : StreamState
  sendBuf : Bytes
  sendFile : Option Bytes
  deriving DecidableEq

/-- The stream that `event_handler` is given. -/
def Stream.received : Stream := ⟨.sendingStatus,[],none⟩

def crlf : Bytes := [0x0d,0x0a]

def statusLine (code : ℕ) (msg : Bytes) : Bytes :=
  bytes "HTTP/1.1 "++Decimal.text code++bytes " "++msg++crlf

def headerLine (header : Bytes × Bytes) : Bytes := header.1++bytes ": "++header.2++crlf

/-- Every push to the buffer finds room. -/
def Stream.push (st : Stream) (data : Bytes) : Stream := { st with sendBuf := st.sendBuf++data }

def sbSendStatus (st : Stream) (code : ℕ) (msg : Bytes) : SbResult × Stream :=
  if st.state ≠ .sendingStatus then (.badState,st)
  else (.success,{ st.push (statusLine code msg) with state := .sendingHeader })

/-- Goes on once there is a status line, after one of its own if need be. -/
def withStatus (st : Stream) (f : Stream → SbResult × Stream) : SbResult × Stream :=
  if st.state.rank < StreamState.sendingHeader.rank then
    match sbSendStatus st 200 (bytes "OK") with
    | (.success,st) => f st
    | failed => failed
  else f st

def sbSendHeader (st : Stream) (field val : Bytes) : SbResult × Stream :=
  if StreamState.sendingHeader.rank < st.state.rank then (.badState,st)
  else withStatus st fun st => (.success,st.push (headerLine (field,val)))

def sbStreamFinalizeHeader (st : Stream) : SbResult × Stream :=
  withStatus st fun st => (.success,{ st.push crlf with state := .sendingData })

/-- `fd` and `size` are what `open` and `fstat` make of the file. -/
def sbSendFile (st : Stream) (filename : Bytes) (fd : ℤ) (size : Option ℕ) : SbResult × Stream :=
  if StreamState.sendingHeader.rank < st.state.rank then (.badState,st)
  else if fd ≤ 0 then (.cantOpen,st)
  else
    match size with
    | none => (.badResult,st)
    | some size =>
      match sbSendHeader st (bytes "Content-Length") (Decimal.text size) with
      | (.success,st) =>
        match sbStreamFinalizeHeader st with
        | (.success,st) => (.success,{ st with sendFile := some filename, state := .sendingFile })
        | failed => failed
      | failed => failed

def sbWritef (st : Stream) (text : Bytes) : SbResult × Stream :=
  if st.state.rank < StreamState.sendingData.rank then
    match sbStreamFinalizeHeader st with
    | (.success,st) =>
      if st.state ≠ .sendingData then (.badState,st) else (.success,st.push text)
    | failed => failed
  else if st.state ≠ .sendingData then (.badState,st)
  else (.success,st.push text)

/-- A call that a handler makes on the stream. -/
inductive StreamCall
  | sb (call : SbCall)
  | sendFile (filename : Bytes) (fd : ℤ) (size : Option ℕ)
  deriving DecidableEq

def Stream.perform (st : Stream) : StreamCall → SbResult × Stream
  | .sb (.sendStatus code title) => sbSendStatus st code title
  | .sb (.sendHeader name value) => sbSendHeader st name value
  | .sb (.write text) => sbWritef st text
  | .sendFile filename fd size => sbSendFile st filename fd size

def Stream.queue (st : Stream) (calls : List StreamCall) : Stream :=
  calls.foldl (fun st call => (st.perform call).2) st

/-- The calls that have succeeded. -/
def Stream.accepted : Stream → List StreamCall → List StreamCall
  | _,[] => []
  | st,call::calls =>
    if (st.perform call).1 = .success then call::(st.perform call).2.accepted calls
    else (st.perform call).2.accepted calls

def headerCalls (headers : List (Bytes × Bytes)) : List StreamCall :=
  headers.map fun header => .sb (.sendHeader header.1 header.2)

inductive Body
  | text (t : Bytes)
  | file (filename : Bytes) (fd : ℤ) (size : ℕ)

/-- One http response. -/
structure Response where
  code : ℕ
  title : Bytes
  headers : List (Bytes × Bytes)
  body : Body

/-- The call that queues the body, and with it the end of the header. -/
def Body.call : Body → StreamCall
  | text t => .sb (.write t)
  | file filename fd size => .sendFile filename fd (some size)

/-- The headers that come with the body. -/
def Body.headers : Body → List (Bytes × Bytes)
  | text _ => []
  | file _ _ size => [(bytes "Content-Length",Decimal.text size)]

def Body.queued : Body → Bytes
  | text t => t
  | file _ _ _ => []

def Body.sendFile : Body → Option Bytes
  | text _ => none
  | file filename _ _ => some filename

def OneLine (text : Bytes) : Prop := (0x0d : UInt8) ∉ text ∧ (0x0a : UInt8) ∉ text

instance (text : Bytes) : Decidable (OneLine text) := by
  delta OneLine
  infer_instance

namespace Response

def calls (r : Response) : List StreamCall :=
  .sb (.sendStatus r.code r.title)::headerCalls r.headers++[r.body.call]

/-- Status line, header lines, the empty line, and the body as far as it is queued. -/
def text (r : Response) : Bytes :=
  statusLine r.code r.title++(r.headers++r.body.headers).flatMap headerLine++crlf++r.body.queued

/-- Neither the title nor the name or value of a header goes on to another line. -/
def OneLineEach (r : Response) : Prop :=
  OneLine r.title ∧ ∀ header ∈ r.headers++r.body.headers, OneLine header.1 ∧ OneLine header.2

end Response

/-- The calls have queued the one response, and nothing else was taken of them. -/
structure Answers (calls : List StreamCall) (r : Response) : Prop where
  lines : r.OneLineEach
  accepted : Stream.received.accepted calls = r.calls
  queued : (Stream.received.queue calls).sendBuf = r.text
  sendFile : (Stream.received.queue calls).sendFile = r.body.sendFile

/-- The client gets one whole response. -/
def Complete (calls : List StreamCall) : Prop := ∃ r, Answers calls r

section Queue

variable {st : Stream} {calls calls' : List StreamCall}

theorem queue_append : st.queue (calls++calls') = (st.queue calls).queue calls' :=
  List.foldl_append

theorem accepted_append :
    st.accepted (calls++calls') = st.accepted calls++(st.queue calls).accepted calls' := by
  induction calls generalizing st with
  | nil => rfl
  | cons call calls ih =>
    have hqueue : st.queue (call::calls) = ((st.perform call).2).queue calls := rfl
    rw [List.cons_append,Stream.accepted,Stream.accepted,ih,hqueue]
    split_ifs <;> rfl

/-- The call is refused, and leaves the stream as it is. -/
def Stream.Refuses (st : Stream) (call : StreamCall) : Prop :=
  ∃ error, error ≠ .success ∧ st.perform call = (error,st)

theorem queue_refused {refused : List StreamCall} (h : ∀ call ∈ refused, st.Refuses call)
    (calls : List StreamCall) :
    st.queue (refused++calls) = st.queue calls ∧ st.accepted (refused++calls) = st.accepted calls := by
  induction refused with
  | nil => exact ⟨rfl,rfl⟩
  | cons call refused ih =>
    obtain ⟨error,herror,hcall⟩ := h call List.mem_cons_self
    obtain ⟨ihqueue,ihaccepted⟩ := ih fun call hmem => h call (List.mem_cons_of_mem _ hmem)
    have hqueue : st.queue (call::refused++calls) =
        ((st.perform call).2).queue (refused++calls) := rfl
    rw [hqueue,List.cons_append,Stream.accepted,hcall,if_neg herror]
    exact ⟨ihqueue,ihaccepted⟩

/-- Calls that are refused on the way make no difference to the response. -/
theorem Answers.insert {r : Response} (h : Answers (calls++calls') r) (refused : List StreamCall)
    (hrefused : ∀ call ∈ refused, (Stream.received.queue calls).Refuses call) :
    Answers (calls++(refused++calls')) r := by
  obtain ⟨hqueue,haccepted⟩ := queue_refused hrefused calls'
  have hstream : Stream.received.queue (calls++(refused++calls')) =
      Stream.received.queue (calls++calls') := by rw [queue_append,hqueue,queue_append]
  refine ⟨h.lines,?_,hstream ▸ h.queued,hstream ▸ h.sendFile⟩
  rw [accepted_append,haccepted,← accepted_append]
  exact h.accepted

theorem queue_accepted {call : StreamCall} {st' : Stream} (h : st.perform call = (.success,st'))
    (calls : List StreamCall) :
    st.queue (call::calls) = st'.queue calls ∧
      st.accepted (call::calls) = call::st'.accepted calls := by
  have hqueue : st.queue (call::calls) = ((st.perform call).2).queue calls := rfl
  rw [hqueue,Stream.accepted,h]
  exact ⟨rfl,if_pos rfl⟩

theorem perform_header (hst : st.state = .sendingHeader) (header : Bytes × Bytes) :
    st.perform (.sb (.sendHeader header.1 header.2)) = (.success,st.push (headerLine header)) := by
  simp [Stream.perform,sbSendHeader,withStatus,hst]

/-- Headers go behind the status line, and more of them may follow. -/
theorem queue_headers (hst : st.state = .sendingHeader) (headers : List (Bytes × Bytes)) :
    st.queue (headerCalls headers) = st.push (headers.flatMap headerLine) ∧
      st.accepted (headerCalls headers) = headerCalls headers := by
  induction headers generalizing st with
  | nil => simp [headerCalls,Stream.queue,Stream.accepted,Stream.push]
  | cons header headers ih =>
    obtain ⟨hqueue,haccepted⟩ := queue_accepted (perform_header hst header)
      (headerCalls headers)
    obtain ⟨ihqueue,ihaccepted⟩ := @ih (st.push (headerLine header)) hst
    constructor
    · refine hqueue.trans (ihqueue.trans ?_)
      simp [Stream.push,List.append_assoc]
    · exact haccepted.trans (congrArg _ ihaccepted)

/-- The body ends the header. -/
theorem perform_body (hst : st.state = .sendingHeader) {body : Body}
    (hfile : ∀ filename fd size, body = .file filename fd size → 0 < fd) :
    ∃ state, st.perform body.call = (.success,⟨state,
      st.sendBuf++body.headers.flatMap headerLine++crlf++body.queued,
      body.sendFile.orElse fun _ => st.sendFile⟩) := by
  cases body with
  | text t =>
    refine ⟨.sendingData,?_⟩
    simp [Stream.perform,Body.call,Body.headers,Body.queued,Body.sendFile,sbWritef,
      sbStreamFinalizeHeader,withStatus,Stream.push,hst,StreamState.rank]
  | file filename fd size =>
    refine ⟨.sendingFile,?_⟩
    have hfd := hfile filename fd size rfl
    simp [Stream.perform,Body.call,Body.headers,Body.queued,Body.sendFile,sbSendFile,sbSendHeader,
      sbStreamFinalizeHeader,withStatus,Stream.push,hst,not_le.mpr hfd]

/-- The stream between the status line and the first header. -/
def Stream.begun (code : ℕ) (title : Bytes) : Stream := ⟨.sendingHeader,statusLine code title,none⟩

theorem perform_status (code : ℕ) (title : Bytes) :
    Stream.received.perform (.sb (.sendStatus code title)) = (.success,.begun code title) := rfl

/-- A response whose body can be sent is sent as it is. -/
theorem answers_calls {r : Response} (hlines : r.OneLineEach)
    (hfile : ∀ filename fd size, r.body = .file filename fd size → 0 < fd) : Answers r.calls r := by
  obtain ⟨hqueue,haccepted⟩ := queue_accepted (perform_status r.code r.title)
    (headerCalls r.headers++[r.body.call])
  obtain ⟨hheaders,hacceptedHeaders⟩ := queue_headers
    (show (Stream.begun r.code r.title).state = .sendingHeader from rfl) r.headers
  obtain ⟨state,hbody⟩ := @perform_body ((Stream.begun r.code r.title).push
    (r.headers.flatMap headerLine)) rfl r.body hfile
  obtain ⟨hlast,hacceptedLast⟩ := queue_accepted hbody []
  have hstream : Stream.received.queue r.calls = ⟨state,r.text,r.body.sendFile⟩ := by
    rw [Response.calls,List.cons_append,hqueue,queue_append,hheaders,hlast]
    simp [Stream.queue,Stream.push,Stream.begun,Response.text]
  refine ⟨hlines,?_,by rw [hstream],by rw [hstream]⟩
  rw [Response.calls,List.cons_append,haccepted,accepted_append,hacceptedHeaders,hheaders,
    hacceptedLast]
  rfl

end Queue

end SendStream
end RemotePkgInstaller
