import RemotePkgInstaller.LinkedLists

/-! The streams of the server and the threads that handle them: `sb_poll_server` accepts a
connection, links its stream and gives it to a `conn_thread` of its own, which unlinks and
destroys it.  A step is one access to what the threads share, or one of their calls. -/
namespace RemotePkgInstaller
namespace StreamThreads

open LinkedLists

/-- The fields of `sb_Stream` that others write, or that its end depends on. -/
structure Stream (κ : Type) where
  links : Links κ
  closing : Bool
  sendFd : Bool

/-- What `sb_stream_new` makes. -/
def Stream.new (κ : Type) : Stream κ := ⟨⟨none,none⟩,false,false⟩

/-- Where the life of a connection stands. -/
inductive Pc (κ : Type)
  | lockToLink | linkFirst | linkWalk (st2 : κ) | linkNext (st2 : κ) | linkPrev (st2 : κ)
  | linkHead | unlockLinked
  | create | connect | recv | send
  | lockToUnlink | unlinkNext | unlinkPrev | unlinkHead | unlockUnlinked
  | emitClose | closeSocket | closeFile | free
  | gone
  deriving DecidableEq

inductive Call
  | openFile | closeFile | closeSocket | free
  deriving DecidableEq

/-- A connection: its stream, how far its life has come, whether it has a thread of its own by
now, and the calls made for it. -/
structure Conn (κ : Type) where
  st : κ
  pc : Pc κ
  own : Bool
  calls : List Call

/-- The connections are those with a stream, in the order in which they came. -/
structure System (κ : Type) where
  streams : Option κ
  heap : κ → Option (Stream κ)
  streamMtx : Option ℕ
  conns : List (Conn κ)
  faulted : Bool

/-- What the calls of a step do: whether they fail, whether they close the stream, and whether
`recv` leaves it with an open file, or `send` comes to the end of that file. -/
structure Answer where
  failed : Bool
  closes : Bool
  file : Bool

variable {κ : Type}

def Pc.isGone : Pc κ → Bool
  | gone => true
  | _ => false

/-- Between the lock of `stream_mtx` and its unlock. -/
def Pc.inside : Pc κ → Bool
  | linkFirst | linkWalk _ | linkNext _ | linkPrev _ | linkHead | unlockLinked => true
  | unlinkNext | unlinkPrev | unlinkHead | unlockUnlinked => true
  | _ => false

/-- The stream is in the list: from the last write that links it to the first that does not. -/
def Pc.linked : Pc κ → Bool
  | unlockLinked | create | connect | recv | send | lockToUnlink | unlinkNext => true
  | _ => false

/-- The streams in the list. -/
def linkedOf (conns : List (Conn κ)) : List κ :=
  (conns.filter fun c => c.pc.linked).map Conn.st

/-- `sb_poll_server` is busy with a connection until that has a thread of its own. -/
def polling (conns : List (Conn κ)) : Bool := conns.any fun c => !c.own && !c.pc.isGone

namespace System

def cells (s : System κ) : Cells κ := fun k => (s.heap k).map Stream.links

def start (κ : Type) : System κ := ⟨none,fun _ => none,none,[],false⟩

def fault (s : System κ) : System κ := { s with faulted := true }

/-- Reads through a pointer. -/
def access (s : System κ) (k : κ) (f : Stream κ → System κ) : System κ :=
  match s.heap k with
  | some x => f x
  | none => s.fault

def goto (s : System κ) (i : ℕ) (c : Conn κ) (pc : Pc κ) : System κ :=
  { s with conns := s.conns.set i { c with pc } }

/-- `pthread_mutex_lock`: the thread waits while another holds it. -/
def lock (s : System κ) (i : ℕ) (c : Conn κ) (pc : Pc κ) : System κ :=
  match s.streamMtx with
  | none => { s with streamMtx := some i }.goto i c pc
  | some _ => s

def unlock (s : System κ) : System κ := { s with streamMtx := none }

variable [DecidableEq κ]

def store (s : System κ) (k : κ) (x : Stream κ) : System κ :=
  { s with heap := Function.update s.heap k (some x) }

def sbStreamLink (s : System κ) (i : ℕ) (c : Conn κ) : System κ :=
  match c.pc with
  | .lockToLink => s.lock i c .linkFirst
  | .linkFirst =>
    match s.streams with
    | some st2 => s.goto i c (.linkWalk st2)
    | none => s.goto i c .linkHead
  | .linkWalk st2 => s.access st2 fun x =>
    match x.links.next with
    | some st3 => s.goto i c (.linkWalk st3)
    | none => s.goto i c (.linkNext st2)
  | .linkNext st2 => s.access st2 fun x =>
    (s.store st2 { x with links := { x.links with next := some c.st } }).goto i c (.linkPrev st2)
  | .linkPrev st2 => s.access c.st fun x =>
    (s.store c.st { x with links := { x.links with prev := some st2 } }).goto i c .unlockLinked
  | .linkHead => { s with streams := some c.st }.goto i c .unlockLinked
  | .unlockLinked => s.unlock.goto i c .create
  | _ => s

def sbStreamUnlink (s : System κ) (i : ℕ) (c : Conn κ) : System κ :=
  match c.pc with
  | .lockToUnlink => s.lock i c .unlinkNext
  | .unlinkNext => s.access c.st fun x =>
    match x.links.next with
    | some next => s.access next fun y =>
      (s.store next { y with links := { y.links with prev := x.links.prev } }).goto i c .unlinkPrev
    | none => s.goto i c .unlinkPrev
  | .unlinkPrev => s.access c.st fun x =>
    match x.links.prev with
    | some prev => s.access prev fun y =>
      (s.store prev { y with links := { y.links with next := x.links.next } }).goto i c .unlinkHead
    | none => s.goto i c .unlinkHead
  | .unlinkHead =>
    if s.streams = some c.st then
      s.access c.st fun x => { s with streams := x.links.next }.goto i c .unlockUnlinked
    else s.goto i c .unlockUnlinked
  | .unlockUnlinked => s.unlock.goto i c .emitClose
  | _ => s

/-- The handler's result of the close event is not looked at. -/
def sbStreamDestroy (s : System κ) (i : ℕ) (c : Conn κ) : System κ :=
  match c.pc with
  | .emitClose => s.access c.st fun _ => s.goto i c .closeSocket
  | .closeSocket => s.access c.st fun _ =>
    s.goto i { c with calls := c.calls++[.closeSocket] } .closeFile
  | .closeFile => s.access c.st fun x =>
    if x.sendFd then s.goto i { c with calls := c.calls++[.closeFile] } .free
    else s.goto i c .free
  | .free => s.access c.st fun _ =>
    { s with heap := Function.update s.heap c.st none }.goto i
      { c with calls := c.calls++[Call.free] } .gone
  | _ => s

/-- Emits the connect event. -/
def emitConnect (s : System κ) (i : ℕ) (c : Conn κ) (answer : Answer) : System κ :=
  s.access c.st fun x =>
    (s.store c.st { x with closing := x.closing || answer.closes }).goto i c
      (if answer.failed then .lockToUnlink else .recv)

/-- The handler runs inside of it, and may leave the stream with a file to send. -/
def sbStreamRecv (s : System κ) (i : ℕ) (c : Conn κ) (answer : Answer) : System κ :=
  s.access c.st fun x =>
    (s.store c.st { x with
      closing := x.closing || answer.closes
      sendFd := x.sendFd || answer.file }).goto i
      { c with calls := c.calls++(if answer.file then [.openFile] else []) }
      (if answer.failed then .lockToUnlink else .send)

/-- One round of the loop that sends. -/
def sbStreamSend (s : System κ) (i : ℕ) (c : Conn κ) (answer : Answer) : System κ :=
  s.access c.st fun x =>
    if x.closing then s.goto i c .lockToUnlink
    else if answer.failed then s.goto i c .lockToUnlink
    else if x.sendFd && answer.file then
      (s.store c.st { x with sendFd := false }).goto i
        { c with calls := c.calls++[.closeFile] } .send
    else (s.store c.st { x with closing := answer.closes }).goto i c .send

/-- One step for a connection, by the thread that has it. -/
def advance (s : System κ) (i : ℕ) (c : Conn κ) (answer : Answer) : System κ :=
  match c.pc with
  | .create =>
    if answer.failed then s.goto i c .lockToUnlink else s.goto i { c with own := true } .connect
  | .connect => s.emitConnect i c answer
  | .recv => s.sbStreamRecv i c answer
  | .send => s.sbStreamSend i c answer
  | .gone => s
  | .lockToLink | .linkFirst | .linkWalk _ | .linkNext _ | .linkPrev _ | .linkHead
  | .unlockLinked => s.sbStreamLink i c
  | .lockToUnlink | .unlinkNext | .unlinkPrev | .unlinkHead | .unlockUnlinked =>
    s.sbStreamUnlink i c
  | .emitClose | .closeSocket | .closeFile | .free => s.sbStreamDestroy i c

/-- A connection comes, and `malloc` finds memory for its stream. -/
def accept (s : System κ) (st : κ) : System κ :=
  { s with
    heap := Function.update s.heap st (some (.new κ))
    conns := s.conns++[⟨st,.lockToLink,false,[]⟩] }

end System

/-- The next step of the system.  A connection without memory for its stream is closed at once,
and leaves nothing behind. -/
inductive Move (κ : Type)
  | accept (st : κ)
  | advance (i : ℕ) (answer : Answer)

variable [DecidableEq κ]

/-- A move that cannot be made leaves everything as it is: `sb_poll_server` accepts only when it
is not busy, and memory in use is not given out again. -/
def System.step (s : System κ) : Move κ → System κ
  | .accept st => if polling s.conns || (s.heap st).isSome then s else s.accept st
  | .advance i answer =>
    match s.conns[i]? with
    | some c => s.advance i c answer
    | none => s

def System.run (s : System κ) (moves : List (Move κ)) : System κ := moves.foldl System.step s

/-- `sb_stream_destroy` in one go, of whatever the pointer points at. -/
def System.destroy (s : System κ) : Option κ → System κ
  | none => s.fault
  | some st => s.access st fun _ => { s with heap := Function.update s.heap st none }

/-- A round of the loop in `sb_close_server`: it moves `st` on before it destroys the stream.
It does not go on from a fault. -/
def closeRound (_ : ℕ) : System κ × Option κ → Option (System κ × Option κ)
  | (_,none) => none
  | (s,some st) =>
    if s.faulted then none
    else
      match s.heap st with
      | none => some (s.fault,none)
      | some x => some (s.destroy x.links.next,x.links.next)

end StreamThreads
end RemotePkgInstaller
