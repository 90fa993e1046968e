import RemotePkgInstaller.ReceivedRequests
import RemotePkgInstaller.SbBuffers

/-! `sb_stream_recv` in memory that may run out.  Whatever `recv` and `realloc` give, it reads only
what is allocated, and hands on the request that the bytes spell or none. -/
namespace RemotePkgInstaller
namespace ReceiveLoops

open ReceivedRequests SbBuffers SendStream Settings

/-- What `recv` gives: bytes, of which its buffer takes 4095, or none, perhaps because it would
have to wait for them. -/
inductive Recv
  | data (buf : {buf : Bytes // 0 < buf.length ∧ buf.length ≤ 4095})
  | none (wouldBlock : Bool)

/-- The stream while it receives, with its buffer. -/
structure RecvStream where
  headerDone : Bool
  recvBuf : SbBuffer
  expectedRecvLen : ℕ
  dataIdx : ℕ

namespace RecvStream

def start : RecvStream := ⟨false,.init,0,0⟩

/-- The stream with what it has received. -/
def received (st : RecvStream) : Receiving :=
  ⟨st.headerDone,st.recvBuf.text,st.expectedRecvLen,st.dataIdx⟩

end RecvStream

/-- Where `sb_stream_recv` stands: it waits, or has come to a request, which it hands on with its
memory, or stops at a request line that is none, at the end of the bytes, at the end of the memory,
never, or at a read behind it. -/
inductive Receipt
  | receiving (st : RecvStream)
  | request (r : ReceivedRequest) (mem : Bytes)
  | invalid
  | ended (wouldBlock : Bool)
  | outOfMem
  | stuck
  | overread

/-- The string at the beginning of the buffer, if it ends in there. -/
def stringIn (b : SbBuffer) : Option Bytes := if b.mem.contains 0 then some (cstr b.mem) else none

section Loop

variable (wide : ℕ → UInt32) (results : Reallocs)

/-- Goes on with the string that the buffer holds once it is terminated. -/
def terminated (st : RecvStream) (f : RecvStream → Bytes → Receipt) : Receipt :=
  let r := sbBufferNullTerminate results st.recvBuf
  if r.1 ≠ .success then .outOfMem
  else
    match stringIn r.2 with
    | none => .overread
    | some s => f { st with recvBuf := r.2 } s

/-- From `handle_request` on. -/
def handleRequest (st : RecvStream) : Receipt :=
  terminated results st fun st s =>
    match requestLine s with
    | none => .invalid
    | some (method,pathIdx,ver) =>
      if ver.take 4 ≠ bytes "HTTP" then .invalid
      else
        let path := (urlDecode (s.drop pathIdx) 512).2
        .request ⟨method,cstr path,st.recvBuf.text,st.expectedRecvLen,st.dataIdx⟩ st.recvBuf.mem

def checkComplete (st : RecvStream) : Receipt :=
  if st.expectedRecvLen = st.recvBuf.len then handleRequest results st else .receiving st

/-- The last four bytes of the buffer end a header. -/
def endsHeader (st : RecvStream) : Bool :=
  !st.headerDone && 4 ≤ st.recvBuf.len &&
    (st.recvBuf.mem.drop (st.recvBuf.len-4)).take 4 = crlf++crlf

def findLength (st : RecvStream) : Receipt :=
  terminated results { st with headerDone := true } fun st text =>
    match findHeaderValue (bytes "Content-Length") (text.length+1) text with
    | none => .stuck
    | some none => handleRequest results st
    | some (some s) =>
      checkComplete results
        { st with
          expectedRecvLen := st.recvBuf.len+(strToUint wide s).toNat
          dataIdx := st.recvBuf.len }

def recvByte (st : RecvStream) (c : UInt8) : Receipt :=
  let pushed := sbBufferPushChar results st.recvBuf c
  if pushed.1 ≠ .success then .outOfMem
  else
    let st := { st with recvBuf := pushed.2 }
    if endsHeader st then findLength wide results st else checkComplete results st

def Receipt.recv (receipt : Receipt) (arrived : Bytes) : Receipt :=
  arrived.foldl (fun receipt c => match receipt with
    | .receiving st => recvByte wide results st c
    | done => done) receipt

/-- The loop; nothing is received behind a request. -/
def sbStreamRecv (receipt : Receipt) : List Recv → Receipt
  | [] => receipt
  | recv::recvs =>
    match receipt with
    | .receiving st =>
      match recv with
      | .none wouldBlock => .ended wouldBlock
      | .data buf => sbStreamRecv ((Receipt.receiving st).recv wide results buf.val) recvs
    | done => done

end Loop

/-- The bytes that come before `recv` gives none. -/
def arrived : List Recv → List Bytes
  | .data buf::recvs => buf.val::arrived recvs
  | _ => []

/-- It stands where the bytes so far lead with room for everything, or at the end of the memory.
The string of a request ends behind what has been received, and the buffer has not grown to much
more than twice that. -/
inductive Follows (results : Reallocs) : Reception → Receipt → Prop
  | receiving {st : RecvStream} (hcap : st.recvBuf.cap ≤ 2*st.recvBuf.len+2) :
      Follows results (.receiving st.received) (.receiving st)
  | request {r : ReceivedRequest} {mem : Bytes} (hmem : r.recvBuf++[0] <+: mem)
      (hcap : mem.length ≤ 2*r.recvBuf.length+2) : Follows results (.request r) (.request r mem)
  | invalid : Follows results .closed .invalid
  | outOfMem {reception : Reception} (h : ∃ k, results k = none) :
      Follows results reception .outOfMem
  | stuck : Follows results .stuck .stuck

section Follows

variable {wide : ℕ → UInt32} {results : Reallocs} {b : SbBuffer} {st : RecvStream}
  {reception : Reception} {receipt : Receipt}

theorem cap_pushChar (results : Reallocs) (chr : UInt8) (h : b.cap ≤ 2*b.len+2) :
    (sbBufferPushChar results b chr).2.cap ≤ 2*b.len+2 := by
  have hroom : (makeRoom results b).2.cap ≤ 2*b.len+2 := by
    unfold makeRoom
    split_ifs with hfull
    · refine (cap_reserve ..).trans (max_le h ?_)
      rw [nextCap_eq]
      split_ifs <;> omega
    · exact h
  unfold sbBufferPushChar
  split_ifs
  · unfold SbBuffer.put SbBuffer.cap
    rwa [List.length_set]
  · exact hroom

theorem no_memory {more : Bytes} {r : SbResult × SbBuffer} (h : Does results b more r)
    (hfailed : r.1 ≠ .success) : ∃ k, results k = none := by
  by_contra hall
  exact hfailed (h.memory (not_exists.mp hall))

/-- What lies behind a terminator is not looked at. -/
theorem cstr_terminated (s rest : Bytes) : cstr (s++0::rest) = cstr s := by
  induction s with
  | nil => rfl
  | cons c s ih =>
    unfold cstr at ih ⊢
    rw [List.cons_append,List.takeWhile_cons,List.takeWhile_cons,ih]

theorem cstr_cstr (s : Bytes) : cstr (cstr s) = cstr s := cstr_eq_self fun _ => cstr_ne_zero

theorem requestLine_cstr (s : Bytes) : requestLine (cstr s) = requestLine s := by
  rw [requestLine,requestLine,cstr_cstr]

theorem stringIn_eq {s : Bytes} (h : s++[0] <+: b.mem) : stringIn b = some (cstr s) := by
  obtain ⟨rest,hrest⟩ := h
  rw [List.append_assoc,List.singleton_append] at hrest
  have hmem : b.mem.contains 0 = true := by
    rw [← hrest]
    simp
  rw [stringIn,if_pos hmem,← hrest,cstr_terminated]

/-- The buffer once it is terminated. -/
structure Terminated (b b' : SbBuffer) : Prop where
  text : b'.text = b.text
  mem : b.text++[0] <+: b'.mem
  cap : b'.cap ≤ 2*b.len+2

theorem Terminated.len {b' : SbBuffer} (h : Terminated b b') : b'.len = b.len := by
  rw [← SbBuffer.length_text,h.text,SbBuffer.length_text]

theorem terminated_nullTerminate (hcap : b.cap ≤ 2*b.len+2)
    (h : (sbBufferNullTerminate results b).1 = .success) :
    Terminated b (sbBufferNullTerminate results b).2 := by
  obtain ⟨hdoes,hzero⟩ := @nullTerminate_does results b
  have htext := hdoes.pushed h
  rw [List.append_nil] at htext
  have hlen : (sbBufferNullTerminate results b).2.len = b.len := by
    rw [← SbBuffer.length_text,htext,SbBuffer.length_text]
  refine ⟨htext,?_,?_⟩
  · have htake : (sbBufferNullTerminate results b).2.mem.take (b.len+1) = b.text++[0] := by
      rw [List.take_add_one,hzero h,← htext,SbBuffer.text,hlen]
      rfl
    exact htake ▸ List.take_prefix ..
  · have hpush := cap_pushChar results 0 hcap
    unfold sbBufferNullTerminate
    dsimp only
    split_ifs <;> exact hpush

theorem follows_terminated {f : RecvStream → Bytes → Receipt}
    (hcap : st.recvBuf.cap ≤ 2*st.recvBuf.len+2)
    (hf : ∀ b', Terminated st.recvBuf b' →
      Follows results reception (f { st with recvBuf := b' } (cstr st.recvBuf.text))) :
    Follows results reception (terminated results st f) := by
  unfold terminated
  dsimp only
  split_ifs with h
  · exact .outOfMem (no_memory nullTerminate_does.1 h)
  · have hended := terminated_nullTerminate hcap (not_not.mp h)
    rw [stringIn_eq hended.mem]
    exact hf _ hended

theorem follows_handleRequest (hcap : st.recvBuf.cap ≤ 2*st.recvBuf.len+2) :
    Follows results (ReceivedRequests.handleRequest st.received) (handleRequest results st) := by
  refine follows_terminated hcap fun b' hended => ?_
  rw [requestLine_cstr,ReceivedRequests.handleRequest]
  have htext : st.received.recvBuf = st.recvBuf.text := rfl
  rw [htext]
  cases requestLine st.recvBuf.text with
  | none => exact .invalid
  | some found =>
    obtain ⟨method,pathIdx,ver⟩ := found
    dsimp only
    split_ifs
    · exact .invalid
    · rw [hended.text]
      refine .request hended.mem ?_
      rw [SbBuffer.length_text]
      exact hended.cap

theorem follows_checkComplete (hcap : st.recvBuf.cap ≤ 2*st.recvBuf.len+2) :
    Follows results (ReceivedRequests.checkComplete st.received) (checkComplete results st) := by
  have hlength : st.received.recvBuf.length = st.recvBuf.len := SbBuffer.length_text _
  have hexpected : st.received.expectedRecvLen = st.expectedRecvLen := rfl
  unfold ReceivedRequests.checkComplete checkComplete
  rw [hlength,hexpected]
  split_ifs
  · exact follows_handleRequest hcap
  · exact .receiving hcap

theorem endsHeader_iff : endsHeader st = true ↔ ReceivedRequests.endsHeader st.received := by
  unfold endsHeader ReceivedRequests.endsHeader
  have htext : st.received.recvBuf = st.recvBuf.text := rfl
  have hdone : st.received.headerDone = st.headerDone := rfl
  rw [htext,hdone,List.suffix_iff_eq_drop,SbBuffer.length_text]
  have hlen : (crlf++crlf).length = 4 := rfl
  rw [hlen]
  simp only [Bool.and_eq_true,Bool.not_eq_true',decide_eq_true_eq]
  by_cases h4 : 4 ≤ st.recvBuf.len
  · have hdrop : st.recvBuf.text.drop (st.recvBuf.len-4) =
        (st.recvBuf.mem.drop (st.recvBuf.len-4)).take 4 := by
      rw [SbBuffer.text,List.drop_take]
      congr 1
      omega
    rw [hdrop]
    simp only [h4,and_true,eq_comm]
  · refine ⟨fun h => absurd h.1.2 h4,fun h => ?_⟩
    have hends := h.2
    have hlength := congrArg List.length hends
    rw [hlen,List.length_drop,SbBuffer.length_text] at hlength
    omega

/-- What becomes of the header, once it is there. -/
theorem follows_findLength (hcap : st.recvBuf.cap ≤ 2*st.recvBuf.len+2) :
    Follows results
      (match findHeaderValue (bytes "Content-Length") ((cstr st.received.recvBuf).length+1)
          (cstr st.received.recvBuf) with
      | none => .stuck
      | some none => ReceivedRequests.handleRequest { st.received with headerDone := true }
      | some (some s) => ReceivedRequests.checkComplete
          { st.received with
            headerDone := true
            expectedRecvLen := st.received.recvBuf.length+(strToUint wide s).toNat
            dataIdx := st.received.recvBuf.length })
      (findLength wide results st) := by
  refine follows_terminated hcap fun b' hended => ?_
  have htext : st.received.recvBuf = st.recvBuf.text := rfl
  rw [htext]
  cases findHeaderValue (bytes "Content-Length") ((cstr st.recvBuf.text).length+1)
    (cstr st.recvBuf.text) with
  | none => exact .stuck
  | some found =>
    have hcap' : b'.cap ≤ 2*b'.len+2 := hended.len ▸ hended.cap
    cases found with
    | none =>
      have hfollows := @follows_handleRequest results ⟨true,b',st.expectedRecvLen,st.dataIdx⟩ hcap'
      rwa [RecvStream.received,hended.text] at hfollows
    | some s =>
      have hfollows := @follows_checkComplete results
        ⟨true,b',b'.len+(strToUint wide s).toNat,b'.len⟩ hcap'
      rw [RecvStream.received,hended.text,hended.len,← SbBuffer.length_text] at hfollows
      rwa [hended.len,← SbBuffer.length_text]

theorem follows_recvByte (hcap : st.recvBuf.cap ≤ 2*st.recvBuf.len+2) (c : UInt8) :
    Follows results (ReceivedRequests.recvByte wide st.received c)
      (recvByte wide results st c) := by
  have hdoes : Does results st.recvBuf [c] (sbBufferPushChar results st.recvBuf c) :=
    pushChar_does c
  have hpush := cap_pushChar results c hcap
  unfold recvByte
  dsimp only
  split_ifs with hfailed hends
  · exact .outOfMem (no_memory hdoes hfailed)
  all_goals
    have htext := hdoes.pushed (not_not.mp hfailed)
    have hlen : (sbBufferPushChar results st.recvBuf c).2.len = st.recvBuf.len+1 := by
      rw [← SbBuffer.length_text,htext,List.length_append,SbBuffer.length_text]
      rfl
    have hcap' : (sbBufferPushChar results st.recvBuf c).2.cap ≤
        2*(sbBufferPushChar results st.recvBuf c).2.len+2 := by omega
    have hreceived : { st.received with recvBuf := st.received.recvBuf++[c] } =
        RecvStream.received { st with recvBuf := (sbBufferPushChar results st.recvBuf c).2 } := by
      unfold RecvStream.received
      rw [htext]
    rw [ReceivedRequests.recvByte,hreceived]
    dsimp only
  · rw [if_pos (endsHeader_iff.mp hends)]
    exact follows_findLength hcap'
  · rw [if_neg (fun h => hends (endsHeader_iff.mpr h))]
    exact follows_checkComplete hcap'

theorem Follows.recv (h : Follows results reception receipt) (arrived : Bytes) :
    Follows results (reception.recv wide arrived) (receipt.recv wide results arrived) := by
  induction arrived generalizing reception receipt with
  | nil => exact h
  | cons c arrived ih =>
    refine ih ?_
    cases h with
    | receiving hcap => exact follows_recvByte hcap c
    | request hmem hcap => exact .request hmem hcap
    | invalid => exact .invalid
    | outOfMem h => exact .outOfMem h
    | stuck => exact .stuck

theorem recv_fixed (h : ∀ st, receipt ≠ .receiving st) (recvs : List Recv) :
    sbStreamRecv wide results receipt recvs = receipt := by
  cases recvs with
  | nil => rfl
  | cons recv recvs =>
    unfold sbStreamRecv
    split
    · next st => exact absurd rfl (h st)
    · rfl

theorem recv_done (h : ∀ st, receipt ≠ .receiving st) (arrived : Bytes) :
    receipt.recv wide results arrived = receipt := by
  induction arrived with
  | nil => rfl
  | cons c arrived ih =>
    rw [Receipt.recv,List.foldl_cons]
    split
    · next st => exact absurd rfl (h st)
    · exact ih

theorem sbStreamRecv_data (receipt : Receipt)
    (buf : {buf : Bytes // 0 < buf.length ∧ buf.length ≤ 4095}) (recvs : List Recv) :
    sbStreamRecv wide results receipt (.data buf::recvs) =
      sbStreamRecv wide results (receipt.recv wide results buf.val) recvs := by
  by_cases h : ∃ st, receipt = .receiving st
  · obtain ⟨st,rfl⟩ := h
    rfl
  · rw [not_exists] at h
    rw [recv_done h,recv_fixed h,recv_fixed h]

theorem Follows.sbStreamRecv (h : Follows results reception receipt) (recvs : List Recv) :
    Follows results ((arrived recvs).foldl (Reception.recv wide) reception)
      (sbStreamRecv wide results receipt recvs) ∨
    ∃ st wouldBlock, (arrived recvs).foldl (Reception.recv wide) reception = .receiving st ∧
      sbStreamRecv wide results receipt recvs = .ended wouldBlock ∧
      Recv.none wouldBlock ∈ recvs := by
  induction recvs generalizing reception receipt with
  | nil => exact Or.inl h
  | cons recv recvs ih =>
    cases recv with
    | data buf =>
      rw [sbStreamRecv_data]
      exact (ih (h.recv buf.val)).imp id fun ⟨st,wouldBlock,hst,hended,hmem⟩ =>
        ⟨st,wouldBlock,hst,hended,List.mem_cons_of_mem _ hmem⟩
    | none wouldBlock =>
      cases h with
      | receiving hcap => exact Or.inr ⟨_,wouldBlock,rfl,rfl,List.mem_cons_self⟩
      | request hmem hcap => exact Or.inl (.request hmem hcap)
      | invalid => exact Or.inl .invalid
      | outOfMem h => exact Or.inl (.outOfMem h)
      | stuck => exact Or.inl .stuck

variable (wide) (results)

theorem follows_start : Follows results (.receiving .start) (.receiving .start) :=
  @Follows.receiving results .start (by decide)

/-- Whatever `recv` and `realloc` give, `sb_stream_recv` never reads behind its memory.  It hands
on the request that the bytes spell, in memory that is terminated and not much more than twice as
large, and no other; or it stops, for want of memory, or because no more bytes come. -/
theorem sbStreamRecv_follows (recvs : List Recv) :
    Follows results (ReceivedRequests.received wide (arrived recvs))
      (ReceiveLoops.sbStreamRecv wide results (.receiving .start) recvs) ∨
    ∃ st wouldBlock, ReceivedRequests.received wide (arrived recvs) = .receiving st ∧
      ReceiveLoops.sbStreamRecv wide results (.receiving .start) recvs = .ended wouldBlock ∧
      Recv.none wouldBlock ∈ recvs :=
  (follows_start results).sbStreamRecv recvs

end Follows

end ReceiveLoops
end RemotePkgInstaller
