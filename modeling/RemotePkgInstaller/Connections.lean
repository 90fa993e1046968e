import RemotePkgInstaller.Payloads
import RemotePkgInstaller.ReceiveLoops
import RemotePkgInstaller.SentResponses

/-! `conn_thread` from the first byte of a client to the last one for it: what is received, the
handler that it leads to, and what is sent.  Whatever the client and the system do, a client that
spells one request is answered for no other; if it spells it to the end and nothing fails, it can
read the whole answer. -/
namespace RemotePkgInstaller
namespace Connections

open Answers CompleteAnswers EventHandler HttpText InstallPieces Installer Loops Payloads
  PercentCoding Programs Program QueuedStreams ReceiveLoops ReceivedRequests RequestHeads Requests
  Responses SbBuffers SendLoops SendStream SentResponses ServerCalls Settings

/-- What a connection meets: the bytes of its client, the memory for its two buffers, the socket
and the files that it sends from. -/
structure Connection where
  wide : ℕ → UInt32
  recvs : List Recv
  recvMem : Reallocs
  sprintf : Bytes → ℤ → Bytes
  sendMem : Reallocs
  io : SendIo
  content : Bytes → Bytes

namespace Connection

variable (c : Connection) (answer : Dispatch → List SbStreamCall)

def receipt : Receipt := sbStreamRecv c.wide c.recvMem (.receiving .start) c.recvs

/-- Where the thread begins to send, if it does; `answer` has the calls that a request leads to. -/
def sending : Option Sending :=
  match c.receipt with
  | .request r _ => (SbStream.received.queue c.sprintf c.sendMem (answer (dispatch r))).map
      (sendStart c.content)
  -- the stream is not closed, and there is nothing to send
  | .ended true => some (start .init none)
  | _ => none

/-- What the client has got after `n` rounds of the loop. -/
def wire (n : ℕ) : Bytes :=
  match c.sending answer with
  | none => []
  | some s => (after (round c.io c.sendMem) n 0 s).wire

end Connection

/-- A request to an endpoint of the API as a client spells it, with what it asks for. -/
inductive Spelled : Bytes → Dispatch → Prop
  | post {desc : HandlerDesc} (hdesc : ApiEndpoint desc) (head : PostHead) {p : Bytes}
      (hne : p ≠ []) (hnul : (0 : UInt8) ∉ p) (hlt : p.length < 2^32) :
      Spelled (head.text desc.path p.length++p)
        (.call desc.handler (bytes "POST") desc.path (some p))
  | get {desc : HandlerDesc} (hdesc : ApiEndpoint desc) (head : GetHead) {ts : List Token}
      (hts : ∀ t ∈ ts, UnreservedToken t) (hnul : (0 : UInt8) ∉ ts.map Token.value)
      (hle : (ts.map Token.value).length ≤ 2046) :
      Spelled (head.text desc.path ts)
        (.call desc.handler (bytes "GET") desc.path (some (ts.map Token.value)))

section Spelled

variable {wide : ℕ → UInt32} {text : Bytes} {d : Dispatch} {chunks : List Bytes} {rest : Bytes}

theorem Spelled.delivers (h : Spelled text d) (harrived : chunks.flatten++rest = text) :
    (∀ r, received wide chunks = .request r → dispatch r = d) ∧
      (rest = [] → ∃ r, received wide chunks = .request r) := by
  cases h with
  | post hdesc head hne hnul hlt =>
    exact deliversPost_of_lt hdesc hne hnul hlt head chunks rest harrived
  | get hdesc head hts hnul hle =>
    obtain ⟨hsafe,hlive⟩ := deliversGet hdesc hnul head _ hts rfl chunks rest harrived
    refine ⟨fun r hr => ?_,hlive⟩
    have hdispatch := hsafe r hr
    rwa [if_pos hle] at hdispatch

theorem incomplete_post {desc : HandlerDesc} (hdesc : ApiEndpoint desc) (head : PostHead)
    {p : Bytes} (hnul : (0 : UInt8) ∉ p) (hlt : p.length < 2^32)
    (harrived : chunks.flatten++rest = head.text desc.path p.length++p) (hrest : rest ≠ [])
    (r : ReceivedRequest) : received wide chunks ≠ .request r := by
  rw [received_eq]
  rcases List.append_eq_append_iff.mp harrived with ⟨missing,hhead,hmissing⟩ | ⟨body,hchunks,hbody⟩
  · by_cases hnone : missing = []
    · rw [hnone,List.append_nil] at hhead
      rw [hnone,List.nil_append] at hmissing
      have hreceived := @PostHead.received_body desc wide head p.length hdesc [] (by simp)
      have hpos : 0 < p.length := List.length_pos_iff.mpr (hmissing ▸ hrest)
      rw [List.append_nil,announced_eq wide hlt,if_pos (by simpa using hpos)] at hreceived
      rw [← hhead,hreceived]
      exact fun h => (by cases h)
    · rw [recv_head (head.isLine p.length hdesc) hhead.symm hnone]
      exact fun h => (by cases h)
  · have hzero : (0 : UInt8) ∉ body := fun hmem => hnul (hbody ▸ List.mem_append_left _ hmem)
    have hshort : body.length < p.length := by
      have hlength := congrArg List.length hbody
      have hpos := List.length_pos_iff.mpr hrest
      rw [List.length_append] at hlength
      omega
    rw [hchunks,head.received_body p.length hdesc hzero,announced_eq wide hlt,if_pos hshort]
    exact fun h => (by cases h)

/-- Before all of it has arrived, no request is handed on. -/
theorem Spelled.incomplete (h : Spelled text d) (harrived : chunks.flatten++rest = text)
    (hrest : rest ≠ []) (r : ReceivedRequest) : received wide chunks ≠ .request r := by
  cases h with
  | post hdesc head hne hnul hlt => exact incomplete_post hdesc head hnul hlt harrived hrest r
  | get hdesc head hts hnul hle =>
    rw [received_eq,recv_head (head.isLine hdesc hts) harrived hrest]
    exact fun h => (by cases h)

end Spelled

section Runs

variable {calls : InstallCalls} {stream : StreamId} {sv : Services} {host : Host}
  {handler : Handler} {method path text rest : Bytes} {inData : Option Bytes}
  {history : List ServerEvent} {answered : List StreamCall}

/-- But for that of files, a handler leaves one answer. -/
theorem run_answers (hstatic : handler ≠ .handleStatic)
    (h : Ends (handler.run calls stream sv host method path inData) history (.ok answered)) :
    ∃ reply, IsAnswer reply ∧ answered = streamCalls reply := by
  have hpure : ∀ {reply : Answer}, IsAnswer reply → Ends (pure (streamCalls reply) :
      ServerProgram Empty (List StreamCall)) history (.ok answered) →
      ∃ reply, IsAnswer reply ∧ answered = streamCalls reply := by
    intro reply hreply hends
    obtain ⟨-,hanswered⟩ := ends_done.mp hends
    cases hanswered
    exact ⟨reply,hreply,rfl⟩
  have hrespond : ∀ {p : ServerProgram Answer Answer}, Results GivesAnswer p →
      Ends (respond p) history (.ok answered) →
      ∃ reply, IsAnswer reply ∧ answered = streamCalls reply := by
    intro p hp hends
    obtain ⟨first,rest,result,-,hfirst,hdone⟩ := ends_caught_bind.mp hends
    obtain ⟨-,hanswered⟩ := ends_done.mp hdone
    cases hanswered
    exact ⟨_,hp.ends hfirst,rfl⟩
  cases handler with
  | handleStatic => exact absurd rfl hstatic
  | handleApiInstall => exact hrespond (results_handleApiInstall _) h
  | handleApiUninstall => exact hpure (isAnswer_handleApiUninstall _ _) h
  | handleApiIsExists => exact hpure (isAnswer_handleApiIsExists _) h
  | handleApiTaskAction => exact hpure (isAnswer_handleApiTaskAction _ _) h
  | handleApiGetTaskProgress => exact hpure (isAnswer_handleApiGetTaskProgress _) h
  | handleApiFindTask => exact hpure (isAnswer_handleApiFindTask _) h
  | handleApiSettings => exact hrespond (results_handleApiSettingsSteps _ _) h

theorem Spelled.handler_ne (h : Spelled text (.call handler method path inData)) :
    handler ≠ .handleStatic := by
  have hall : ∀ desc ∈ sHandlers, desc.needPartialMatch = false →
      desc.handler ≠ .handleStatic := by decide
  cases h with
  | post hdesc => exact hall _ hdesc.mem hdesc.whole
  | get hdesc => exact hall _ hdesc.mem hdesc.whole

/-- Without a file, what is queued is all that is sent. -/
theorem toSend_begins {reply : Answer} {st : SbStream} (content : Bytes → Bytes)
    (h : Begins (streamCalls reply) st.queued) : toSend content st = st.queued.sendBuf := by
  have hfile : st.sendFile = none := by
    obtain ⟨q,hq⟩ : ∃ q, q = st.queued := ⟨_,rfl⟩
    have hnone : q.sendFile = none := by
      rw [← hq] at h
      cases h with
      | nothing => rfl
      | header => rfl
      | data => rfl
      | file hstatus hheaders hmem =>
        obtain ⟨call,-,hcall⟩ := List.mem_map.mp hmem
        cases hcall
    rw [hq] at hnone
    exact hnone
  rw [toSend,hfile]
  exact List.append_nil _

variable (c : Connection) (answer : Dispatch → List SbStreamCall)

/-- What becomes of a receipt that is no request. -/
theorem wire_nil (h : ∀ r mem, c.receipt ≠ .request r mem) (n : ℕ) : c.wire answer n = [] := by
  have hsending : c.sending answer = none ∨ c.sending answer = some (start .init none) := by
    unfold Connection.sending
    split
    · next r mem heq => exact absurd heq (h r mem)
    · exact Or.inr rfl
    · exact Or.inl rfl
  rcases hsending with hnone | hsome
  · rw [Connection.wire,hnone]
  · rw [Connection.wire,hsome]
    have hwire := (@sent_after c.io c.sendMem .init none n).wire
    exact (List.append_eq_nil_iff.mp hwire).1

/-- The receipt is a request only if the bytes so far spell it, and is it if the memory lasts. -/
theorem receipt_request :
    (∀ r mem, c.receipt = .request r mem → received c.wide (arrived c.recvs) = .request r) ∧
      ((∀ k, c.recvMem k ≠ none) → ∀ r, received c.wide (arrived c.recvs) = .request r →
        ∃ mem, c.receipt = .request r mem) := by
  have hfollows : Follows c.recvMem (received c.wide (arrived c.recvs)) c.receipt ∨
      ∃ st wouldBlock, received c.wide (arrived c.recvs) = .receiving st ∧
        c.receipt = .ended wouldBlock ∧ Recv.none wouldBlock ∈ c.recvs :=
    (follows_start c.recvMem).sbStreamRecv c.recvs
  generalize received c.wide (arrived c.recvs) = reception at *
  generalize c.receipt = receipt at *
  rcases hfollows with hfollows | ⟨st,wouldBlock,rfl,rfl,-⟩
  · refine ⟨fun r mem h => ?_,fun hmem r h => ?_⟩
    · subst h
      cases hfollows
      rfl
    · subst h
      cases hfollows with
      | request => exact ⟨_,rfl⟩
      | outOfMem h =>
        obtain ⟨k,hk⟩ := h
        exact absurd hk (hmem k)
  · exact ⟨fun r mem h => (by cases h),fun _ r h => (by cases h)⟩

/-- The calls on the stream that write an answer as it is. -/
def plainCall : SbCall → SbStreamCall
  | .sendStatus code title => .sendStatus code title
  | .sendHeader name value => .sendHeader name value
  | .write text => .writef (bytes "%s") [.str (some text)]

theorem means_write {sprintf : Bytes → ℤ → Bytes} (text : Bytes) :
    Means sprintf (plainCall (.write text)) (.sb (.write text)) := by
  have hrender : FormatStrings.render sprintf [.str] [.str (some text)] = some text :=
    congrArg some (List.append_nil text)
  exact @Means.writef sprintf [.str] _ _ (by decide) hrender

def emptyObject : Bytes := bytes "\x7b\x7d"

/-- The answer to a task that is asked for without its content id. -/
def findTaskReply : Answer :=
  (Endpoints.handleApiFindTask plainSdk sampleServices (some emptyObject)).reply

def findTaskDesc : HandlerDesc := ⟨bytes "/api/find_task",.handleApiFindTask,[.get,.post],false⟩

def findTaskText : Bytes := plainHead.text findTaskDesc.path emptyObject.length++emptyObject

/-- The whole request comes at once, and the socket takes one byte at a time. -/
def findTaskConnection : Connection where
  wide := UInt32.ofNat
  recvs := [.data ⟨findTaskText,by decide +kernel⟩]
  recvMem := fun _ => some fun _ => 0
  sprintf := fun _ n => Decimal.text n.natAbs
  sendMem := fun _ => some fun _ => 0
  io := ⟨fun _ => 1,fun _ => false,fun _ => some 0⟩
  content := fun _ => []

end Runs

end Connections
end RemotePkgInstaller
