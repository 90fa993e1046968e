import RemotePkgInstaller.CompleteAnswers
import RemotePkgInstaller.SendLoops

/-! From the handler of a request to the client: the calls on the stream, the buffer that they go
into, and the loop that sends it.  As long as nothing fails the client gets one whole response;
whatever fails, it gets a beginning of one. -/
namespace RemotePkgInstaller
namespace SentResponses

open CompleteAnswers EventHandler InstallPieces Installer Loops Programs Program QueuedStreams
  ReceivedRequests Requests SbBuffers SendLoops SendStream ServerCalls Settings

section Bytes

-- The bytes of the files.
variable (content : Bytes → Bytes)

def bodyBytes : Body → Bytes
  | .text t => t
  | .file filename _ _ => content filename

/-- A response as it goes over the wire. -/
def responseBytes (r : Response) : Bytes :=
  statusLine r.code r.title++(r.headers++r.body.headers).flatMap headerLine++crlf++
    bodyBytes content r.body

/-- A file is as long as it says. -/
def LengthTold (r : Response) : Prop :=
  ∀ filename fd size, r.body = .file filename fd size → (content filename).length = size

/-- Where the thread of a connection stands when the handler is done. -/
def sendStart (st : SbStream) : Sending := start st.sendBuf (st.sendFile.map content)

/-- What the thread has to send. -/
def toSend (st : SbStream) : Bytes := st.sendBuf.text++((st.sendFile.map content).getD [])

/-- The files have the sizes that `fstat` has given. -/
def SizesTold (calls : List StreamCall) : Prop :=
  ∀ filename fd size, .sendFile filename fd (some size) ∈ calls → (content filename).length = size

/-- The first line and what comes behind its end. -/
def readLine : Bytes → Option (Bytes × Bytes)
  | [] => none
  | 0x0d::0x0a::rest => some ([],rest)
  | c::rest => (readLine rest).map fun line => (c::line.1,line.2)

/-- The client reads lines up to an empty one, and takes the rest as the body. -/
def readResponse : ℕ → Bytes → Option (List Bytes × Bytes)
  | 0,_ => none
  | fuel+1,wire =>
    match readLine wire with
    | none => none
    | some ([],body) => some ([],body)
    | some (line,rest) => (readResponse fuel rest).map fun read => (line::read.1,read.2)

/-- The lines of a response in front of the empty one. -/
def headLines (r : Response) : List Bytes :=
  (bytes "HTTP/1.1 "++Decimal.text r.code++bytes " "++r.title)::
    (r.headers++r.body.headers).map fun header => header.1++bytes ": "++header.2

end Bytes

/-- Memory, socket and files do their part. -/
structure Healthy (results : Reallocs) (io : SendIo) : Prop where
  memory : ∀ k, results k ≠ none
  sent : ∀ k, 0 < io.sent k ∨ io.wouldBlock k = true
  read : ∀ k, io.read k ≠ none
  fair : ∀ k, ∃ j, 0 < io.sent (k+j)

section Sending

variable {results : Reallocs} {io : SendIo}

/-- If nothing fails, the loop sends everything. -/
theorem Healthy.sends (h : Healthy results io) (content : Bytes → Bytes) (st : SbStream) :
    ∃ t, Loops.Ends (round io results) 0 (sendStart content st) t ∧ t.wire = toSend content st := by
  obtain ⟨t,ht⟩ := ends_of_unblocked (fun k => (h.fair k).imp fun j hj => Or.inl hj) results
    (sendStart content st)
  obtain ⟨e,-,hcause,hwire⟩ := ends_caused ht
  refine ⟨t,ht,hwire ?_⟩
  cases e with
  | finished => rfl
  | disconnected =>
    obtain ⟨k,hsent,hblock⟩ := hcause
    rcases h.sent k with hk | hk
    · exact absurd hk (not_lt.mpr hsent)
    · cases hblock.symm.trans hk
  | outOfMem =>
    obtain ⟨-,k,hk⟩ := hcause
    exact absurd hk (h.memory k)
  | overrun =>
    obtain ⟨-,k,hk⟩ := hcause
    exact absurd hk (h.read k)

end Sending

section Client

variable {content : Bytes → Bytes}

theorem readLine_append {line : Bytes} (h : (0x0d : UInt8) ∉ line) (rest : Bytes) :
    readLine (line++crlf++rest) = some (line,rest) := by
  induction line with
  | nil => rfl
  | cons c line ih =>
    have hc : c ≠ 0x0d := fun hc => h (hc ▸ List.mem_cons_self)
    rw [List.cons_append,List.cons_append,readLine,
      ih fun hmem => h (List.mem_cons_of_mem _ hmem)]
    · rfl
    · rintro _ rfl
      exact absurd rfl hc

theorem readResponse_lines {lines : List Bytes}
    (h : ∀ line ∈ lines, line ≠ [] ∧ (0x0d : UInt8) ∉ line) (body : Bytes) {fuel : ℕ}
    (hfuel : lines.length < fuel) :
    readResponse fuel (lines.flatMap (·++crlf)++(crlf++body)) = some (lines,body) := by
  induction lines generalizing fuel with
  | nil =>
    obtain ⟨fuel,rfl⟩ := Nat.exists_eq_succ_of_ne_zero (Nat.ne_zero_of_lt hfuel)
    rfl
  | cons line lines ih =>
    obtain ⟨fuel,rfl⟩ := Nat.exists_eq_succ_of_ne_zero (Nat.ne_zero_of_lt hfuel)
    obtain ⟨hne,hcr⟩ := h line List.mem_cons_self
    have hread := readLine_append hcr (lines.flatMap (·++crlf)++(crlf++body))
    rw [List.flatMap_cons,List.append_assoc,readResponse,hread]
    cases line with
    | nil => exact absurd rfl hne
    | cons c line =>
      dsimp only
      rw [ih (fun line hmem => h line (List.mem_cons_of_mem _ hmem)) (Nat.lt_of_succ_lt_succ hfuel)]
      rfl

theorem responseBytes_eq (r : Response) : responseBytes content r =
    (headLines r).flatMap (·++crlf)++(crlf++bodyBytes content r.body) := by
  have hheaders : ∀ headers : List (Bytes × Bytes), headers.flatMap headerLine =
      (headers.map fun header => header.1++bytes ": "++header.2).flatMap (·++crlf) := by
    intro headers
    rw [List.flatMap_map]
    rfl
  rw [responseBytes,headLines,List.flatMap_cons,hheaders,statusLine]
  simp only [List.append_assoc]

theorem headLines_oneLine {r : Response} (h : r.OneLineEach) {line : Bytes}
    (hline : line ∈ headLines r) : line ≠ [] ∧ (0x0d : UInt8) ∉ line := by
  obtain ⟨htitle,hheaders⟩ := h
  rcases List.mem_cons.mp hline with rfl | hmem
  · have hhttp : (0x0d : UInt8) ∉ bytes "HTTP/1.1 " ∧ (0x0d : UInt8) ∉ bytes " " := by decide
    refine ⟨by simp [bytes],?_⟩
    simp only [List.mem_append,not_or]
    exact ⟨⟨⟨hhttp.1,(oneLine_text r.code).1⟩,hhttp.2⟩,htitle.1⟩
  · obtain ⟨header,hheader,rfl⟩ := List.mem_map.mp hmem
    have hcolon : (0x0d : UInt8) ∉ bytes ": " := by decide
    obtain ⟨hname,hvalue⟩ := hheaders header hheader
    refine ⟨by simp [bytes],?_⟩
    simp only [List.mem_append,not_or]
    exact ⟨⟨hname.1,hcolon⟩,hvalue.1⟩

/-- A client reads back the lines and the body of a response. -/
theorem readResponse_responseBytes {r : Response} (h : r.OneLineEach) {fuel : ℕ}
    (hfuel : (headLines r).length < fuel) :
    readResponse fuel (responseBytes content r) = some (headLines r,bodyBytes content r.body) := by
  rw [responseBytes_eq]
  exact readResponse_lines (fun line => headLines_oneLine h) _ hfuel

end Client

section Handlers

variable {calls : InstallCalls} {stream : StreamId} {sv : Services} {host : Host}
  {r : ReceivedRequest} {history : List ServerEvent} {answered : List StreamCall}
  {sprintf : Bytes → ℤ → Bytes} {reals : List SbStreamCall} {content : Bytes → Bytes}

theorem accepted_subset (st : Stream) (calls : List StreamCall) : st.accepted calls ⊆ calls := by
  induction calls generalizing st with
  | nil => exact List.Subset.refl _
  | cons call calls ih =>
    rw [Stream.accepted]
    split_ifs
    · exact List.cons_subset_cons _ (ih _)
    · exact List.subset_cons_of_subset _ (ih _)

/-- What is queued for a response, and the file behind it, are the bytes of the response. -/
theorem toSend_answers {resp : Response} (h : Answers answered resp) {st : SbStream}
    (hst : st.queued = Stream.received.queue answered) :
    toSend content st = responseBytes content resp := by
  have htext : st.sendBuf.text = resp.text :=
    (congrArg SendStream.Stream.sendBuf hst).trans h.queued
  have hfile : st.sendFile = resp.body.sendFile :=
    (congrArg SendStream.Stream.sendFile hst).trans h.sendFile
  rw [toSend,htext,hfile,Response.text,responseBytes]
  cases resp.body with
  | text t => exact List.append_nil _
  | file filename fd size => simp [Body.queued,Body.sendFile,bodyBytes]

theorem lengthTold_of_answers {resp : Response} (h : Answers answered resp)
    (hsizes : SizesTold content answered) : LengthTold content resp := by
  intro filename fd size hbody
  refine hsizes filename fd size (accepted_subset Stream.received answered ?_)
  rw [h.accepted,Response.calls,hbody]
  exact List.mem_append_right _ (List.mem_singleton.mpr rfl)

end Handlers

end SentResponses
end RemotePkgInstaller
