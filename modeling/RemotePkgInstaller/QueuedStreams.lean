import RemotePkgInstaller.FormatStrings

/-! The functions of `sandbird.c` that answer, on a buffer whose memory may run out.  As long as
it does not, they do what they do on a stream with room for everything; if it does, what is
queued is still the beginning of one response, up to the end of a line. -/
namespace RemotePkgInstaller
namespace QueuedStreams

open FormatStrings SbBuffers
open SendStream (SbResult StreamState Stream StreamCall crlf headerLine statusLine withStatus)

structure SbStream where
  state : StreamState
  sendBuf : SbBuffer
  sendFile : Option Bytes

/-- The stream with what it has queued. -/
def SbStream.queued (st : SbStream) : Stream := ⟨st.state,st.sendBuf.text,st.sendFile⟩

def SbStream.received : SbStream := ⟨.sendingStatus,.init,none⟩

/-- A call that a handler makes on the stream, with the arguments that it gives. -/
inductive SbStreamCall
  | sendStatus (code : ℕ) (msg : Bytes)
  | sendHeader (field val : Bytes)
  | writef (fmt : Bytes) (args : List Arg)
  | sendFile (filename : Bytes) (fd : ℤ) (size : Option ℕ)

section Calls

variable (sprintf : Bytes → ℤ → Bytes) (results : Reallocs)

/-- Goes on with a buffer that a push has succeeded on. -/
def SbStream.push (st : SbStream) (pushed : Option (SbResult × SbBuffer))
    (f : SbStream → SbResult × SbStream) : Option (SbResult × SbStream) :=
  pushed.map fun r =>
    if r.1 = .success then f { st with sendBuf := r.2 } else (r.1,{ st with sendBuf := r.2 })

def sbSendStatus (st : SbStream) (code : ℕ) (msg : Bytes) : Option (SbResult × SbStream) :=
  if st.state ≠ .sendingStatus then some (.badState,st)
  else
    st.push (sbBufferVwritef sprintf results st.sendBuf (bytes "HTTP/1.1 %d %s\r\n")
      [.value .int code,.str (some msg)]) fun st => (.success,{ st with state := .sendingHeader })

/-- Goes on once there is a status line, after one of its own if need be. -/
def haveStatus (st : SbStream) (f : SbStream → Option (SbResult × SbStream)) :
    Option (SbResult × SbStream) :=
  if st.state.rank < StreamState.sendingHeader.rank then
    match sbSendStatus sprintf results st 200 (bytes "OK") with
    | some (.success,st) => f st
    | failed => failed
  else f st

def sbSendHeader (st : SbStream) (field val : Bytes) : Option (SbResult × SbStream) :=
  if StreamState.sendingHeader.rank < st.state.rank then some (.badState,st)
  else haveStatus sprintf results st fun st =>
    st.push (sbBufferVwritef sprintf results st.sendBuf (bytes "%s: %s\r\n")
      [.str (some field),.str (some val)]) fun st => (.success,st)

def sbStreamFinalizeHeader (st : SbStream) : Option (SbResult × SbStream) :=
  haveStatus sprintf results st fun st =>
    st.push (some (sbBufferPushStr results st.sendBuf crlf)) fun st =>
      (.success,{ st with state := .sendingData })

def sbSendFile (st : SbStream) (filename : Bytes) (fd : ℤ) (size : Option ℕ) :
    Option (SbResult × SbStream) :=
  if StreamState.sendingHeader.rank < st.state.rank then some (.badState,st)
  else if fd ≤ 0 then some (.cantOpen,st)
  else
    match size with
    | none => some (.badResult,st)
    | some size =>
      match sbSendHeader sprintf results st (bytes "Content-Length") (Decimal.text size) with
      | some (.success,st) =>
        match sbStreamFinalizeHeader sprintf results st with
        | some (.success,st) =>
          some (.success,{ st with sendFile := some filename, state := .sendingFile })
        | failed => failed
      | failed => failed

def sbVwritef (st : SbStream) (fmt : Bytes) (args : List Arg) : Option (SbResult × SbStream) :=
  let write := fun (st : SbStream) =>
    if st.state ≠ .sendingData then some (.badState,st)
    else st.push (sbBufferVwritef sprintf results st.sendBuf fmt args) fun st => (.success,st)
  if st.state.rank < StreamState.sendingData.rank then
    match sbStreamFinalizeHeader sprintf results st with
    | some (.success,st) => write st
    | failed => failed
  else write st

def SbStream.perform (st : SbStream) : SbStreamCall → Option (SbResult × SbStream)
  | .sendStatus code msg => sbSendStatus sprintf results st code msg
  | .sendHeader field val => sbSendHeader sprintf results st field val
  | .writef fmt args => sbVwritef sprintf results st fmt args
  | .sendFile filename fd size => sbSendFile sprintf results st filename fd size

/-- A handler makes its calls one after the other, whatever they return. -/
def SbStream.queue (st : SbStream) : List SbStreamCall → Option SbStream
  | [] => some st
  | call::calls => (st.perform sprintf results call).bind fun r => r.2.queue calls

end Calls

/-- `%d` prints a number that is not negative in decimal. -/
def PrintsDecimal (sprintf : Bytes → ℤ → Bytes) : Prop :=
  ∀ n : ℕ, n < 2^31 → sprintf (bytes "%d") n = Decimal.text n

/-- A call does what it does with room for everything, or ends for want of memory and leaves one
of the streams in `ends`. -/
structure Serves (results : Reallocs) (ends : Stream → Prop) (abs : SbResult × Stream)
    (r : SbResult × SbStream) : Prop where
  done : r.1 ≠ .outOfMem → (r.1,r.2.queued) = abs
  failed : r.1 = .outOfMem → ends r.2.queued
  memory : (∀ k, results k ≠ none) → r.1 ≠ .outOfMem

section Serves

variable {sprintf : Bytes → ℤ → Bytes} {results : Reallocs} {st : SbStream} {text : Bytes}
  {ends : Stream → Prop} {abs : SbResult × Stream} {r : SbResult × SbStream}

theorem serves_of_eq (hne : r.1 ≠ .outOfMem) (heq : (r.1,r.2.queued) = abs) :
    Serves results ends abs r := ⟨fun _ => heq,fun h => absurd h hne,fun _ => hne⟩

/-- What a push with the change of state that goes with it makes of a stream. -/
theorem push_serves {pushed : Option (SbResult × SbBuffer)}
    (h : ∃ r, pushed = some r ∧ Does results st.sendBuf text r) (hends : ends st.queued)
    (state : StreamState → StreamState) :
    ∃ r, st.push pushed (fun st => (.success,{ st with state := state st.state })) = some r ∧
      Serves results ends (.success,{ st.queued.push text with state := state st.state }) r := by
  obtain ⟨r,rfl,hr⟩ := h
  refine ⟨_,rfl,?_⟩
  dsimp only
  split_ifs with hs
  · refine serves_of_eq (by simp) ?_
    simp only [SbStream.queued,hr.pushed hs,Stream.push]
  · have hf := hr.result.resolve_left hs
    refine ⟨fun hne => absurd hf hne,fun _ => ?_,fun hall => absurd (hr.memory hall) hs⟩
    have hkept : (SbStream.queued { st with sendBuf := r.2 }) = st.queued := by
      simp only [SbStream.queued,hr.kept hf]
    rwa [hkept]

/-- A first part, and what is done once it has succeeded. -/
theorem Serves.andThen {f : SbStream → Option (SbResult × SbStream)}
    {g : Stream → SbResult × Stream} (h : Serves results ends abs r)
    (hf : ∀ st, abs = (.success,st.queued) → ∃ r, f st = some r ∧
      Serves results ends (g st.queued) r) :
    ∃ r', (match some r with
      | some (.success,st) => f st
      | failed => failed) = some r' ∧
      Serves results ends (match abs with
        | (.success,st) => g st
        | failed => failed) r' := by
  obtain ⟨result,st⟩ := r
  by_cases hresult : result = .success
  · subst hresult
    have habs := h.done (by simp)
    obtain ⟨r',hr',hserves⟩ := hf st habs.symm
    exact ⟨r',hr',habs ▸ hserves⟩
  · refine ⟨(result,st),?_,?_,h.failed,h.memory⟩
    · cases result <;> first | rfl | exact absurd rfl hresult
    · intro hne
      rw [← h.done hne]
      cases result <;> first | rfl | exact absurd rfl hresult

def statusPieces : List Piece :=
  [.text (bytes "HTTP/1.1 "),.value [] 0 0x64,.text (bytes " "),.str,.text crlf]

def headerPieces : List Piece := [.str,.text (bytes ": "),.str,.text crlf]

theorem render_status (hsprintf : PrintsDecimal sprintf) {code : ℕ} (hcode : code < 2^31)
    (msg : Bytes) : render sprintf statusPieces [.value .int code,.str (some msg)] =
      some (statusLine code msg) := by
  have hfbuf : (0x25::[]++List.replicate 0 0x6c++[0x64] : Bytes) = bytes "%d" := by decide
  have hcstr : cstr (Decimal.text code) = Decimal.text code :=
    cstr_eq_self fun c hc h0 => absurd (Decimal.text_isdigit code c hc) (by rw [h0]; decide)
  have hlength : (Decimal.text code).length < lbufSize :=
    Nat.lt_of_le_of_lt (Decimal.text_length_le (k := 10) (by decide) (by omega)) (by decide)
  have htype : argType 0x64 (0 < 0) = some .int := by decide
  simp only [statusPieces,render,hfbuf,htype,hsprintf code hcode,hcstr,hlength,and_self,if_true,
    Option.map_some,Option.getD_some,List.append_nil,statusLine,List.append_assoc]

theorem render_header (field val : Bytes) :
    render sprintf headerPieces [.str (some field),.str (some val)] =
      some (headerLine (field,val)) := by
  simp only [headerPieces,render,Option.map_some,Option.getD_some,List.append_nil,headerLine,
    List.append_assoc]

theorem sendStatus_serves (hsprintf : PrintsDecimal sprintf) (results : Reallocs) (st : SbStream)
    (hends : ends st.queued) {code : ℕ} (hcode : code < 2^31) (msg : Bytes) :
    ∃ r, sbSendStatus sprintf results st code msg = some r ∧
      Serves results ends (SendStream.sbSendStatus st.queued code msg) r := by
  have hfmt : statusPieces.flatMap Piece.fmt = bytes "HTTP/1.1 %d %s\r\n" := by decide
  have hok : ∀ p ∈ statusPieces, p.Ok := by decide
  have hdoes := vwritef_does hok (render_status hsprintf hcode msg) results st.sendBuf
  rw [hfmt] at hdoes
  unfold sbSendStatus SendStream.sbSendStatus
  by_cases hstate : st.state ≠ .sendingStatus
  · rw [if_pos hstate,if_pos (show st.queued.state ≠ _ from hstate)]
    exact ⟨_,rfl,serves_of_eq (by simp) rfl⟩
  · rw [if_neg hstate,if_neg (show ¬ st.queued.state ≠ _ from hstate)]
    exact push_serves hdoes hends fun _ => .sendingHeader

/-- The stream with the status line that there is anyway. -/
def statusOk (q : Stream) : Stream := (SendStream.sbSendStatus q 200 (bytes "OK")).2

theorem haveStatus_serves (hsprintf : PrintsDecimal sprintf) (st : SbStream)
    (hends : ends st.queued) {f : SbStream → Option (SbResult × SbStream)}
    {g : Stream → SbResult × Stream}
    (hf : ∀ st', st'.queued = st.queued ∨ st'.queued = statusOk st.queued →
      ∃ r, f st' = some r ∧ Serves results ends (g st'.queued) r) :
    ∃ r, haveStatus sprintf results st f = some r ∧
      Serves results ends (withStatus st.queued g) r := by
  unfold haveStatus withStatus
  by_cases hrank : st.state.rank < StreamState.sendingHeader.rank
  · rw [if_pos hrank,if_pos (show st.queued.state.rank < _ from hrank)]
    obtain ⟨r,hr,hserves⟩ := sendStatus_serves hsprintf results st hends
      (show 200 < 2^31 by decide) (bytes "OK")
    rw [hr]
    exact hserves.andThen fun st' habs => hf st' (Or.inr (congrArg Prod.snd habs).symm)
  · rw [if_neg hrank,if_neg (show ¬ st.queued.state.rank < _ from hrank)]
    exact hf st (Or.inl rfl)

theorem sendHeader_serves (hsprintf : PrintsDecimal sprintf) (results : Reallocs) (st : SbStream)
    (hends : ends st.queued) (hstatus : ends (statusOk st.queued)) (field val : Bytes) :
    ∃ r, sbSendHeader sprintf results st field val = some r ∧
      Serves results ends (SendStream.sbSendHeader st.queued field val) r := by
  have hfmt : headerPieces.flatMap Piece.fmt = bytes "%s: %s\r\n" := by decide
  have hok : ∀ p ∈ headerPieces, p.Ok := by decide
  unfold sbSendHeader SendStream.sbSendHeader
  by_cases hstate : StreamState.sendingHeader.rank < st.state.rank
  · rw [if_pos hstate,if_pos (show _ < st.queued.state.rank from hstate)]
    exact ⟨_,rfl,serves_of_eq (by simp) rfl⟩
  · rw [if_neg hstate,if_neg (show ¬ _ < st.queued.state.rank from hstate)]
    refine haveStatus_serves hsprintf st hends fun st' hst' => ?_
    have hrender : render sprintf headerPieces [.str (some field),.str (some val)] =
        some (headerLine (field,val)) := render_header field val
    have hdoes := vwritef_does hok hrender results st'.sendBuf
    rw [hfmt] at hdoes
    have hends' : ends st'.queued := by rcases hst' with h | h <;> rwa [h]
    exact push_serves hdoes hends' id

theorem finalizeHeader_serves (hsprintf : PrintsDecimal sprintf) (results : Reallocs)
    (st : SbStream)
    (hends : ends st.queued) (hstatus : ends (statusOk st.queued)) :
    ∃ r, sbStreamFinalizeHeader sprintf results st = some r ∧
      Serves results ends (SendStream.sbStreamFinalizeHeader st.queued) r := by
  refine haveStatus_serves hsprintf st hends fun st' hst' => ?_
  have hends' : ends st'.queued := by rcases hst' with h | h <;> rwa [h]
  exact push_serves ⟨_,rfl,pushStr_does crlf⟩ hends' fun _ => .sendingData

theorem sendHeader_success {q q' : Stream} {field val : Bytes}
    (h : SendStream.sbSendHeader q field val = (.success,q')) : q'.state = .sendingHeader := by
  unfold SendStream.sbSendHeader withStatus SendStream.sbSendStatus at h
  cases hstate : q.state <;> simp [hstate,StreamState.rank,Stream.push] at h
  · rw [← h]
  · rw [← h]

theorem statusOk_sent {q : Stream} (h : q.state ≠ .sendingStatus) : statusOk q = q := by
  rw [statusOk,SendStream.sbSendStatus,if_pos h]

theorem sendFile_serves (hsprintf : PrintsDecimal sprintf) (st : SbStream) (filename : Bytes)
    (fd : ℤ) (size : Option ℕ) (hends : ends st.queued) (hstatus : ends (statusOk st.queued))
    (hheader : ∀ n, size = some n → ends (SendStream.sbSendHeader st.queued
      (bytes "Content-Length") (Decimal.text n)).2) :
    ∃ r, sbSendFile sprintf results st filename fd size = some r ∧
      Serves results ends (SendStream.sbSendFile st.queued filename fd size) r := by
  unfold sbSendFile SendStream.sbSendFile
  by_cases hstate : StreamState.sendingHeader.rank < st.state.rank
  · rw [if_pos hstate,if_pos (show _ < st.queued.state.rank from hstate)]
    exact ⟨_,rfl,serves_of_eq (by simp) rfl⟩
  rw [if_neg hstate,if_neg (show ¬ _ < st.queued.state.rank from hstate)]
  by_cases hfd : fd ≤ 0
  · rw [if_pos hfd,if_pos hfd]
    exact ⟨_,rfl,serves_of_eq (by simp) rfl⟩
  rw [if_neg hfd,if_neg hfd]
  cases size with
  | none => exact ⟨_,rfl,serves_of_eq (by simp) rfl⟩
  | some n =>
    obtain ⟨r,hr,hserves⟩ := sendHeader_serves hsprintf results st hends hstatus
      (bytes "Content-Length") (Decimal.text n)
    dsimp only
    rw [hr]
    refine hserves.andThen fun st' habs => ?_
    have hends' : ends st'.queued := by
      have h := hheader n rfl
      rwa [habs] at h
    have hsent : statusOk st'.queued = st'.queued :=
      statusOk_sent (by rw [sendHeader_success habs]; decide)
    obtain ⟨r',hr',hserves'⟩ := finalizeHeader_serves hsprintf results st' hends'
      (hsent.symm ▸ hends')
    rw [hr']
    exact hserves'.andThen fun st'' _ => ⟨_,rfl,serves_of_eq (by simp) rfl⟩

theorem vwritef_serves (hsprintf : PrintsDecimal sprintf) (st : SbStream) {pieces : List Piece}
    (hok : ∀ p ∈ pieces, p.Ok) {args : List Arg} (hrender : render sprintf pieces args = some text)
    (hends : ends st.queued) (hstatus : ends (statusOk st.queued))
    (hheader : ends (SendStream.sbWritef st.queued []).2) :
    ∃ r, sbVwritef sprintf results st (pieces.flatMap Piece.fmt) args = some r ∧
      Serves results ends (SendStream.sbWritef st.queued text) r := by
  have hwrite : ∀ st : SbStream, ends st.queued →
      ∃ r, (if st.state ≠ .sendingData then some (SbResult.badState,st)
        else st.push (sbBufferVwritef sprintf results st.sendBuf (pieces.flatMap Piece.fmt) args)
          fun st => (.success,st)) = some r ∧
        Serves results ends (if st.queued.state ≠ .sendingData then (.badState,st.queued)
          else (.success,st.queued.push text)) r := by
    intro st hends
    by_cases hdata : st.state ≠ .sendingData
    · rw [if_pos hdata,if_pos (show st.queued.state ≠ _ from hdata)]
      exact ⟨_,rfl,serves_of_eq (by simp) rfl⟩
    · rw [if_neg hdata,if_neg (show ¬ st.queued.state ≠ _ from hdata)]
      exact push_serves (vwritef_does hok hrender results _) hends id
  unfold sbVwritef SendStream.sbWritef
  by_cases hrank : st.state.rank < StreamState.sendingData.rank
  · rw [if_pos hrank,if_pos (show st.queued.state.rank < _ from hrank)]
    obtain ⟨r,hr,hserves⟩ := finalizeHeader_serves hsprintf results st hends hstatus
    dsimp only
    rw [hr]
    refine hserves.andThen fun st' habs => hwrite st' ?_
    rw [SendStream.sbWritef,if_pos (show st.queued.state.rank < _ from hrank),habs] at hheader
    dsimp only at hheader
    split_ifs at hheader with hdata
    · exact hheader
    · simpa only [Stream.push,List.append_nil] using hheader
  · rw [if_neg hrank,if_neg (show ¬ st.queued.state.rank < _ from hrank)]
    exact hwrite st hends

end Serves

/-- What the call is without the buffer: the format is one in pieces, and this is its text. -/
inductive Means (sprintf : Bytes → ℤ → Bytes) : SbStreamCall → StreamCall → Prop
  | sendStatus {code : ℕ} (hcode : code < 2^31) (msg : Bytes) :
      Means sprintf (.sendStatus code msg) (.sb (.sendStatus code msg))
  | sendHeader (field val : Bytes) :
      Means sprintf (.sendHeader field val) (.sb (.sendHeader field val))
  | writef {pieces : List Piece} {args : List Arg} {text : Bytes} (hok : ∀ p ∈ pieces, p.Ok)
      (hrender : render sprintf pieces args = some text) :
      Means sprintf (.writef (pieces.flatMap Piece.fmt) args) (.sb (.write text))
  | sendFile (filename : Bytes) (fd : ℤ) (size : Option ℕ) :
      Means sprintf (.sendFile filename fd size) (.sendFile filename fd size)

/-- What a call may have come to: all of it, or the lines that it begins with. -/
inductive Performed : StreamCall → List StreamCall → Prop
  | all (call : StreamCall) : Performed call [call]
  | nothing (call : StreamCall) : Performed call []
  | status (call : StreamCall) : Performed call [.sb (.sendStatus 200 (bytes "OK"))]
  | length (filename : Bytes) (fd : ℤ) (size : ℕ) :
      Performed (.sendFile filename fd (some size))
        [.sb (.sendHeader (bytes "Content-Length") (Decimal.text size))]
  | header (text : Bytes) : Performed (.sb (.write text)) [.sb (.write [])]

section Runs

variable {sprintf : Bytes → ℤ → Bytes} {results : Reallocs}

theorem perform_serves (hsprintf : PrintsDecimal sprintf) (results : Reallocs) (st : SbStream)
    {real : SbStreamCall} {call : StreamCall} (h : Means sprintf real call) :
    ∃ r, st.perform sprintf results real = some r ∧
      Serves results (fun q => ∃ part, Performed call part ∧ q = st.queued.queue part)
        (st.queued.perform call) r := by
  have hnothing : ∃ part, Performed call part ∧ st.queued = st.queued.queue part :=
    ⟨[],.nothing call,rfl⟩
  have hstatus : ∃ part, Performed call part ∧ statusOk st.queued = st.queued.queue part :=
    ⟨_,.status call,rfl⟩
  cases h with
  | sendStatus hcode msg => exact sendStatus_serves hsprintf results st hnothing hcode msg
  | sendHeader field val => exact sendHeader_serves hsprintf results st hnothing hstatus field val
  | @writef pieces args text hok hrender =>
    exact vwritef_serves hsprintf st hok hrender hnothing hstatus ⟨_,.header text,rfl⟩
  | sendFile filename fd size =>
    refine sendFile_serves hsprintf st filename fd size hnothing hstatus ?_
    rintro n rfl
    exact ⟨_,.length filename fd n,rfl⟩

/-- The calls of a handler, each of them done as far as there was memory. -/
theorem queue_serves (hsprintf : PrintsDecimal sprintf) {reals : List SbStreamCall}
    {calls : List StreamCall} (h : List.Forall₂ (Means sprintf) reals calls) (results : Reallocs)
    (st : SbStream) : ∃ st' parts, st.queue sprintf results reals = some st' ∧
      List.Forall₂ Performed calls parts ∧ st'.queued = st.queued.queue parts.flatten ∧
      ((∀ k, results k ≠ none) → parts.flatten = calls) := by
  induction h generalizing st with
  | nil => exact ⟨st,[],rfl,.nil,rfl,fun _ => rfl⟩
  | @cons real call reals calls hmeans _ ih =>
    obtain ⟨r,hr,hserves⟩ := perform_serves hsprintf results st hmeans
    obtain ⟨st',parts,hst',hparts,hqueued,hall⟩ := ih r.2
    obtain ⟨part,hpart,hdone,hwhole⟩ : ∃ part, Performed call part ∧
        r.2.queued = st.queued.queue part ∧ ((∀ k, results k ≠ none) → part = [call]) := by
      by_cases hmem : r.1 = .outOfMem
      · obtain ⟨part,hpart,hq⟩ := hserves.failed hmem
        exact ⟨part,hpart,hq,fun hall => absurd hmem (hserves.memory hall)⟩
      · exact ⟨[call],.all call,congrArg Prod.snd (hserves.done hmem),fun _ => rfl⟩
    refine ⟨st',part::parts,?_,.cons hpart hparts,?_,fun hmem => ?_⟩
    · rw [SbStream.queue,hr]
      exact hst'
    · rw [hqueued,List.flatten_cons,SendStream.queue_append,hdone]
    · rw [List.flatten_cons,hwhole hmem,hall hmem]
      rfl

end Runs

def headersOf : StreamCall → List (Bytes × Bytes)
  | .sb (.sendHeader field val) => [(field,val)]
  | .sendFile _ _ (some size) => [(bytes "Content-Length",Decimal.text size)]
  | _ => []

def textsOf : StreamCall → List Bytes
  | .sb (.write text) => if text = [] then [] else [text]
  | _ => []

/-- The status of a response that is made of the calls. -/
def StatusOf (calls : List StreamCall) (code : ℕ) (title : Bytes) : Prop :=
  .sb (.sendStatus code title) ∈ calls ∨ (code,title) = (200,bytes "OK")

/-- The stream holds nothing, or the beginning of one response: a status line, headers, and behind
the empty line either text or the length of a file and the file.  All of it is what the calls have
given, in their order. -/
inductive Begins (calls : List StreamCall) : Stream → Prop
  | nothing : Begins calls .received
  | header {code : ℕ} {title : Bytes} {headers : List (Bytes × Bytes)}
      (hstatus : StatusOf calls code title) (hheaders : headers.Sublist (calls.flatMap headersOf)) :
      Begins calls ⟨.sendingHeader,statusLine code title++headers.flatMap headerLine,none⟩
  | data {code : ℕ} {title : Bytes} {headers : List (Bytes × Bytes)} {texts : List Bytes}
      (hstatus : StatusOf calls code title) (hheaders : headers.Sublist (calls.flatMap headersOf))
      (htexts : texts.Sublist (calls.flatMap textsOf)) :
      Begins calls ⟨.sendingData,
        statusLine code title++headers.flatMap headerLine++crlf++texts.flatten,none⟩
  | file {code : ℕ} {title : Bytes} {headers : List (Bytes × Bytes)} {filename : Bytes} {fd : ℤ}
      {size : ℕ} (hstatus : StatusOf calls code title)
      (hheaders : headers.Sublist (calls.flatMap headersOf))
      (hfile : .sendFile filename fd (some size) ∈ calls) :
      Begins calls ⟨.sendingFile,statusLine code title++headers.flatMap headerLine++
        headerLine (bytes "Content-Length",Decimal.text size)++crlf,some filename⟩

section Begins

variable {calls calls' parts : List StreamCall} {call : StreamCall} {q : Stream}

theorem StatusOf.mono {code : ℕ} {title : Bytes} (h : StatusOf calls code title)
    (hsub : calls ⊆ calls') : StatusOf calls' code title := h.imp (@hsub _) id

theorem Begins.mono (h : Begins calls q) (hstatus : ∀ code title, StatusOf calls code title →
      StatusOf calls' code title)
    (hheaders : (calls.flatMap headersOf).Sublist (calls'.flatMap headersOf))
    (htexts : (calls.flatMap textsOf).Sublist (calls'.flatMap textsOf))
    (hfiles : ∀ filename fd size, .sendFile filename fd (some size) ∈ calls →
      .sendFile filename fd (some size) ∈ calls') : Begins calls' q := by
  cases h with
  | nothing => exact .nothing
  | header hs hh => exact .header (hstatus _ _ hs) (hh.trans hheaders)
  | data hs hh ht => exact .data (hstatus _ _ hs) (hh.trans hheaders) (ht.trans htexts)
  | file hs hh hf => exact .file (hstatus _ _ hs) (hh.trans hheaders) (hfiles _ _ _ hf)

theorem Begins.append (h : Begins calls q) (more : List StreamCall) : Begins (calls++more) q := by
  refine h.mono (fun code title hs => hs.mono (List.subset_append_left ..)) ?_ ?_
    fun filename fd size hmem => List.mem_append_left _ hmem
  · rw [List.flatMap_append]
    exact List.sublist_append_left ..
  · rw [List.flatMap_append]
    exact List.sublist_append_left ..

/-- Without the file or its size, nothing is sent. -/
theorem perform_cantSend {filename : Bytes} {fd : ℤ} {size : Option ℕ}
    (h : fd ≤ 0 ∨ size = none) : (q.perform (.sendFile filename fd size)).2 = q := by
  unfold Stream.perform SendStream.sbSendFile
  rcases h with h | rfl
  · dsimp only
    rw [if_pos h]
    split_ifs <;> rfl
  · dsimp only
    split_ifs <;> rfl

theorem perform_canSend (hstate : q.state.rank ≤ StreamState.sendingHeader.rank) {fd : ℤ}
    (hfd : ¬ fd ≤ 0) (filename : Bytes) (size : ℕ) :
    q.perform (.sendFile filename fd (some size)) =
      match SendStream.sbSendHeader q (bytes "Content-Length") (Decimal.text size) with
      | (.success,st) =>
        match SendStream.sbStreamFinalizeHeader st with
        | (.success,st) => (.success,{ st with sendFile := some filename, state := .sendingFile })
        | failed => failed
      | failed => failed := by
  rw [Stream.perform,SendStream.sbSendFile,if_neg (Nat.not_lt.mpr hstate)]
  exact if_neg hfd

theorem begins_header {headers : List (Bytes × Bytes)} {code : ℕ} {title : Bytes}
    (hstatus : StatusOf calls code title) (hheaders : headers.Sublist (calls.flatMap headersOf))
    (call : StreamCall) : Begins (calls++[call]) (Stream.perform
      ⟨.sendingHeader,statusLine code title++headers.flatMap headerLine,none⟩ call).2 := by
  have hstatus' : StatusOf (calls++[call]) code title :=
    hstatus.mono (List.subset_append_left ..)
  have hheaders' : headers.Sublist ((calls++[call]).flatMap headersOf) := by
    rw [List.flatMap_append]
    exact hheaders.trans (List.sublist_append_left ..)
  have hkept : Begins (calls++[call])
      ⟨.sendingHeader,statusLine code title++headers.flatMap headerLine,none⟩ :=
    .header hstatus' hheaders'
  cases call with
  | sb call =>
    cases call with
    | sendStatus code' title' => exact hkept
    | sendHeader field val =>
      have hmore : (headers++[(field,val)]).Sublist
          ((calls++[StreamCall.sb (.sendHeader field val)]).flatMap headersOf) := by
        rw [List.flatMap_append]
        exact hheaders.append (List.Sublist.refl _)
      have h := Begins.header hstatus' hmore
      rwa [List.flatMap_append,List.flatMap_singleton,← List.append_assoc] at h
    | write text =>
      have htexts : (textsOf (.sb (.write text))).Sublist
          ((calls++[StreamCall.sb (.write text)]).flatMap textsOf) := by
        rw [List.flatMap_append,List.flatMap_singleton]
        exact List.sublist_append_right ..
      have h := Begins.data hstatus' hheaders' htexts
      have hflatten : (textsOf (.sb (.write text))).flatten = text := by
        by_cases htext : text = []
        · rw [textsOf,if_pos htext,htext]
          rfl
        · rw [textsOf,if_neg htext]
          exact List.append_nil text
      rwa [hflatten] at h
  | sendFile filename fd size =>
    by_cases hsent : fd ≤ 0 ∨ size = none
    · rwa [perform_cantSend hsent]
    · obtain ⟨hfd,hsize⟩ := not_or.mp hsent
      obtain ⟨n,rfl⟩ := Option.ne_none_iff_exists'.mp hsize
      rw [perform_canSend (Nat.le_refl _) hfd]
      exact Begins.file hstatus' hheaders' (List.mem_append_right _ (List.mem_singleton.mpr rfl))

/-- A call leaves the beginning of one response. -/
theorem begins_perform (h : Begins calls q) (call : StreamCall) :
    Begins (calls++[call]) (q.perform call).2 := by
  cases h with
  | nothing =>
    have hok : StatusOf calls 200 (bytes "OK") := Or.inr rfl
    have hsent := begins_header hok (List.nil_sublist (calls.flatMap headersOf)) call
    cases call with
    | sb call =>
      cases call with
      | sendStatus code title =>
        have h : Begins (calls++[.sb (.sendStatus code title)])
            ⟨.sendingHeader,statusLine code title++([] : List (Bytes × Bytes)).flatMap headerLine,
              none⟩ :=
          .header (Or.inl (List.mem_append_right _ (List.mem_singleton.mpr rfl)))
            (List.nil_sublist _)
        rwa [List.flatMap_nil,List.append_nil] at h
      | sendHeader field val => exact hsent
      | write text => exact hsent
    | sendFile filename fd size =>
      by_cases hkept : fd ≤ 0 ∨ size = none
      · rw [perform_cantSend hkept]
        exact .nothing
      · obtain ⟨hfd,hsize⟩ := not_or.mp hkept
        obtain ⟨n,rfl⟩ := Option.ne_none_iff_exists'.mp hsize
        rw [perform_canSend (Nat.le_refl _) hfd] at hsent
        rwa [perform_canSend (by decide) hfd]
  | header hstatus hheaders => exact begins_header hstatus hheaders call
  | @data code title headers texts hstatus hheaders htexts =>
    have hkept : Begins calls ⟨.sendingData,
        statusLine code title++headers.flatMap headerLine++crlf++texts.flatten,none⟩ :=
      .data hstatus hheaders htexts
    cases call with
    | sb call =>
      cases call with
      | sendStatus code title => exact hkept.append _
      | sendHeader field val => exact hkept.append _
      | write text =>
        by_cases htext : text = []
        · subst htext
          simpa [Stream.perform,SendStream.sbWritef,Stream.push,StreamState.rank] using
            hkept.append _
        · have hmore : (texts++[text]).Sublist
              ((calls++[StreamCall.sb (.write text)]).flatMap textsOf) := by
            rw [List.flatMap_append,List.flatMap_singleton,textsOf,if_neg htext]
            exact htexts.append (List.Sublist.refl _)
          have h := Begins.data (hstatus.mono (List.subset_append_left ..))
            (hheaders.trans ?_) hmore
          · simpa [Stream.perform,SendStream.sbWritef,Stream.push,StreamState.rank,
              List.flatten_append,List.append_assoc] using h
          · rw [List.flatMap_append]
            exact List.sublist_append_left ..
    | sendFile filename fd size => exact hkept.append _
  | file hstatus hheaders hfile =>
    have hkept := Begins.file hstatus hheaders hfile
    cases call with
    | sb call => cases call <;> exact hkept.append _
    | sendFile filename' fd' size' => exact hkept.append _

theorem begins_queue (h : Begins calls q) (more : List StreamCall) :
    Begins (calls++more) (q.queue more) := by
  induction more generalizing calls q with
  | nil => rwa [List.append_nil]
  | cons call more ih =>
    have hmore := ih (begins_perform h call)
    rwa [List.append_assoc] at hmore

/-- What the call has come to gives no more than the call. -/
structure Within (part : List StreamCall) (call : StreamCall) : Prop where
  status : ∀ {code title}, StreamCall.sb (.sendStatus code title) ∈ part →
    StatusOf [call] code title
  headers : (part.flatMap headersOf).Sublist (headersOf call)
  texts : (part.flatMap textsOf).Sublist (textsOf call)
  files : ∀ {filename fd size}, StreamCall.sendFile filename fd (some size) ∈ part →
    StreamCall.sendFile filename fd (some size) = call

theorem within_performed {part : List StreamCall} (h : Performed call part) : Within part call := by
  cases h with
  | all =>
    refine ⟨Or.inl,?_,?_,List.mem_singleton.mp⟩
    · rw [List.flatMap_singleton]
    · rw [List.flatMap_singleton]
  | nothing => exact ⟨fun h => absurd h List.not_mem_nil,List.nil_sublist _,List.nil_sublist _,
      fun h => absurd h List.not_mem_nil⟩
  | status =>
    refine ⟨fun h => ?_,List.nil_sublist _,List.nil_sublist _,fun h => ?_⟩
    · cases List.mem_singleton.mp h
      exact Or.inr rfl
    · cases List.mem_singleton.mp h
  | length filename fd size =>
    exact ⟨fun h => (by cases List.mem_singleton.mp h),List.Sublist.refl _,List.nil_sublist _,
      fun h => (by cases List.mem_singleton.mp h)⟩
  | header text =>
    exact ⟨fun h => (by cases List.mem_singleton.mp h),List.nil_sublist _,List.nil_sublist _,
      fun h => (by cases List.mem_singleton.mp h)⟩

theorem begins_performed {parts : List (List StreamCall)}
    (h : List.Forall₂ Performed calls parts) (hq : Begins parts.flatten q) : Begins calls q := by
  have hsub : ∀ {α : Type} (f : StreamCall → List α), (∀ {call part}, Performed call part →
      (part.flatMap f).Sublist (f call)) → (parts.flatten.flatMap f).Sublist (calls.flatMap f) := by
    intro α f hf
    clear hq
    induction h with
    | nil => exact List.Sublist.refl _
    | cons hpart _ ih =>
      rw [List.flatten_cons,List.flatMap_append,List.flatMap_cons]
      exact (hf hpart).append ih
  have hmem : ∀ {c}, c ∈ parts.flatten →
      ∃ call ∈ calls, ∃ part, c ∈ part ∧ Performed call part := by
    intro c hc
    clear hq hsub
    induction h with
    | nil => cases hc
    | cons hpart _ ih =>
      rcases List.mem_append.mp hc with hc | hc
      · exact ⟨_,List.mem_cons_self,_,hc,hpart⟩
      · obtain ⟨call,hcall,hrest⟩ := ih hc
        exact ⟨call,List.mem_cons_of_mem _ hcall,hrest⟩
  refine hq.mono (fun code title hstatus => ?_)
    (hsub headersOf fun hpart => (within_performed hpart).headers)
    (hsub textsOf fun hpart => (within_performed hpart).texts) fun filename fd size hfile => ?_
  · rcases hstatus with hstatus | hok
    · obtain ⟨call,hcall,part,hpart,hperformed⟩ := hmem hstatus
      exact ((within_performed hperformed).status hpart).mono fun c hc =>
        List.mem_singleton.mp hc ▸ hcall
    · exact Or.inr hok
  · obtain ⟨call,hcall,part,hpart,hperformed⟩ := hmem hfile
    rwa [(within_performed hperformed).files hpart]

/-- Calls that are done as far as there was memory have begun one response. -/
theorem begins_parts {parts : List (List StreamCall)} (h : List.Forall₂ Performed calls parts) :
    Begins calls (Stream.received.queue parts.flatten) := by
  have hbegins := begins_queue (.nothing : Begins [] .received) parts.flatten
  rw [List.nil_append] at hbegins
  exact begins_performed h hbegins

/-- Whatever memory a handler's calls run out of, what is queued is the beginning of one response
made of what it has given; with memory for all of it, it is what the calls queue. -/
theorem queue_begins {sprintf : Bytes → ℤ → Bytes} (hsprintf : PrintsDecimal sprintf)
    {reals : List SbStreamCall} (h : List.Forall₂ (Means sprintf) reals calls)
    (results : Reallocs) :
    ∃ st, SbStream.received.queue sprintf results reals = some st ∧ Begins calls st.queued ∧
      ((∀ k, results k ≠ none) → st.queued = Stream.received.queue calls) := by
  obtain ⟨st,parts,hst,hparts,hqueued,hall⟩ := queue_serves hsprintf h results
    .received
  exact ⟨st,hst,hqueued ▸ begins_parts hparts,fun hmem => hqueued.trans (by rw [hall hmem]; rfl)⟩

/-- The memory runs out while the body is written. -/
theorem queue_begins_outOfMem :
    let sprintf : Bytes → ℤ → Bytes := fun _ n => Decimal.text n.natAbs
    let calls : List StreamCall :=
      [.sb (.sendStatus 404 (bytes "Not found")),.sb (.write (bytes "7%\n"))]
    ∃ st, SbStream.received.queue sprintf (fun k => if k < 6 then some fun _ => 0 else none)
        [.sendStatus 404 (bytes "Not found"),.writef (bytes "%d%%\n") [.value .int 7]] = some st ∧
      Begins calls st.queued ∧
      ((∀ k, (if k < 6 then some fun _ => (0 : UInt8) else none : Option (ℕ → UInt8)) ≠ none) →
        st.queued = Stream.received.queue calls) := by
  intro sprintf calls
  have hpieces : ∀ p ∈ [Piece.value [] 0 0x64,.percent,.text (bytes "\n")], p.Ok := by decide
  have hrender : render sprintf [.value [] 0 0x64,.percent,.text (bytes "\n")]
      [.value .int 7] = some (bytes "7%\n") := by decide +kernel
  exact queue_begins (fun n _ => rfl)
    (.cons (.sendStatus (by decide) _) (.cons (.writef hpieces hrender) .nil)) _

end Begins


end QueuedStreams
end RemotePkgInstaller
