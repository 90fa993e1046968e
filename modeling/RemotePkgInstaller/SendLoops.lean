import RemotePkgInstaller.Loops
import RemotePkgInstaller.QueuedStreams

/-! The loop of `conn_thread` that sends what is queued and then the file behind it, through a
buffer that both share, whatever the socket takes at a time and the file gives. -/
namespace RemotePkgInstaller
namespace SendLoops

open Loops SbBuffers

/-- What a round's calls answer: `send`, with what is in `errno` if it fails, and `read`, with
one less than the bytes it gives as long as there are as many, or nothing if it fails. -/
structure SendIo where
  sent : ℕ → ℤ
  wouldBlock : ℕ → Bool
  read : ℕ → Option ℕ

/-- Why the loop is over: there is nothing left to send, the client is gone, memory has run out,
or `send` is given the length that a failed `read` has returned. -/
inductive Ending
  | finished | disconnected | outOfMem | overrun
  deriving DecidableEq

/-- The stream while it sends, with the rest of its file and what the client has got. -/
structure Sending where
  sendBuf : SbBuffer
  sendFd : Option Bytes
  wire : Bytes
  ending : Option Ending

/-- The buffer with what `read` has put into it. -/
def readInto (b : SbBuffer) (rest : Bytes) (n : ℕ) : SbBuffer :=
  let data := rest.take (min n b.cap)
  ⟨data++b.mem.drop data.length,data.length,b.reallocs,by simp⟩

/-- The least that the buffer has room for when the file is read. -/
def chunkSize : ℕ := 8192

section Rounds

variable (io : SendIo) (results : Reallocs)

/-- From `send_data` on. -/
def sendData (k : ℕ) (s : Sending) : Sending :=
  if io.sent k ≤ 0 then
    if io.wouldBlock k then s else { s with ending := some .disconnected }
  else
    let sz := min (io.sent k).toNat s.sendBuf.len
    { s with sendBuf := sbBufferShift s.sendBuf sz, wire := s.wire++s.sendBuf.text.take sz }

def sbStreamSend (k : ℕ) (s : Sending) : Sending :=
  if 0 < s.sendBuf.len then sendData io k s
  else
    match s.sendFd with
    | none => { s with ending := some .finished }
    | some rest =>
      let reserved := sbBufferReserve results s.sendBuf chunkSize
      if reserved.1 ≠ .success then
        { s with sendBuf := reserved.2, ending := some .outOfMem }
      else
        match io.read k with
        | none => { s with sendBuf := reserved.2, ending := some .overrun }
        | some n =>
          let filled := readInto reserved.2 rest (n+1)
          if 0 < filled.len then
            sendData io k { s with sendBuf := filled, sendFd := some (rest.drop filled.len) }
          else { s with sendBuf := filled, sendFd := none }

def round (k : ℕ) (s : Sending) : Option Sending :=
  if s.ending.isSome then none else some (sbStreamSend io results k s)

end Rounds

/-- The stream when its request has been handled. -/
def start (queued : SbBuffer) (file : Option Bytes) : Sending := ⟨queued,file,[],none⟩

/-- What has not been sent yet. -/
def due (s : Sending) : Bytes := s.sendBuf.text++s.sendFd.getD []

/-- Nothing is lost, doubled or out of order, and the buffer has not grown beyond one chunk. -/
structure Sent (whole : Bytes) (limit : ℕ) (s : Sending) : Prop where
  wire : s.wire++due s = whole
  cap : s.sendBuf.cap ≤ limit
  finished : s.ending = some .finished → due s = []

/-- What may end the loop early, and when it does not. -/
def Cause (io : SendIo) (results : Reallocs) (file : Option Bytes) : Ending → Prop
  | .finished => True
  | .disconnected => ∃ k, io.sent k ≤ 0 ∧ io.wouldBlock k = false
  | .outOfMem => file.isSome ∧ ∃ k, results k = none
  | .overrun => file.isSome ∧ ∃ k, io.read k = none

/-- An ending has its cause. -/
structure Caused (io : SendIo) (results : Reallocs) (file : Option Bytes) (s : Sending) : Prop where
  opened : s.sendFd.isSome → file.isSome
  cause : ∀ {e}, s.ending = some e → Cause io results file e

/-- The socket takes something in this round, or the client is gone. -/
def Unblocked (io : SendIo) (k : ℕ) : Prop := 0 < io.sent k ∨ io.wouldBlock k = false

/-- What is left to do: the bytes, the end of the file, and the end of the loop. -/
def toDo (s : Sending) : ℕ :=
  if s.ending.isSome then 0 else (due s).length+(if s.sendFd.isSome then 2 else 1)

section Steps

variable {io : SendIo} {results : Reallocs} {k limit : ℕ} {s s' : Sending} {whole rest : Bytes}
  {b : SbBuffer} {n : ℕ}

@[simp] theorem text_readInto : (readInto b rest n).text = rest.take (min n b.cap) :=
  List.take_left' rfl

@[simp] theorem cap_readInto : (readInto b rest n).cap = b.cap := by
  unfold SbBuffer.cap
  simp only [readInto,List.length_append,List.length_drop,List.length_take,SbBuffer.cap]
  omega

@[simp] theorem cap_shift : (sbBufferShift b n).cap = b.cap := by
  have hle := b.len_le
  unfold SbBuffer.cap
  simp only [sbBufferShift,List.length_append,List.length_take,List.length_drop]
  omega

theorem text_eq_nil (h : ¬ 0 < b.len) : b.text = [] := by
  rw [← List.length_eq_zero_iff,SbBuffer.length_text]
  omega

/-- What a round comes to: it sends from the buffer, perhaps after it has filled it, or the file
is at its end, or the loop is. -/
inductive Step (io : SendIo) (results : Reallocs) (k : ℕ) (s : Sending) : Sending → Prop
  | send (hlen : 0 < s.sendBuf.len) : Step io results k s (sendData io k s)
  | finished (hbuf : s.sendBuf.text = []) (hfd : s.sendFd = none) :
      Step io results k s { s with ending := some .finished }
  | outOfMem {b : SbBuffer} {rest : Bytes} (hbuf : s.sendBuf.text = []) (hfd : s.sendFd = some rest)
      (htext : b.text = []) (hcap : b.cap ≤ max s.sendBuf.cap chunkSize)
      (hresult : ∃ k, results k = none) :
      Step io results k s { s with sendBuf := b, ending := some .outOfMem }
  | overrun {b : SbBuffer} {rest : Bytes} (hbuf : s.sendBuf.text = []) (hfd : s.sendFd = some rest)
      (htext : b.text = []) (hcap : b.cap ≤ max s.sendBuf.cap chunkSize)
      (hread : io.read k = none) :
      Step io results k s { s with sendBuf := b, ending := some .overrun }
  | closeFile {b : SbBuffer} (hbuf : s.sendBuf.text = []) (hfd : s.sendFd = some [])
      (htext : b.text = []) (hcap : b.cap ≤ max s.sendBuf.cap chunkSize) :
      Step io results k s { s with sendBuf := b, sendFd := none }
  | read {b : SbBuffer} {rest : Bytes} (hbuf : s.sendBuf.text = [])
      (hfd : s.sendFd = some (b.text++rest)) (hlen : 0 < b.len)
      (hcap : b.cap ≤ max s.sendBuf.cap chunkSize) :
      Step io results k s (sendData io k { s with sendBuf := b, sendFd := some rest })

theorem step_sbStreamSend (io : SendIo) (results : Reallocs) (k : ℕ) (s : Sending) :
    Step io results k s (sbStreamSend io results k s) := by
  obtain ⟨sendBuf,sendFd,wire,ending⟩ := s
  unfold sbStreamSend
  split_ifs with hlen
  · exact .send hlen
  have hbuf := text_eq_nil hlen
  cases sendFd with
  | none => exact .finished hbuf rfl
  | some rest =>
    obtain ⟨hdoes,hroom,hkept⟩ := reserve_does results sendBuf chunkSize
    have hcap := cap_reserve results sendBuf chunkSize
    have htext := text_eq_nil (b := (sbBufferReserve results sendBuf chunkSize).2)
      (by rwa [hkept])
    dsimp only
    generalize sbBufferReserve results sendBuf chunkSize = reserved at *
    split_ifs with hfailed
    · have hresult : ∃ k, results k = none := by
        by_contra hall
        exact hfailed (hdoes.memory (not_exists.mp hall))
      exact .outOfMem hbuf rfl htext hcap hresult
    · cases hread : io.read k with
      | none => exact .overrun hbuf rfl htext hcap hread
      | some n =>
        have hpos : 0 < min (n+1) reserved.2.cap := by
          have hle := hroom (not_not.mp hfailed)
          have hchunk : 0 < chunkSize := by decide
          omega
        have hfilled : (readInto reserved.2 rest (n+1)).text++
            rest.drop (readInto reserved.2 rest (n+1)).len = rest := by
          rw [← SbBuffer.length_text,text_readInto,List.length_take]
          rcases Nat.le_total (min (n+1) reserved.2.cap) rest.length with hle | hle
          · rw [Nat.min_eq_left hle,List.take_append_drop]
          · rw [Nat.min_eq_right hle,List.drop_length,List.append_nil,List.take_of_length_le hle]
        dsimp only
        split_ifs with hdata
        · exact .read hbuf (congrArg some hfilled.symm) hdata (cap_readInto.le.trans hcap)
        · have hnil := text_eq_nil hdata
          rw [text_readInto,List.take_eq_nil_iff] at hnil
          obtain rfl := hnil.resolve_left hpos.ne'
          exact .closeFile hbuf rfl (text_eq_nil hdata) (cap_readInto.le.trans hcap)

theorem due_eq_rest (hbuf : s.sendBuf.text = []) (hfd : s.sendFd = some rest) : due s = rest := by
  rw [due,hbuf,hfd]
  rfl

theorem Sent.sendData (h : Sent whole limit s) (hs : s.ending = none) :
    Sent whole limit (sendData io k s) := by
  unfold SendLoops.sendData
  split_ifs
  · exact h
  · exact ⟨h.wire,h.cap,fun h => (by cases h)⟩
  · refine ⟨?_,cap_shift.le.trans h.cap,fun hfinished => ?_⟩
    · rw [due,shift_text,List.append_assoc,← List.append_assoc (s.sendBuf.text.take _),
        ← SbBuffer.length_text]
      dsimp only
      rw [List.take_append_drop]
      exact h.wire
    · cases hs.symm.trans hfinished

theorem Sent.round (h : Sent whole limit s) (hlimit : chunkSize ≤ limit)
    (hround : round io results k s = some s') : Sent whole limit s' := by
  unfold SendLoops.round at hround
  split_ifs at hround with hending
  have hs : s.ending = none := by simpa using hending
  obtain rfl := Option.some.inj hround
  have hstep := step_sbStreamSend io results k s
  generalize sbStreamSend io results k s = s' at hstep
  have hwire := h.wire
  have hcaps : ∀ {cap}, cap ≤ max s.sendBuf.cap chunkSize → cap ≤ limit :=
    fun hcap => hcap.trans (max_le h.cap hlimit)
  cases hstep with
  | send => exact h.sendData hs
  | finished hbuf hfd =>
    refine ⟨hwire,h.cap,fun _ => ?_⟩
    simp [due,hbuf,hfd]
  | outOfMem hbuf hfd htext hcap =>
    rw [due_eq_rest hbuf hfd,← due_eq_rest (s := { s with sendBuf := _ }) htext hfd] at hwire
    exact ⟨hwire,hcaps hcap,fun h => (by cases h)⟩
  | overrun hbuf hfd htext hcap =>
    rw [due_eq_rest hbuf hfd,← due_eq_rest (s := { s with sendBuf := _ }) htext hfd] at hwire
    exact ⟨hwire,hcaps hcap,fun h => (by cases h)⟩
  | closeFile hbuf hfd htext hcap =>
    refine ⟨?_,hcaps hcap,fun h => absurd (hs.symm.trans h) (by simp)⟩
    rw [due_eq_rest hbuf hfd] at hwire
    simpa [due,htext] using hwire
  | read hbuf hfd hlen hcap =>
    rw [due_eq_rest hbuf hfd] at hwire
    exact Sent.sendData ⟨hwire,hcaps hcap,fun h => absurd (hs.symm.trans h) (by simp)⟩ hs

theorem Caused.sendData {file : Option Bytes} (h : Caused io results file s) :
    Caused io results file (sendData io k s) := by
  unfold SendLoops.sendData
  split_ifs with hsent hblock
  · exact h
  · refine ⟨h.opened,fun he => ?_⟩
    cases he
    exact ⟨k,hsent,by simpa using hblock⟩
  · exact ⟨h.opened,h.cause⟩

theorem Caused.round {file : Option Bytes} (h : Caused io results file s)
    (hround : round io results k s = some s') : Caused io results file s' := by
  unfold SendLoops.round at hround
  split_ifs at hround with hending
  have hs : s.ending = none := by simpa using hending
  obtain rfl := Option.some.inj hround
  have hstep := step_sbStreamSend io results k s
  generalize sbStreamSend io results k s = s' at hstep
  have hfile := h.opened
  have hopen : ∀ {rest}, s.sendFd = some rest → file.isSome := fun hfd => hfile (by rw [hfd]; rfl)
  cases hstep with
  | send => exact h.sendData
  | finished => exact ⟨hfile,fun he => by cases he; trivial⟩
  | outOfMem _ hfd _ _ hresult => exact ⟨hfile,fun he => by cases he; exact ⟨hopen hfd,hresult⟩⟩
  | overrun _ hfd _ _ hread => exact ⟨hfile,fun he => by cases he; exact ⟨hopen hfd,_,hread⟩⟩
  | closeFile => exact ⟨fun h => absurd h Bool.false_ne_true,h.cause⟩
  | read _ hfd => exact Caused.sendData ⟨fun _ => hopen hfd,h.cause⟩

theorem toDo_sendData (hs : s.ending = none) (hlen : 0 < s.sendBuf.len) :
    toDo (sendData io k s) ≤ toDo s ∧
      (Unblocked io k → toDo (sendData io k s) < toDo s) := by
  have htodo : toDo s = (due s).length+(if s.sendFd.isSome then 2 else 1) := by
    rw [toDo,hs]
    rfl
  have hpos : 0 < toDo s := by
    rw [htodo]
    split_ifs <;> omega
  unfold SendLoops.sendData
  split_ifs with hsent hblock
  · refine ⟨Nat.le_refl _,fun h => ?_⟩
    rcases h with h | h
    · exact absurd h (not_lt.mpr hsent)
    · cases hblock.symm.trans h
  · exact ⟨Nat.zero_le _,fun _ => hpos⟩
  · have hshift : toDo { s with
        sendBuf := sbBufferShift s.sendBuf (min (io.sent k).toNat s.sendBuf.len)
        wire := s.wire++s.sendBuf.text.take (min (io.sent k).toNat s.sendBuf.len) } =
        toDo s-min (io.sent k).toNat s.sendBuf.len := by
      rw [htodo,toDo,hs]
      simp only [due,shift_text,List.length_append,List.length_drop,SbBuffer.length_text,
        Option.isSome_none,Bool.false_eq_true,if_false]
      omega
    dsimp only at hshift ⊢
    rw [hshift]
    exact ⟨Nat.sub_le _ _,fun _ => by omega⟩

theorem toDo_round (hround : round io results k s = some s') :
    toDo s' ≤ toDo s ∧ (Unblocked io k → toDo s' < toDo s) := by
  unfold SendLoops.round at hround
  split_ifs at hround with hending
  have hs : s.ending = none := by simpa using hending
  obtain rfl := Option.some.inj hround
  have hstep := step_sbStreamSend io results k s
  generalize sbStreamSend io results k s = s' at hstep
  have htodo : toDo s = (due s).length+(if s.sendFd.isSome then 2 else 1) := by
    rw [toDo,hs]
    rfl
  have hpos : 0 < toDo s := by
    rw [htodo]
    split_ifs <;> omega
  cases hstep with
  | send hlen => exact toDo_sendData hs hlen
  | finished => exact ⟨Nat.zero_le _,fun _ => hpos⟩
  | outOfMem => exact ⟨Nat.zero_le _,fun _ => hpos⟩
  | overrun => exact ⟨Nat.zero_le _,fun _ => hpos⟩
  | @closeFile b hbuf hfd htext hcap =>
    have hless : toDo { s with sendBuf := b, sendFd := none } < toDo s := by
      rw [htodo,toDo,hs,due_eq_rest hbuf hfd,hfd]
      simp [due,htext]
    exact ⟨hless.le,fun _ => hless⟩
  | @read b rest hbuf hfd hlen hcap =>
    have hsame : toDo { s with sendBuf := b, sendFd := some rest } = toDo s := by
      rw [htodo,toDo,hs,due_eq_rest hbuf hfd,hfd]
      rfl
    rw [← hsame]
    exact toDo_sendData hs hlen

end Steps

section Runs

variable {io : SendIo} {results : Reallocs} {queued : SbBuffer} {file : Option Bytes}

theorem sent_round (k : ℕ) (s s' : Sending)
    (h : Sent (queued.text++file.getD []) (max queued.cap chunkSize) s)
    (hround : round io results k s = some s') :
    Sent (queued.text++file.getD []) (max queued.cap chunkSize) s' :=
  h.round (Nat.le_max_right ..) hround

theorem sent_start :
    Sent (queued.text++file.getD []) (max queued.cap chunkSize) (start queued file) :=
  ⟨rfl,Nat.le_max_left ..,fun h => (by cases h)⟩

theorem sent_after (n : ℕ) : Sent (queued.text++file.getD []) (max queued.cap chunkSize)
    (after (round io results) n 0 (start queued file)) :=
  after_invariant sent_round n 0 sent_start

/-- The loop has ended for a cause; without one, everything has been sent. -/
theorem ends_caused {t : Sending} (ht : Ends (round io results) 0 (start queued file) t) :
    ∃ e, t.ending = some e ∧ Cause io results file e ∧
      (e = .finished → t.wire = queued.text++file.getD []) := by
  have hsent := ht.invariant sent_round sent_start
  have hcaused := ht.invariant (fun k s s' hs h => Caused.round hs h)
    (⟨id,fun h => (by cases h)⟩ : Caused io results file (start queued file))
  obtain ⟨k,hstopped⟩ := ht.stopped
  rw [round] at hstopped
  split_ifs at hstopped with hending
  obtain ⟨e,he⟩ := Option.isSome_iff_exists.mp hending
  refine ⟨e,he,hcaused.cause he,?_⟩
  rintro rfl
  have hwire := hsent.wire
  rwa [hsent.finished he,List.append_nil] at hwire

theorem ends_of_unblocked (hfair : ∀ k, ∃ j, Unblocked io (k+j)) (results : Reallocs)
    (s : Sending) :
    ∃ t, Ends (round io results) 0 s t := by
  refine ends_of_fair toDo (fun k s s' h => (toDo_round h).1) (fun k => ?_) 0 s
  obtain ⟨j,hj⟩ := hfair k
  exact ⟨j,fun s s' h => (toDo_round h).2 hj⟩

variable (io results queued file)

/-- Whatever the socket takes and the file gives, the client gets a beginning of what is queued
and of the file behind it, through a buffer that does not grow with the file.  The loop ends,
unless the socket blocks for good; then the client has got all of it, or there is a cause why it
has not. -/
theorem sendLoop_delivers :
    (∀ n, (after (round io results) n 0 (start queued file)).wire <+: queued.text++file.getD [] ∧
      (after (round io results) n 0 (start queued file)).sendBuf.cap ≤ max queued.cap chunkSize) ∧
    (∀ t, Ends (round io results) 0 (start queued file) t → ∃ e, t.ending = some e ∧
      Cause io results file e ∧ (e = .finished → t.wire = queued.text++file.getD [])) ∧
    ((∀ k, ∃ j, Unblocked io (k+j)) → ∃ t, Ends (round io results) 0 (start queued file) t) :=
  ⟨fun n => ⟨⟨_,(sent_after n).wire⟩,(sent_after n).cap⟩,fun _ => ends_caused,
    fun hfair => ends_of_unblocked hfair _ _⟩

end Runs

end SendLoops
end RemotePkgInstaller
