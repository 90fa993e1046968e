import RemotePkgInstaller.Loops
import RemotePkgInstaller.Util

/-! Whole files, read and written, with all that the two functions report.  A write that is cut
short is reported; a read that is cut short is not. -/
namespace RemotePkgInstaller
namespace WholeFiles

open Loops TransferLoop Util

section Writing

/-- The variables of the writing loop, and what the file holds. -/
structure Transfer where
  sizeLeft : ℕ
  total : ℕ
  buf : ℕ
  file : Bytes

/-- One round of the loop; `buf` is how far the pointer has moved. -/
def writeRound (data : Bytes) (writes : ℕ → ℤ) (k : ℕ) (s : Transfer) : Option Transfer :=
  if s.sizeLeft = 0 then none
  else if writes k ≤ 0 then none
  else
    let n := min (writes k).toNat s.sizeLeft
    some ⟨s.sizeLeft-n,s.total+n,s.buf+n,s.file++window data s.buf n⟩

/-- The counters and the pointer agree, and the file holds what they say. -/
structure Consistent (data : Bytes) (s : Transfer) : Prop where
  left : s.sizeLeft+s.total = data.length
  pointer : s.buf = s.total
  file : s.file = data.take s.total

variable {data : Bytes} {writes : ℕ → ℤ} {k fuel : ℕ} {s s' t : Transfer}

theorem writeRound_some (h : writeRound data writes k s = some s') :
    0 < s.sizeLeft ∧ 0 < writes k ∧ s' = ⟨s.sizeLeft-min (writes k).toNat s.sizeLeft,
      s.total+min (writes k).toNat s.sizeLeft,s.buf+min (writes k).toNat s.sizeLeft,
      s.file++window data s.buf (min (writes k).toNat s.sizeLeft)⟩ := by
  rw [writeRound] at h
  split_ifs at h with h0 hneg
  exact ⟨by omega,by omega,(Option.some.inj h).symm⟩

theorem Consistent.writeRound (hs : Consistent data s)
    (h : writeRound data writes k s = some s') : Consistent data s' := by
  obtain ⟨_,_,rfl⟩ := writeRound_some h
  have hle : min (writes k).toNat s.sizeLeft ≤ s.sizeLeft := min_le_right _ _
  have hleft := hs.left
  refine ⟨?_,?_,?_⟩
  · change s.sizeLeft-_+(s.total+_) = _
    omega
  · change s.buf+_ = s.total+_
    rw [hs.pointer]
  · change s.file++window data s.buf _ = data.take (s.total+_)
    rw [hs.file,hs.pointer,window,List.take_add]

theorem writeRound_decreases (k : ℕ) (s s' : Transfer) (h : writeRound data writes k s = some s') :
    s'.sizeLeft < s.sizeLeft := by
  obtain ⟨hleft,hpos,rfl⟩ := writeRound_some h
  change s.sizeLeft-_ < s.sizeLeft
  omega

/-- The rounds write as much as the loop of the counts says. -/
theorem total_of_ends (h : Ends (writeRound data writes) k s t) (hfuel : s.sizeLeft ≤ fuel) :
    t.total = s.total+writeLoop writes fuel k s.sizeLeft := by
  induction h generalizing fuel with
  | @stop k s hnone =>
    rw [writeRound] at hnone
    cases fuel with
    | zero => rfl
    | succ fuel =>
      split_ifs at hnone with h0 hneg
      · simp [writeLoop,h0]
      · simp [writeLoop,hneg]
  | @more k s s' t hsome _ ih =>
    obtain ⟨hleft,hpos,rfl⟩ := writeRound_some hsome
    obtain ⟨fuel,rfl⟩ := Nat.exists_eq_succ_of_ne_zero (Nat.ne_zero_of_lt (hleft.trans_le hfuel))
    have hrest := @ih fuel (by dsimp only; omega)
    rw [hrest,writeLoop,if_neg hleft.ne',if_neg (not_le.mpr hpos)]
    exact Nat.add_assoc _ _ _

/-- Before the first round. -/
def start (data : Bytes) : Transfer := ⟨data.length,0,0,[]⟩

theorem start_consistent (data : Bytes) : Consistent data (start data) := ⟨rfl,rfl,rfl⟩

/-- The loop ends in one state only.  A write is reported as done exactly if the file was opened
and took all of the data, and then it holds the data; once opened, it holds in any case as much
of the data as is reported. -/
theorem writeFileTrunc_exact (file : Option Bytes) (data : Bytes) (io : WriteCalls) :
    (∃ t, Ends (writeRound data io.writes) 0 (start data) t ∧
        (∀ t', Ends (writeRound data io.writes) 0 (start data) t' → t' = t) ∧
        (io.opened = true → (writeFileTrunc file data io).nwritten = t.total ∧
          (writeFileTrunc file data io).file = some t.file)) ∧
      ((writeFileTrunc file data io).status = true ↔
        io.opened = true ∧ Delivers io.writes 0 data.length) ∧
      ((writeFileTrunc file data io).status = true →
        (writeFileTrunc file data io).file = some data) ∧
      (io.opened = true → (writeFileTrunc file data io).file =
        some (data.take (writeFileTrunc file data io).nwritten)) := by
  have hnwritten (hopened : io.opened = true) :
      (writeFileTrunc file data io).nwritten = io.accepted data.length := by
    simp [writeFileTrunc,writeFile,hopened]
  have hfile (hopened : io.opened = true) : (writeFileTrunc file data io).file =
      some (data.take (writeFileTrunc file data io).nwritten) := by
    rw [writeFileTrunc_file,if_pos hopened,hnwritten hopened]
  refine ⟨?_,?_,writeFileTrunc_complete,hfile⟩
  · obtain ⟨t,ht⟩ := ends_of_decreasing Transfer.sizeLeft
      (@writeRound_decreases data io.writes) 0 (start data)
    have hconsistent : Consistent data t :=
      ht.invariant (fun _ _ _ hs h => hs.writeRound h) (start_consistent data)
    have htotal : t.total = io.accepted data.length :=
      (total_of_ends ht le_rfl).trans (Nat.zero_add _)
    refine ⟨t,ht,fun _ => ht.unique,fun hopened => ?_⟩
    have hn : (writeFileTrunc file data io).nwritten = t.total := by
      rw [hnwritten hopened,htotal]
    exact ⟨hn,by rw [hfile hopened,hn,hconsistent.file]⟩
  · rw [writeFileTrunc_status]
    exact and_congr_right fun _ => writeLoop_eq_iff io.writes le_rfl

end Writing

section Reading

/-- What `read_text_file` reports: `data` with the terminator. -/
structure TextFile where
  status : Bool
  data : Option Bytes
  size : ℕ
  deriving DecidableEq

def readTextFile (content : Bytes) (io : ReadCalls) (maxSize : ℕ) : TextFile :=
  if io.opened = false then ⟨false,none,0⟩
  else
    match io.statSize with
    | none => ⟨false,none,0⟩
    | some fileSize =>
      if maxSize > 0 ∧ fileSize > maxSize then ⟨false,none,0⟩
      else if io.allocated = false then ⟨false,none,0⟩
      else
        let text := (readLoop io.reads fileSize fileSize 0 fileSize content).1
        ⟨true,some (text++[0]),text.length⟩

variable {content : Bytes} {io : ReadCalls} {maxSize : ℕ}

/-- The text that its callers read. -/
theorem readTextFile_text : Util.readTextFile content io maxSize =
    (readTextFile content io maxSize).data.map List.dropLast := by
  unfold Util.readTextFile readTextFile
  cases io.opened with
  | false => rfl
  | true =>
    cases io.statSize with
    | none => rfl
    | some fileSize =>
      dsimp only
      split_ifs <;> simp

/-- The whole file, or nothing. -/
def WholeOrNothing (content : Bytes) (io : ReadCalls) (maxSize : ℕ) (r : TextFile) : Prop :=
  (r.status = true → io.statSize = some r.size ∧ r.data = some (content++[0]) ∧
    (0 < maxSize → r.size ≤ maxSize)) ∧ (r.status = false → r.data = none ∧ r.size = 0)

instance (r : TextFile) : Decidable (WholeOrNothing content io maxSize r) :=
  inferInstanceAs (Decidable (_ ∧ _))

/-- The file is not read at all. -/
def Unread (io : ReadCalls) (maxSize : ℕ) : Prop :=
  io.opened = false ∨ io.statSize = none ∨ (∃ n ∈ io.statSize, 0 < maxSize ∧ maxSize < n) ∨
    io.allocated = false

theorem readTextFile_unread (h : Unread io maxSize) :
    readTextFile content io maxSize = ⟨false,none,0⟩ := by
  unfold readTextFile
  cases hopened : io.opened with
  | false => rfl
  | true =>
    cases hsize : io.statSize with
    | none => rfl
    | some fileSize =>
      simp only [Unread,hopened,hsize,Option.mem_some,exists_eq_left',Bool.true_eq_false,
        reduceCtorEq,false_or] at h
      rcases h with h | h
      · simp [h]
      · simp [h]

theorem readTextFile_read (h : ¬ Unread io maxSize) :
    ∃ fileSize, io.statSize = some fileSize ∧ (0 < maxSize → fileSize ≤ maxSize) ∧
      readTextFile content io maxSize =
        ⟨true,some ((readLoop io.reads fileSize fileSize 0 fileSize content).1++[0]),
          (readLoop io.reads fileSize fileSize 0 fileSize content).1.length⟩ := by
  simp only [Unread,not_or] at h
  obtain ⟨hopened,hsize,hmax,halloc⟩ := h
  obtain ⟨fileSize,hfileSize⟩ := Option.ne_none_iff_exists'.mp hsize
  have hle (h0 : 0 < maxSize) : fileSize ≤ maxSize := by
    by_contra hlt
    exact hmax ⟨fileSize,hfileSize,h0,by omega⟩
  refine ⟨fileSize,hfileSize,hle,?_⟩
  rw [readTextFile,if_neg hopened,hfileSize]
  dsimp only
  rw [if_neg (by omega),if_neg halloc]

/-- A file is read whole or not at all exactly if it is refused before the first read, or its
size is as reported and the reads deliver all of it. -/
theorem readTextFile_whole_iff (content : Bytes) (io : ReadCalls) (maxSize : ℕ) :
    WholeOrNothing content io maxSize (readTextFile content io maxSize) ↔
      Unread io maxSize ∨
        io.statSize = some content.length ∧ Delivers io.reads 0 content.length := by
  by_cases hunread : Unread io maxSize
  · rw [readTextFile_unread hunread]
    exact iff_of_true ⟨nofun,fun _ => ⟨rfl,rfl⟩⟩ (Or.inl hunread)
  obtain ⟨fileSize,hsize,hmax,hread⟩ := @readTextFile_read content io maxSize hunread
  have hdelivers :=
    @readLoop_eq_take_iff UInt8 io.reads fileSize fileSize 0 fileSize content le_rfl le_rfl
  rw [hread,or_iff_right hunread]
  constructor
  · rintro ⟨hwhole,_⟩
    obtain ⟨hlength,hdata,_⟩ := hwhole rfl
    have htext := List.append_cancel_right (Option.some.inj hdata)
    have heq : fileSize = content.length := by
      rw [hsize,htext] at hlength
      exact Option.some.inj hlength
    subst heq
    rw [htext,List.take_length,Nat.min_self] at hdelivers
    exact ⟨hsize,hdelivers.mp rfl⟩
  · rintro ⟨hlength,hd⟩
    have heq : fileSize = content.length := Option.some.inj (hsize.symm.trans hlength)
    subst heq
    rw [List.take_length,Nat.min_self] at hdelivers
    have htext := hdelivers.mpr hd
    refine ⟨fun _ => ⟨?_,?_,?_⟩,nofun⟩
    · rw [hsize,htext]
    · rw [htext]
    · rw [htext]
      exact hmax

/-- The file is read in full. -/
structure InFull (content : Bytes) (io : ReadCalls) : Prop where
  opened : io.opened = true
  statSize : io.statSize = some content.length
  allocated : io.allocated = true
  reads : Delivers io.reads 0 content.length

theorem inFull_whole (content : Bytes) : InFull content (ReadCalls.whole content) := by
  refine ⟨rfl,rfl,rfl,?_⟩
  by_cases h0 : content.length = 0
  · rw [h0]
    exact .done 0
  · refine .more (Int.natCast_pos.mpr (Nat.succ_pos _)) ?_
    have hnone : content.length-((ReadCalls.whole content).reads 0).toNat = 0 := by
      change content.length-((content.length : ℤ)+1).toNat = 0
      omega
    rw [hnone]
    exact .done _

theorem readTextFile_inFull (h : InFull content io) (hmax : content.length ≤ maxSize) :
    Util.readTextFile content io maxSize = some content := by
  have htext : (readLoop io.reads content.length content.length 0 content.length content).1 =
      content := by
    have hiff := @readLoop_eq_take_iff UInt8 io.reads content.length content.length 0
      content.length content le_rfl le_rfl
    rw [List.take_length,Nat.min_self] at hiff
    exact hiff.mpr h.reads
  simp only [Util.readTextFile,h.opened,h.statSize,h.allocated,htext,Bool.true_eq_false,if_false]
  rw [if_neg (by omega)]

/-- The first read gives one byte of two, and the second one fails. -/
def cutShort : ReadCalls := ⟨true,some 2,true,fun k => if k = 0 then 1 else -1⟩

theorem readTextFile_cut_short : ¬ ∀ (content : Bytes) (io : ReadCalls) (maxSize : ℕ),
    io.statSize = some content.length →
      WholeOrNothing content io maxSize (readTextFile content io maxSize) := by
  intro h
  exact absurd (h [0x61,0x62] cutShort 0 rfl) (by decide)

end Reading

end WholeFiles
end RemotePkgInstaller
