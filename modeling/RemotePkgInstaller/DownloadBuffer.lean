import RemotePkgInstaller.Downloads

/-! The buffer of a download: what it is sized for, and what the reading loop has put into it
after any sequence of reads. -/
namespace RemotePkgInstaller
namespace DownloadBuffer

open Downloads HttpTransfer TransferLoop

/-- What is asked of `malloc`: one byte more than is wanted, in 64-bit arithmetic. -/
def mallocSize (total : UInt64) : UInt64 := total+1

/-- The loop between two reads: the memory from the buffer's first byte on, as far as it is
known, and how much has been copied. -/
structure ReadState where
  memory : Bytes
  curSize : UInt64
  deriving DecidableEq

/-- The buffer is cleared before anything is read. -/
def ReadState.start (total : UInt64) : ReadState :=
  ⟨List.replicate (mallocSize total).toNat 0,0⟩

/-- `memcpy` to place `i`; bytes past the end of what is known become known. -/
def overwrite (memory : Bytes) (i : ℕ) (data : Bytes) : Bytes :=
  memory.take i++data++memory.drop (i+data.length)

/-- How many bytes the next read is asked for. -/
def ReadState.asked (st : ReadState) (total : UInt64) (cap : ℕ) : ℕ :=
  min (total-st.curSize).toNat cap

def ReadState.copy (st : ReadState) (data : Bytes) : ReadState :=
  ⟨overwrite st.memory st.curSize.toNat data,st.curSize+UInt64.ofNat data.length⟩

/-- The states of the loop, with what the reads have delivered one after another: each of them
something, and no more than it was asked for. -/
inductive Reads (total : UInt64) (cap : ℕ) : List Bytes → ReadState → Prop
  | start : Reads total cap [] (.start total)
  | read {chunks : List Bytes} {st : ReadState} {data : Bytes} (h : Reads total cap chunks st)
      (hleft : st.curSize < total) (hdata : data ≠ []) (hle : data.length ≤ st.asked total cap) :
      Reads total cap (chunks++[data]) (st.copy data)

/-- Less is copied than was asked of `malloc`: the chunks in their order, and a zero after them. -/
structure Fits (total : UInt64) (chunks : List Bytes) (st : ReadState) : Prop where
  counted : st.curSize.toNat = chunks.flatten.length
  inside : chunks.flatten.length < (mallocSize total).toNat
  sized : st.memory.length = (mallocSize total).toNat
  copied : st.memory.take chunks.flatten.length = chunks.flatten
  terminated : st.memory[chunks.flatten.length]? = some 0

/-- The number of bytes that a callback sets out to read. -/
def wanted (args : CbArgs) (answer : HostAnswer) : UInt64 :=
  totalSize args.dataSize (knownLength answer)

/-- The callback gets as far as its loop. -/
structure EntersLoop (sdk : Sdk) (args : CbArgs) (request : ℤ) (answer : HostAnswer) : Prop where
  request : 0 ≤ request
  good : isGoodStatus answer.statusCode = true
  partialContent : args.wantPartial = true → answer.statusCode = 206
  announced : args.dataSize = unknownLength → answer.contentLengthType = contentLengthExist
  chunk : 0 < wanted args answer → args.chunk ≠ none
  allocated : sdk.allocated (mallocSize (wanted args answer)) = true

section Loop

variable {total : UInt64} {cap : ℕ} {chunks : List Bytes} {st : ReadState}

theorem overwrite_append (copied rest data : Bytes) :
    overwrite (copied++rest) copied.length data = copied++data++rest.drop data.length := by
  rw [overwrite,List.take_left,List.drop_append]
  simp

/-- The count keeps up with what is copied, and never passes what is wanted. -/
theorem Reads.counted (h : Reads total cap chunks st) :
    st.curSize.toNat = chunks.flatten.length ∧ chunks.flatten.length ≤ total.toNat := by
  induction h with
  | start => exact ⟨rfl,Nat.zero_le _⟩
  | @read chunks st data h hleft _ hle ih =>
    have htotal := total.toNat_lt
    have hsub : (total-st.curSize).toNat = total.toNat-st.curSize.toNat :=
      UInt64.toNat_sub_of_le _ _ (UInt64.le_of_lt hleft)
    have hmin : st.asked total cap ≤ (total-st.curSize).toNat := min_le_left _ _
    have hlt := UInt64.lt_iff_toNat_lt.mp hleft
    have hdata : (UInt64.ofNat data.length).toNat = data.length :=
      UInt64.toNat_ofNat_of_lt' (by change data.length < 2^64; omega)
    rw [List.flatten_append,List.length_append,List.flatten_singleton]
    rw [ReadState.copy,UInt64.toNat_add,hdata,Nat.mod_eq_of_lt (by omega)]
    omega

theorem toNat_mallocSize (h : total ≠ unknownLength) : (mallocSize total).toNat = total.toNat+1 := by
  have htotal := total.toNat_lt
  have hne : total.toNat ≠ 2^64-1 := fun heq => h (UInt64.toNat_inj.mp heq)
  rw [mallocSize,UInt64.toNat_add]
  exact Nat.mod_eq_of_lt (by change total.toNat+1 < 2^64; omega)

/-- Behind what is copied the buffer is still clear. -/
theorem Reads.memory (h : Reads total cap chunks st) (htotal : total ≠ unknownLength) :
    st.memory = chunks.flatten++List.replicate (total.toNat+1-chunks.flatten.length) 0 := by
  induction h with
  | start => rw [ReadState.start,toNat_mallocSize htotal]; rfl
  | @read chunks st data h _ _ _ ih =>
    rw [ReadState.copy,ih,h.counted.1,overwrite_append,List.drop_replicate,List.flatten_append,
      List.flatten_singleton,List.length_append,Nat.sub_add_eq]

theorem Reads.fits (h : Reads total cap chunks st) (htotal : total ≠ unknownLength) :
    Fits total chunks st := by
  obtain ⟨hcount,hle⟩ := h.counted
  have hmemory := h.memory htotal
  have hsize := toNat_mallocSize htotal
  refine ⟨hcount,by omega,?_,?_,?_⟩
  · rw [hmemory,hsize,List.length_append,List.length_replicate]
    omega
  · rw [hmemory,List.take_left]
  · rw [hmemory,List.getElem?_append_right le_rfl,Nat.sub_self,List.getElem?_replicate]
    exact if_pos (by omega)

/-- The loop that reads is one of the runs: it copies what its reads deliver. -/
theorem readLoop_reads (results : ℕ → ℤ) (fuel k : ℕ) (rest : Bytes) (h : Reads total cap chunks st) :
    ∃ more st', Reads total cap (chunks++more) st' ∧
      more.flatten = (readLoop results cap fuel k (total.toNat-chunks.flatten.length) rest).1 := by
  induction fuel generalizing chunks st k rest with
  | zero => exact ⟨[],st,by rwa [List.append_nil],rfl⟩
  | succ fuel ih =>
    obtain ⟨hcount,hle⟩ := h.counted
    simp only [readLoop]
    split_ifs with hleft hfailed hn
    · exact ⟨[],st,by rwa [List.append_nil],rfl⟩
    · exact ⟨[],st,by rwa [List.append_nil],rfl⟩
    · exact ⟨[],st,by rwa [List.append_nil],rfl⟩
    · have hlt : st.curSize < total := UInt64.lt_iff_toNat_lt.mpr (by omega)
      have hsub : (total-st.curSize).toNat = total.toNat-st.curSize.toNat :=
        UInt64.toNat_sub_of_le _ _ (UInt64.le_of_lt hlt)
      generalize hmoved : min (min (results k).toNat (min (total.toNat-chunks.flatten.length) cap))
        rest.length = n at hn ⊢
      have hlength : (rest.take n).length = n := by
        rw [List.length_take]
        omega
      have hread : Reads total cap (chunks++[rest.take n]) (st.copy (rest.take n)) := by
        refine .read h hlt (fun hnil => hn ?_) ?_
        · rw [← hlength,hnil,List.length_nil]
        · rw [hlength,ReadState.asked,hsub]
          omega
      obtain ⟨more,st',hmore,hflatten⟩ := ih (k+1) (rest.drop n) hread
      refine ⟨rest.take n::more,st',by simpa using hmore,?_⟩
      rw [List.flatten_cons,hflatten,List.flatten_append,List.flatten_singleton,List.length_append,
        hlength,Nat.sub_add_eq]

end Loop

section Callback

variable {sdk : Sdk} {args : CbArgs} {request : ℤ} {answer : HostAnswer}

/-- What the callback of the transfer hands back as its data is what one of the runs of its
loop has copied. -/
theorem downloadFileCb_reads (h : EntersLoop sdk args request answer) :
    ∃ chunks st, Reads (wanted args answer) (args.chunk.getD 0) chunks st ∧
      (downloadFileCb sdk args request answer.statusCode answer.contentLength
        answer.contentLengthType answer.body).2.data = some chunks.flatten := by
  obtain ⟨chunks,st,hreads,hflatten⟩ := readLoop_reads sdk.readData (wanted args answer).toNat 0
    answer.body (.start : Reads (wanted args answer) (args.chunk.getD 0) [] _)
  refine ⟨chunks,st,hreads,?_⟩
  have hranged : ¬ (args.wantPartial = true ∧ answer.statusCode ≠ 206) :=
    fun hr => hr.2 (h.partialContent hr.1)
  have hlength : ¬ (args.dataSize = unknownLength ∧
      answer.contentLengthType ≠ contentLengthExist) := fun hl => hl.2 (h.announced hl.1)
  have hchunk : ¬ (0 < wanted args answer ∧ args.chunk = none) := fun hc => h.chunk hc.1 hc.2
  have hknown : (if answer.contentLengthType ≠ contentLengthExist then unknownLength
      else answer.contentLength) = knownLength answer := rfl
  have hallocated : ¬ sdk.allocated (wanted args answer+1) = false := by
    rw [← mallocSize,h.allocated]
    decide
  unfold downloadFileCb
  dsimp only
  rw [if_neg (not_lt.mpr h.request),if_neg (by simp [h.good]),if_neg hranged,if_neg hlength,hknown]
  rw [wanted] at hchunk hallocated hflatten
  rw [if_neg hchunk,if_neg hallocated,hflatten]
  rfl

/-- A download fits its buffer in every state of its loop, whatever the reads deliver, unless
the whole file is asked for and its announced length is the greatest 64-bit number. -/
theorem downloadFileCb_fits_iff :
    (EntersLoop sdk args request answer → ∀ chunks st,
        Reads (wanted args answer) (args.chunk.getD 0) chunks st →
        Fits (wanted args answer) chunks st) ↔
      ¬ (EntersLoop sdk args request answer ∧ args.dataSize = unknownLength ∧
        answer.contentLength = unknownLength) := by
  constructor
  · rintro hfits ⟨henters,hwhole,hlength⟩
    have htotal : wanted args answer = unknownLength := by
      rw [wanted,knownLength,if_neg (not_not.mpr (henters.announced hwhole)),totalSize,if_pos hwhole,
        hlength]
    have hinside := (hfits henters [] _ .start).inside
    rw [htotal] at hinside
    exact absurd hinside (by decide)
  · intro hno henters chunks st hreads
    refine hreads.fits fun htotal => hno ⟨henters,?_⟩
    rw [wanted,totalSize] at htotal
    split_ifs at htotal with hwhole hshort
    · refine ⟨hwhole,?_⟩
      rwa [knownLength,if_neg (not_not.mpr (henters.announced hwhole))] at htotal
    · rw [htotal] at hshort
      have hlt := UInt64.lt_iff_toNat_lt.mp hshort
      have hmax := args.dataSize.toNat_lt
      have hu : unknownLength.toNat = 2^64-1 := rfl
      omega
    · exact absurd htotal hwhole

end Callback

/-- A host that announces 2^64-1 bytes. -/
def hugeAnswer : HostAnswer := ⟨200,contentLengthExist,unknownLength,[0x41]⟩

/-- The arguments of a download of a whole file. -/
def wholeFile : CbArgs := .new unknownLength (some downloadChunkSize) false

/-- The buffer has no bytes, and the first read puts one into it. -/
theorem hugeAnswer_overflows :
    EntersLoop (workingSdk fun _ => hugeAnswer) wholeFile 1 hugeAnswer ∧
      mallocSize (wanted wholeFile hugeAnswer) = 0 ∧
      Reads (wanted wholeFile hugeAnswer) (wholeFile.chunk.getD 0) [[0x41]] ⟨[0x41],1⟩ ∧
      ¬ Fits (wanted wholeFile hugeAnswer) [[0x41]] ⟨[0x41],1⟩ := by
  refine ⟨⟨by decide,by decide,by decide,by decide,by decide,rfl⟩,by decide,?_,fun hfits => ?_⟩
  · have hstart : Reads (wanted wholeFile hugeAnswer) (wholeFile.chunk.getD 0) [] ⟨[],0⟩ := .start
    exact hstart.read (by decide) (by decide) (by decide)
  · exact absurd hfits.inside (by decide)

end DownloadBuffer
end RemotePkgInstaller
