import RemotePkgInstaller.DirectoryWalk
import RemotePkgInstaller.LittleEndian
import RemotePkgInstaller.TempFiles
import RemotePkgInstaller.TempNames

/-! The clean-up at start-up: the walk over all blocks of the working directory.  It deletes
the temporary files that are old enough, each of them if nothing fails, and no other file. -/
namespace RemotePkgInstaller
namespace TempCleanup

open DirectoryWalk InstallPieces Looks Looks.Looking StringMatchers

/-- What one call of `sceKernelGetdents` gives. -/
inductive Dents
  | block (bytes : Bytes)
  | fails
  deriving DecidableEq

/-- The system as the clean-up finds it: the clock, whether the working directory opens, what the
reads of it give (nothing more after the last one), and what the look-ups of files give. -/
structure System where
  clock : Option ℤ
  opens : Bool
  dents : List Dents
  stat : ℕ → Bytes → Option ℤ

/-- The cleared buffer of 8192 bytes, once a block was read into it. -/
def buffer (block : Bytes) : Bytes := block++List.replicate (8192-block.length) 0

/-- The outer loop, over what the reads give; nothing if a walk leaves the buffer. -/
def cleanupLoop (now : ℤ) (stat : ℕ → Bytes → Option ℤ) : List Dents → Cleaned → Option Cleaned
  | [],w => some w
  | .fails::_,w => some w
  | .block block::dents,w =>
    if block = [] then some w
    else
      match (walk (buffer block) now stat block.length w).value with
      | some (some w) => if w.failed then some w else cleanupLoop now stat dents w
      | _ => none

/-- The files that were looked up and unlinked, and whether the directory was closed again. -/
structure Cleanup where
  cleaned : Cleaned
  closed : Bool
  deriving DecidableEq

def cleanupTempFiles (s : System) : Option Cleanup :=
  match s.clock with
  | none => some ⟨⟨[],0,false⟩,false⟩
  | some now =>
    if s.opens then
      (cleanupLoop now s.stat s.dents ⟨[],0,false⟩).map fun cleaned => ⟨cleaned,true⟩
    else some ⟨⟨[],0,false⟩,false⟩

section Records

/-- A well-formed directory record.  Its name is terminated and may be padded. -/
structure DirRecord where
  fileno : UInt32
  ino : UInt32
  type : UInt8
  name : Bytes
  padding : Bytes
  nonzero : (0 : UInt8) ∉ name
  short : name.length < 256

namespace DirRecord

/-- `d_reclen`. -/
def size (r : DirRecord) : ℕ := 12+r.name.length+1+r.padding.length

/-- The fixed part. -/
def head (r : DirRecord) : Bytes :=
  leBytes 4 r.fileno.toNat++(leBytes 4 r.ino.toNat++(leBytes 2 r.size++(leBytes 1 r.type.toNat++
    leBytes 1 r.name.length)))

def encode (r : DirRecord) : Bytes := r.head++(r.name++0::r.padding)

/-- The path of the file, in the working directory. -/
def path (r : DirRecord) : Bytes := workDir++bytes "/"++r.name

/-- A record in use, of a regular file. -/
def IsFile (r : DirRecord) : Prop := r.ino ≠ 0 ∧ r.type = 8

instance (r : DirRecord) : Decidable r.IsFile := inferInstanceAs (Decidable (_ ∧ _))

@[simp] theorem head_length (r : DirRecord) : r.head.length = 12 := by simp [head]

@[simp] theorem encode_length (r : DirRecord) : r.encode.length = r.size := by
  simp only [encode,size,List.length_append,head_length,List.length_cons]
  omega

end DirRecord

/-- The records of a block, which the buffer holds. -/
structure Block where
  records : List DirRecord
  nonempty : records ≠ []
  fits : (records.map DirRecord.size).sum ≤ 8192

def encodeAll (records : List DirRecord) : Bytes := records.flatMap DirRecord.encode

theorem encodeAll_length (records : List DirRecord) :
    (encodeAll records).length = (records.map DirRecord.size).sum := by
  simp [encodeAll,List.length_flatMap]

end Records

section Encoded

variable {buf before rest : Bytes} {p len : ℕ} {r : DirRecord}

/-- A record of the buffer, with what stands before and behind it. -/
def HoldsAt (buf : Bytes) (p : ℕ) (r : DirRecord) : Prop :=
  ∃ before rest, buf = before++(r.encode++rest) ∧ before.length = p

theorem HoldsAt.window_eq {i n : ℕ} (h : HoldsAt buf p r) (hi : i+n ≤ 12) :
    window buf (p+i) n = window r.head i n := by
  obtain ⟨before,rest,rfl,hp⟩ := h
  rw [window_behind hp,DirRecord.encode,List.append_assoc,window_before (by rwa [r.head_length])]

theorem HoldsAt.ino (h : HoldsAt buf p r) : le (window buf (p+4) 4) = r.ino.toNat := by
  rw [h.window_eq (by decide),DirRecord.head,
    le_window_part (leBytes_length 4 _) r.ino.toNat_lt]

theorem HoldsAt.reclen (h : HoldsAt buf p r) (hsize : r.size < 65536) :
    le (window buf (p+8) 2) = r.size := by
  rw [h.window_eq (by decide),DirRecord.head,← List.append_assoc,
    le_window_part (by simp) hsize]

theorem HoldsAt.type (h : HoldsAt buf p r) : le (window buf (p+10) 1) = r.type.toNat := by
  rw [h.window_eq (by decide),DirRecord.head,← List.append_assoc,← List.append_assoc,
    le_window_part (by simp) r.type.toNat_lt]

theorem HoldsAt.spells (h : HoldsAt buf p r) : Spells (memory buf) (nameAt p) 0 r.name := by
  obtain ⟨before,rest,rfl,rfl⟩ := h
  refine ⟨⟨r.padding++rest,?_⟩,r.nonzero⟩
  change (before++(r.encode++rest)).drop (before.length+12+0) = _
  rw [Nat.add_zero,← List.drop_drop,List.drop_left,DirRecord.encode,List.append_assoc,
    List.drop_left' r.head_length,List.append_assoc]
  rfl

theorem HoldsAt.size_le (h : HoldsAt buf p r) : p+r.size ≤ buf.length := by
  obtain ⟨before,rest,rfl,rfl⟩ := h
  simp only [List.length_append,DirRecord.encode_length]
  omega

/-- The records that the clean-up looks up. -/
def DirRecord.Looked (r : DirRecord) : Prop := r.IsFile ∧ IsTempName r.name

instance (r : DirRecord) : Decidable r.Looked := inferInstanceAs (Decidable (_ ∧ _))

theorem HoldsAt.recordPath_eq (h : HoldsAt buf p r) :
    recordPath buf p r.name = if r.Looked then some r.path else none := by
  have hshort : strlcpy (workDir++bytes "/"++r.name) 1024 = r.path := by
    refine strlcpy_eq_self ?_
    have hname := r.short
    have hdir : (workDir++bytes "/").length = 6 := by decide
    rw [List.length_append,hdir]
    omega
  have hino : le (window buf (p+4) 4) ≠ 0 ↔ r.ino ≠ 0 := by
    rw [h.ino,ne_eq,ne_eq,← UInt32.toNat_inj]
    rfl
  have htype : le (window buf (p+10) 1) = 8 ↔ r.type = 8 := by
    rw [h.type,← UInt8.toNat_inj]
    rfl
  -- A name that starts with `tmp_` is none of the two that are left out.
  have hdots (ht : IsTempName r.name) : r.name ≠ bytes "." ∧ r.name ≠ bytes ".." :=
    ⟨fun heq => absurd (heq ▸ ht) (by decide),fun heq => absurd (heq ▸ ht) (by decide)⟩
  rw [recordPath,hshort]
  refine if_congr ⟨?_,?_⟩ rfl rfl
  · rintro ⟨h0,_,_,h8,ht⟩
    exact ⟨⟨hino.mp h0,htype.mp h8⟩,ht⟩
  · rintro ⟨⟨h0,h8⟩,ht⟩
    exact ⟨hino.mpr h0,(hdots ht).1,(hdots ht).2,htype.mpr h8,ht⟩

theorem HoldsAt.visit_value (h : HoldsAt buf p r) (hlen : len ≤ buf.length)
    (hr : p+r.size ≤ len) (hsize : r.size < 65536) :
    (visit buf len p).value =
      some (some (p+r.size,if r.Looked then some r.path else none)) := by
  have hmin : 12 ≤ r.size := by
    rw [DirRecord.size]
    omega
  have hnext : nextRecord buf len p = some (p+r.size) := by
    rw [nextRecord,h.reclen hsize,if_neg (by omega)]
  rw [DirectoryWalk.visit_value hlen,hnext,tempPathAt_value (by omega) h.spells,h.recordPath_eq]
  rfl

end Encoded

section Sweep

variable {now : ℤ} {stat : ℕ → Bytes → Option ℤ} {w : Cleaned} {records more : List DirRecord}

/-- What the walk does with the records themselves. -/
def sweep (now : ℤ) (stat : ℕ → Bytes → Option ℤ) : List DirRecord → Cleaned → Cleaned
  | [],w => w
  | r::records,w =>
    if r.Looked then
      if (w.lookUp now stat r.path).failed then w.lookUp now stat r.path
      else sweep now stat records (w.lookUp now stat r.path)
    else sweep now stat records w

/-- The walk over encoded records is the sweep over the records. -/
theorem walkLoop_encodeAll {buf before rest : Bytes} {fuel p len : ℕ}
    (hbuf : buf = before++(encodeAll records++rest)) (hp : before.length = p)
    (hlen : len = p+(encodeAll records).length) (hmax : (encodeAll records).length < 65536)
    (hfuel : len-p < fuel) :
    (walkLoop buf now stat len fuel p w).value = some (some (sweep now stat records w)) := by
  have hin : len ≤ buf.length := by
    rw [hbuf,List.length_append,List.length_append]
    omega
  induction records generalizing before fuel p w with
  | nil =>
    obtain ⟨fuel,rfl⟩ := Nat.exists_eq_succ_of_ne_zero (Nat.ne_zero_of_lt hfuel)
    have hend : len < p+12 := by
      rw [hlen]
      simp [encodeAll]
    simp [walkLoop,visit,hend,sweep]
  | cons r records ih =>
    obtain ⟨fuel,rfl⟩ := Nat.exists_eq_succ_of_ne_zero (Nat.ne_zero_of_lt hfuel)
    have hsplit : encodeAll (r::records) = r.encode++encodeAll records := List.flatMap_cons
    have hsize : (encodeAll (r::records)).length = r.size+(encodeAll records).length := by
      rw [hsplit,List.length_append,r.encode_length]
    have hpos : 0 < r.size := by
      rw [DirRecord.size]
      omega
    have hholds : HoldsAt buf p r :=
      ⟨before,encodeAll records++rest,by rw [hbuf,hsplit,List.append_assoc],hp⟩
    have hrest (w : Cleaned) : (walkLoop buf now stat len fuel (p+r.size) w).value =
        some (some (sweep now stat records w)) := by
      refine @ih w (before++r.encode) fuel (p+r.size) ?_ ?_ (by omega) (by omega) (by omega)
      · rw [hbuf,hsplit,List.append_assoc,List.append_assoc]
      · rw [List.length_append,r.encode_length,hp]
    rw [walkLoop,value_bind,hholds.visit_value hin (by omega) (by omega),Option.bind_some,sweep]
    by_cases hlooked : r.Looked
    · rw [if_pos hlooked,if_pos hlooked]
      by_cases hfailed : (w.lookUp now stat r.path).failed = true
      · simp [hfailed]
      · simpa [hfailed] using hrest _
    · rw [if_neg hlooked,if_neg hlooked]
      exact hrest w

/-- The block that the buffer is filled with. -/
def Block.bytes (b : Block) : Bytes := encodeAll b.records

theorem sweep_append (hw : w.failed = false) :
    sweep now stat (records++more) w =
      if (sweep now stat records w).failed then sweep now stat records w
      else sweep now stat more (sweep now stat records w) := by
  induction records generalizing w with
  | nil => simp [sweep,hw]
  | cons r records ih =>
    rw [List.cons_append,sweep,sweep]
    by_cases hlooked : r.Looked
    · rw [if_pos hlooked,if_pos hlooked]
      by_cases hfailed : (w.lookUp now stat r.path).failed = true
      · simp [hfailed]
      · simpa [hfailed] using ih (Bool.eq_false_iff.mpr hfailed)
    · rw [if_neg hlooked,if_neg hlooked]
      exact ih hw

theorem Block.bytes_ne_nil (b : Block) : b.bytes ≠ [] := by
  intro h
  obtain ⟨r,records,hr⟩ := List.exists_cons_of_ne_nil b.nonempty
  have hlength := congrArg List.length h
  rw [Block.bytes,hr,encodeAll_length,List.map_cons,List.sum_cons,DirRecord.size] at hlength
  simp at hlength

/-- The outer loop sweeps over the records of all blocks that it reads. -/
theorem cleanupLoop_blocks (blocks : List Block) (tail : List Dents)
    (htail : tail = [] ∨ ∃ more, tail = .fails::more) (hw : w.failed = false) :
    cleanupLoop now stat (blocks.map (.block ·.bytes)++tail) w =
      some (sweep now stat (blocks.flatMap Block.records) w) := by
  induction blocks generalizing w with
  | nil =>
    rcases htail with rfl | ⟨more,rfl⟩
    · rfl
    · rfl
  | cons b blocks ih =>
    have hmax : (encodeAll b.records).length ≤ 8192 := encodeAll_length b.records ▸ b.fits
    have hwalk : (walk (buffer b.bytes) now stat b.bytes.length w).value =
        some (some (sweep now stat b.records w)) :=
      @walkLoop_encodeAll now stat w b.records _ [] _ _ 0 _ rfl rfl (Nat.zero_add _).symm
        (by omega) (by omega)
    rw [List.map_cons,List.cons_append,cleanupLoop,if_neg b.bytes_ne_nil,hwalk,List.flatMap_cons,
      sweep_append hw]
    by_cases hfailed : (sweep now stat b.records w).failed = true
    · simp [hfailed]
    · simpa [hfailed] using ih (Bool.eq_false_iff.mpr hfailed)

end Sweep

section Exact

variable {now : ℤ} {stat : ℕ → Bytes → Option ℤ} {w : Cleaned} {records : List DirRecord}
  {path q : Bytes} {r : DirRecord}

theorem expired_iff {atime : ℤ} : Expired now atime ↔ atime+cleanupAge ≤ now := by
  unfold Expired cleanupAge
  omega

theorem mem_lookUp_unlinked : q ∈ (w.lookUp now stat path).unlinked ↔
    q ∈ w.unlinked ∨ q = path ∧ ∃ atime, stat w.stats path = some atime ∧ Expired now atime := by
  unfold Cleaned.lookUp
  cases hstat : stat w.stats path with
  | none => simp
  | some atime => by_cases h : Expired now atime <;> simp [h]

/-- Never too early: what the sweep unlinks is an old temporary file. -/
theorem sweep_sound (h : q ∈ (sweep now stat records w).unlinked) : q ∈ w.unlinked ∨
    ∃ r ∈ records, r.Looked ∧ q = r.path ∧
      ∃ k atime, stat k q = some atime ∧ Expired now atime := by
  induction records generalizing w with
  | nil => exact Or.inl h
  | cons r records ih =>
    have hrest {w : Cleaned} (h : q ∈ (sweep now stat records w).unlinked) : q ∈ w.unlinked ∨
        ∃ r' ∈ r::records, r'.Looked ∧ q = r'.path ∧
          ∃ k atime, stat k q = some atime ∧ Expired now atime :=
      (ih h).imp_right fun ⟨r',hr',hfile⟩ => ⟨r',List.mem_cons_of_mem _ hr',hfile⟩
    have hlookUp (hlooked : r.Looked) (h : q ∈ (w.lookUp now stat r.path).unlinked) :
        q ∈ w.unlinked ∨ ∃ r' ∈ r::records, r'.Looked ∧ q = r'.path ∧
          ∃ k atime, stat k q = some atime ∧ Expired now atime := by
      rcases mem_lookUp_unlinked.mp h with h | ⟨rfl,hold⟩
      · exact Or.inl h
      · exact Or.inr ⟨r,List.mem_cons_self,hlooked,rfl,_,hold⟩
    rw [sweep] at h
    split_ifs at h with hlooked hfailed
    · exact hlookUp hlooked h
    · exact (hrest h).elim (hlookUp hlooked) Or.inr
    · exact hrest h

theorem sweep_mono (h : q ∈ w.unlinked) : q ∈ (sweep now stat records w).unlinked := by
  induction records generalizing w with
  | nil => exact h
  | cons r records ih =>
    have hlookUp : q ∈ (w.lookUp now stat r.path).unlinked := mem_lookUp_unlinked.mpr (Or.inl h)
    rw [sweep]
    split_ifs
    · exact hlookUp
    · exact ih hlookUp
    · exact ih h

/-- And none skipped, if every look-up succeeds. -/
theorem sweep_complete {atime : Bytes → ℤ} (hstat : ∀ k path, stat k path = some (atime path))
    (hr : r ∈ records) (hlooked : r.Looked) (hold : Expired now (atime r.path)) :
    r.path ∈ (sweep now stat records w).unlinked := by
  have hfailed (w : Cleaned) (path : Bytes) : (w.lookUp now stat path).failed = false := by
    rw [Cleaned.lookUp,hstat]
  induction records generalizing w with
  | nil => cases hr
  | cons r' records ih =>
    rw [sweep]
    rcases List.mem_cons.mp hr with rfl | hr
    · rw [if_pos hlooked,hfailed]
      exact sweep_mono (mem_lookUp_unlinked.mpr (Or.inr ⟨rfl,_,hstat _ _,hold⟩))
    · split_ifs with _ h
      · rw [hfailed] at h
        cases h
      · exact ih hr
      · exact ih hr

/-- What the reads of a directory give, if the read after this many blocks fails. -/
def dents (blocks : List Block) : Option ℕ → List Dents
  | none => blocks.map (.block ·.bytes)
  | some k => (blocks.take k).map (.block ·.bytes)++[.fails]

/-- What the look-ups give, if these of them succeed. -/
def lookUps (statOk : ℕ → Bool) (atime : Bytes → ℤ) (k : ℕ) (path : Bytes) : Option ℤ :=
  if statOk k then some (atime path) else none

theorem cleanupLoop_dents (blocks : List Block) (failsAt : Option ℕ) :
    ∃ read, cleanupLoop now stat (dents blocks failsAt) ⟨[],0,false⟩ =
        some (sweep now stat read ⟨[],0,false⟩) ∧
      (∀ r ∈ read, r ∈ blocks.flatMap Block.records) ∧
      (failsAt = none → read = blocks.flatMap Block.records) := by
  cases failsAt with
  | none =>
    refine ⟨_,?_,fun _ hr => hr,fun _ => rfl⟩
    have hloop := @cleanupLoop_blocks now stat ⟨[],0,false⟩ blocks [] (Or.inl rfl) rfl
    rwa [List.append_nil] at hloop
  | some k =>
    refine ⟨_,cleanupLoop_blocks (blocks.take k) [.fails] (Or.inr ⟨[],rfl⟩) rfl,?_,nofun⟩
    intro r hr
    obtain ⟨b,hb,hrb⟩ := List.mem_flatMap.mp hr
    exact List.mem_flatMap.mpr ⟨b,List.mem_of_mem_take hb,hrb⟩

/-- The clean-up deletes nothing but regular files of the working directory that have the name of
a temporary file and were last accessed three days ago or earlier.  It deletes all of them if the
clock, the reads and the look-ups succeed. -/
theorem cleanupTempFiles_exact (blocks : List Block) (clock : Option ℤ) (opens : Bool)
    (failsAt : Option ℕ) (statOk : ℕ → Bool) (atime : Bytes → ℤ) :
    ∃ run, cleanupTempFiles ⟨clock,opens,dents blocks failsAt,lookUps statOk atime⟩ = some run ∧
      (∀ path ∈ run.cleaned.unlinked, ∃ now r, clock = some now ∧
        r ∈ blocks.flatMap Block.records ∧ r.IsFile ∧ IsTempName r.name ∧ path = r.path ∧
        atime path+3*24*60*60 ≤ now) ∧
      (∀ now, clock = some now → opens = true → failsAt = none → (∀ k, statOk k = true) →
        ∀ r ∈ blocks.flatMap Block.records, r.IsFile → IsTempName r.name →
          atime r.path+3*24*60*60 ≤ now → r.path ∈ run.cleaned.unlinked) := by
  cases clock with
  | none => exact ⟨_,rfl,(fun _ h => nomatch h),fun _ h => nomatch h⟩
  | some now =>
    cases opens with
    | false => exact ⟨_,rfl,(fun _ h => nomatch h),fun _ _ h => nomatch h⟩
    | true =>
      obtain ⟨read,hloop,hread,hall⟩ := @cleanupLoop_dents now (lookUps statOk atime) blocks failsAt
      refine ⟨⟨sweep now (lookUps statOk atime) read ⟨[],0,false⟩,true⟩,?_,?_,?_⟩
      · simp only [cleanupTempFiles,hloop]
        rfl
      · intro path hpath
        rcases sweep_sound hpath with h | ⟨r,hr,⟨hfile,htemp⟩,rfl,k,t,ht,hold⟩
        · cases h
        · have htime : t = atime r.path := by
            unfold lookUps at ht
            split_ifs at ht
            exact (Option.some.inj ht).symm
          exact ⟨now,r,rfl,hread r hr,hfile,htemp,rfl,expired_iff.mp (htime ▸ hold)⟩
      · intro now' hnow _ hfails hstat r hr hfile htemp hold
        cases hnow
        have hok (k : ℕ) (path : Bytes) : lookUps statOk atime k path = some (atime path) :=
          if_pos (hstat k)
        exact sweep_complete hok (hall hfails ▸ hr) ⟨hfile,htemp⟩ (expired_iff.mpr hold)

/-- The files of an install have the names of temporary files. -/
theorem tempPaths_isTempName (s : StreamId) :
    ∀ path ∈ [(tempPaths s).refPkgJson,(tempPaths s).paramSfo,(tempPaths s).icon0Png],
      ∃ name, IsTempName name ∧ path = workDir++bytes "/"++name := by
  have hpath {extension : Bytes} (hlength : extension.length ≤ 5)
      (hextension : extension = bytes ".json" ∨ extension = bytes ".sfo" ∨
        extension = bytes ".png") :
      ∃ name, IsTempName name ∧ tempPath (tmpName s) extension = workDir++bytes "/"++name := by
    refine ⟨tmpName s++extension,⟨?_,?_⟩,?_⟩
    · rw [TempNames.tmpName_eq,List.append_assoc]
      exact List.prefix_append _ _
    · rcases hextension with rfl | rfl | rfl
      · exact Or.inl (List.suffix_append _ _)
      · exact Or.inr (Or.inl (List.suffix_append _ _))
      · exact Or.inr (Or.inr (List.suffix_append _ _))
    · rw [TempFiles.tempPath_eq (TempFiles.tmpName_length s) hlength,List.append_assoc]
  intro path h
  simp only [List.mem_cons,List.not_mem_nil,or_false] at h
  rcases h with rfl | rfl | rfl
  · exact hpath (by decide) (Or.inl rfl)
  · exact hpath (by decide) (Or.inr (Or.inl rfl))
  · exact hpath (by decide) (Or.inr (Or.inr rfl))

end Exact

end TempCleanup
end RemotePkgInstaller
