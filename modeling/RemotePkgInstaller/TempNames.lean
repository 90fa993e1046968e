import RemotePkgInstaller.InstallPieces
import RemotePkgInstaller.Runs

/-! The names of the temporary files over the life of the server.  A name is the
exclusive-or of the time at which a stream began and the lower half of its address, and
two streams that differ in both may end up with one name. -/
namespace RemotePkgInstaller
namespace TempNames

open InstallPieces Runs Util

/-- The streams that are alive, by how far they have come, and the tasks whose reference
json is still to be fetched, by the stream that registered them. -/
structure Life where
  clock : UInt64
  waiting : List StreamId
  installing : List StreamId
  answered : List StreamId
  tasks : List StreamId
  deriving DecidableEq

def Life.start : Life := ⟨0,[],[],[],[]⟩

def Life.alive (st : Life) : List StreamId := st.waiting++st.installing++st.answered

/-- The streams whose temporary files have to stay. -/
def Life.holders (st : Life) : List StreamId := st.installing++st.tasks

/-- What happens to a stream and to its files. -/
inductive LifeEvent
  | accept (s : StreamId)
  | install (s : StreamId)
  | register (s : StreamId)
  | fetched (s : StreamId)
  | close (s : StreamId)
  deriving DecidableEq

/-- A stream begins no earlier than the ones before it, at an address that no living stream
has, and serves one request. -/
def Possible (st : Life) : LifeEvent → Prop
  | .accept s => st.clock ≤ s.initTime ∧ ∀ s' ∈ st.alive, s'.address ≠ s.address
  | .install s => s ∈ st.waiting
  | .register s => s ∈ st.installing
  | .fetched s => s ∈ st.tasks
  | .close s => s ∈ st.alive

instance (st : Life) (event : LifeEvent) : Decidable (Possible st event) := by
  cases event <;> (delta Possible; infer_instance)

def step (st : Life) : LifeEvent → Life
  | .accept s => { st with clock := s.initTime, waiting := s::st.waiting }
  | .install s => { st with waiting := st.waiting.erase s, installing := s::st.installing }
  | .register s =>
    { st with
      installing := st.installing.erase s
      answered := s::st.answered
      tasks := s::st.tasks }
  | .fetched s => { st with tasks := st.tasks.erase s }
  | .close s =>
    { st with
      waiting := st.waiting.erase s
      installing := st.installing.erase s
      answered := st.answered.erase s }

/-- No two installs whose files have to coexist have one name. -/
def NamesApart (st : Life) : Prop := st.holders.Pairwise fun s s' => tmpName s ≠ tmpName s'

instance (st : Life) : Decidable (NamesApart st) := by
  delta NamesApart
  infer_instance

/-- The bits in which the times differ are not those in which the addresses differ. -/
def Apart (s s' : StreamId) : Prop := s.initTime ^^^ s'.initTime ≠ s.low ^^^ s'.low

instance (s s' : StreamId) : Decidable (Apart s s') := by
  delta Apart
  infer_instance

/-- An install begins apart from every one whose files have to stay. -/
def BeginsApart (st : Life) : LifeEvent → Prop
  | .install s => ∀ s' ∈ st.holders, Apart s s'
  | _ => True

instance (st : Life) (event : LifeEvent) : Decidable (BeginsApart st event) := by
  cases event <;> (delta BeginsApart; infer_instance)

section Names

def lowerHexValue (ds : Bytes) : ℕ := ds.foldl (fun v c => 16*v+hexDigits.idxOf c) 0

theorem idxOf_digitChar : ∀ d < 16, hexDigits.idxOf (UInt8.ofNat (Nat.digitChar d).toNat) = d := by
  decide

theorem lowerHexValue_lowerHexText (n : ℕ) : lowerHexValue (lowerHexText n) = n := by
  induction n using Nat.strongRecOn with
  | ind n ih =>
    by_cases hn : n < 16
    · have hone : lowerHexText n = [UInt8.ofNat (Nat.digitChar n).toNat] := by
        rw [lowerHexText,Nat.toDigits_of_lt_base hn]
        rfl
      rw [hone,lowerHexValue,List.foldl_cons,List.foldl_nil,idxOf_digitChar n hn]
      omega
    · have hmore : lowerHexText n =
          lowerHexText (n/16)++[UInt8.ofNat (Nat.digitChar (n%16)).toNat] := by
        rw [lowerHexText,Nat.toDigits_of_base_le (by norm_num) (not_lt.mp hn),List.map_append]
        rfl
      have hrest := ih (n/16) (by omega)
      rw [lowerHexValue] at hrest
      rw [hmore,lowerHexValue,List.foldl_append,hrest,List.foldl_cons,List.foldl_nil,
        idxOf_digitChar _ (Nat.mod_lt n (by norm_num))]
      omega

theorem lowerHexText_injective : Function.Injective lowerHexText :=
  Function.LeftInverse.injective lowerHexValue_lowerHexText

/-- The name always fits its buffer. -/
theorem tmpName_eq (s : StreamId) :
    tmpName s = bytes "tmp_"++lowerHexText (s.initTime ^^^ s.low).toNat := by
  have hlength : (lowerHexText (s.initTime ^^^ s.low).toNat).length ≤ 16 := by
    rw [lowerHexText,List.length_map]
    exact Nat.toDigits_length 16 _ 16 (by norm_num) (UInt64.toNat_lt _)
  have htmp : (bytes "tmp_").length = 4 := rfl
  apply strlcpy_eq_self
  rw [List.length_append,htmp]
  omega

theorem tmpName_eq_iff (s s' : StreamId) : tmpName s = tmpName s' ↔ ¬ Apart s s' := by
  have hswap : (s.initTime ^^^ s.low) ^^^ (s'.initTime ^^^ s'.low) =
      (s.initTime ^^^ s'.initTime) ^^^ (s.low ^^^ s'.low) := by ac_rfl
  rw [tmpName_eq,tmpName_eq,List.append_cancel_left_eq,lowerHexText_injective.eq_iff,
    UInt64.toNat_inj,Apart,not_not,← UInt64.xor_eq_zero_iff,hswap,UInt64.xor_eq_zero_iff]

end Names

section Life

theorem step_namesApart_iff (st : Life) (event : LifeEvent) (hst : NamesApart st)
    (hpossible : Possible st event) : NamesApart (step st event) ↔ BeginsApart st event := by
  unfold NamesApart at hst ⊢
  cases event with
  | accept s => exact iff_of_true hst trivial
  | install s =>
    have hholders : (step st (.install s)).holders = s::st.holders := rfl
    have happart : ∀ s', tmpName s ≠ tmpName s' ↔ Apart s s' := fun s' =>
      (tmpName_eq_iff s s').not.trans not_not
    rw [hholders,List.pairwise_cons]
    simp only [happart,hst,and_true]
    rfl
  | register s =>
    have hperm : (step st (.register s)).holders.Perm st.holders := by
      have hmove : (st.installing.erase s++s::st.tasks).Perm (s::st.installing.erase s++st.tasks) :=
        List.perm_middle
      exact hmove.trans ((List.perm_cons_erase hpossible).symm.append_right _)
    refine iff_of_true ((hperm.pairwise_iff ?_).mpr hst) trivial
    exact fun h h' => h h'.symm
  | fetched s =>
    have hsublist : (step st (.fetched s)).holders.Sublist st.holders :=
      (List.Sublist.refl _).append List.erase_sublist
    exact iff_of_true (hst.sublist hsublist) trivial
  | close s =>
    have hsublist : (step st (.close s)).holders.Sublist st.holders :=
      List.erase_sublist.append (List.Sublist.refl _)
    exact iff_of_true (hst.sublist hsublist) trivial

def firstStream : StreamId := ⟨0x60000000,0x880012340⟩
def laterStream : StreamId := ⟨0x60000005,0x880012340⟩

/-- Sixteen seconds later, sixteen bytes further. -/
def nextStream : StreamId := ⟨0x60000010,0x880012350⟩

end Life

end TempNames
end RemotePkgInstaller
