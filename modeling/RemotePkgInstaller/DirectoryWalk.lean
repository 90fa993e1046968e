import RemotePkgInstaller.InstallPieces
import RemotePkgInstaller.StringMatchers

/-! The walk over a directory buffer, byte by byte.  The bounds check covers the fixed part and
the length of a record; the comparisons with its name run to a terminator. -/
namespace RemotePkgInstaller
namespace DirectoryWalk

open InstallPieces Looks Looks.Looking StringMatchers

/-- What the walk looks at: the directory buffer and the literals of the source. -/
inductive Place
  | dir
  | literal (s : Bytes)
  deriving DecidableEq

def memory (buf : Bytes) : Place → Bytes
  | .dir => buf
  | .literal s => s++[0]

def literal (s : Bytes) : Pointer Place := ⟨.literal s,0⟩

/-- `d_name` of the record at `p`. -/
def nameAt (p : ℕ) : Pointer Place := ⟨.dir,p+12⟩

variable {buf : Bytes}

/-- A little-endian field of the directory buffer. -/
def field (buf : Bytes) : ℕ → ℕ → Looking (memory buf) ℕ
  | _,0 => pure 0
  | i,n+1 => do
    let b ← look .dir i
    let rest ← field buf (i+1) n
    pure (b.toNat+256*rest)

/-- `strcmp(a, b) == 0`. -/
def sameStringLoop (buf : Bytes) (a b : Pointer Place) : ℕ → ℕ → Looking (memory buf) Bool
  | 0,_ => pure true
  | fuel+1,i => do
    let x ← a.get i
    let y ← b.get i
    if x ≠ y then pure false else if x = 0 then pure true else sameStringLoop buf a b fuel (i+1)

def sameString (buf : Bytes) (a b : Pointer Place) : Looking (memory buf) Bool :=
  sameStringLoop buf a b (a.rounds (memory buf)) 0

/-- The bytes that `%s` copies. -/
def readTextLoop (buf : Bytes) (p : Pointer Place) : ℕ → ℕ → Looking (memory buf) Bytes
  | 0,_ => pure []
  | fuel+1,i => do
    let c ← p.get i
    if c = 0 then pure []
    else
      let s ← readTextLoop buf p fuel (i+1)
      pure (c::s)

def readText (buf : Bytes) (p : Pointer Place) : Looking (memory buf) Bytes :=
  readTextLoop buf p (p.rounds (memory buf)) 0

/-- Whether the name of a record is that of a temporary file. -/
def isTempName (buf : Bytes) (name : Pointer Place) : Looking (memory buf) Bool := do
  let tmp ← startsWith name (literal (bytes "tmp_"))
  if tmp = false then pure false
  else
    let json ← endsWith name (literal (bytes ".json"))
    if json then pure true
    else
      let sfo ← endsWith name (literal (bytes ".sfo"))
      if sfo then pure true else endsWith name (literal (bytes ".png"))

/-- `full_path`, if the record at `p` is one whose file is looked up.  `d_fileno` stands for
`d_ino`, which is the second field. -/
def tempPathAt (buf : Bytes) (p : ℕ) : Looking (memory buf) (Option Bytes) := do
  let fileno ← field buf (p+4) 4
  if fileno = 0 then pure none
  else
    let dot ← sameString buf (nameAt p) (literal (bytes "."))
    if dot then pure none
    else
      let dots ← sameString buf (nameAt p) (literal (bytes ".."))
      if dots then pure none
      else
        let type ← field buf (p+10) 1
        if type ≠ 8 then pure none
        else
          let name ← readText buf (nameAt p)
          let fullPath := strlcpy (workDir++bytes "/"++name) 1024
          let temp ← isTempName buf (nameAt p)
          if temp then pure (some fullPath) else pure none

/-- One round of the loop: the next cursor, and the file that is looked up. -/
def visit (buf : Bytes) (len p : ℕ) : Looking (memory buf) (Option (ℕ × Option Bytes)) :=
  if len < p+12 then pure none
  else do
    let reclen ← field buf (p+8) 2
    if reclen < 12 ∨ len < p+reclen then pure none
    else
      let path ← tempPathAt buf p
      pure (some (p+reclen,path))

/-- Three days, in seconds. -/
def cleanupAge : ℤ := 3*24*60*60

/-- A file that was last accessed at `atime` is old enough.  An access time in the future is not. -/
def Expired (now atime : ℤ) : Prop := atime ≤ now ∧ cleanupAge ≤ now-atime

instance (now atime : ℤ) : Decidable (Expired now atime) := inferInstanceAs (Decidable (_ ∧ _))

/-- What the clean-up has done so far. -/
structure Cleaned where
  unlinked : List Bytes
  stats : ℕ
  failed : Bool
  deriving DecidableEq

/-- One look-up: `stat` is what the system answers to the call of this number. -/
def Cleaned.lookUp (now : ℤ) (stat : ℕ → Bytes → Option ℤ) (path : Bytes) (w : Cleaned) :
    Cleaned :=
  match stat w.stats path with
  | none => ⟨w.unlinked,w.stats+1,true⟩
  | some atime => ⟨if Expired now atime then w.unlinked++[path] else w.unlinked,w.stats+1,false⟩

/-- The inner loop, which a failing look-up leaves at once; nothing if the rounds run out. -/
def walkLoop (buf : Bytes) (now : ℤ) (stat : ℕ → Bytes → Option ℤ) (len : ℕ) :
    ℕ → ℕ → Cleaned → Looking (memory buf) (Option Cleaned)
  | 0,_,_ => pure none
  | fuel+1,p,w => do
    match ← visit buf len p with
    | none => pure (some w)
    | some (next,none) => walkLoop buf now stat len fuel next w
    | some (next,some path) =>
      let w := w.lookUp now stat path
      if w.failed then pure (some w) else walkLoop buf now stat len fuel next w

/-- The walk over the first `len` bytes of the buffer. -/
def walk (buf : Bytes) (now : ℤ) (stat : ℕ → Bytes → Option ℤ) (len : ℕ) (w : Cleaned) :
    Looking (memory buf) (Option Cleaned) :=
  walkLoop buf now stat len (len+1) 0 w

section Names

variable {a b name : Pointer Place} {s t : Bytes} {i n p fuel : ℕ}

theorem field_value (h : i+n ≤ buf.length) :
    (field buf i n).value = some (le (window buf i n)) := by
  induction n generalizing i with
  | zero => simp [field,window,le]
  | succ n ih =>
    have hi : i < buf.length := by omega
    have hwindow : window buf i (n+1) = buf[i]::window buf (i+1) n := by
      rw [window,List.drop_eq_getElem_cons hi]
      rfl
    have hrest : (field buf (i+1) n).value = some (le (window buf (i+1) n)) :=
      ih (by omega)
    simp only [field,value_bind,value_look,value_pure,memory,List.getElem?_eq_getElem hi,
      Option.bind_some,hrest,hwindow,le]

theorem literal_spells (h : (0 : UInt8) ∉ s) : Spells (memory buf) (literal s) 0 s :=
  ⟨⟨[],rfl⟩,h⟩

theorem sameStringLoop_value (hs : Spells (memory buf) a i s) (ht : Spells (memory buf) b i t)
    (hfuel : s.length < fuel) :
    (sameStringLoop buf a b fuel i).value = some (decide (s = t)) := by
  induction s generalizing t fuel i with
  | nil =>
    obtain ⟨fuel,rfl⟩ := Nat.exists_eq_succ_of_ne_zero (Nat.ne_zero_of_lt hfuel)
    cases t with
    | nil => simp [sameStringLoop,Pointer.get,hs.get_nil,ht.get_nil]
    | cons d t => simp [sameStringLoop,Pointer.get,hs.get_nil,ht.get_cons,ht.head_ne.symm]
  | cons c s ih =>
    obtain ⟨fuel,rfl⟩ := Nat.exists_eq_succ_of_ne_zero (Nat.ne_zero_of_lt hfuel)
    cases t with
    | nil => simp [sameStringLoop,Pointer.get,hs.get_cons,ht.get_nil,hs.head_ne]
    | cons d t =>
      by_cases hcd : c = d
      · have hrest := ih hs.tail ht.tail (Nat.lt_of_succ_lt_succ hfuel)
        simp [sameStringLoop,Pointer.get,hs.get_cons,ht.get_cons,hcd,ht.head_ne,hrest]
      · simp [sameStringLoop,Pointer.get,hs.get_cons,ht.get_cons,hcd]

theorem sameString_value (hs : Spells (memory buf) a 0 s) (ht : Spells (memory buf) b 0 t) :
    (sameString buf a b).value = some (decide (s = t)) :=
  sameStringLoop_value hs ht hs.lt_rounds

theorem readTextLoop_value (hs : Spells (memory buf) name i s) (hfuel : s.length < fuel) :
    (readTextLoop buf name fuel i).value = some s := by
  induction s generalizing fuel i with
  | nil =>
    obtain ⟨fuel,rfl⟩ := Nat.exists_eq_succ_of_ne_zero (Nat.ne_zero_of_lt hfuel)
    simp [readTextLoop,Pointer.get,hs.get_nil]
  | cons c s ih =>
    obtain ⟨fuel,rfl⟩ := Nat.exists_eq_succ_of_ne_zero (Nat.ne_zero_of_lt hfuel)
    have hrest := ih hs.tail (Nat.lt_of_succ_lt_succ hfuel)
    simp [readTextLoop,Pointer.get,hs.get_cons,hs.head_ne,hrest]

theorem readText_value (hs : Spells (memory buf) name 0 s) :
    (readText buf name).value = some s :=
  readTextLoop_value hs hs.lt_rounds

/-- The names that the clean-up looks for. -/
def IsTempName (s : Bytes) : Prop :=
  bytes "tmp_" <+: s ∧ (bytes ".json" <:+ s ∨ bytes ".sfo" <:+ s ∨ bytes ".png" <:+ s)

instance (s : Bytes) : Decidable (IsTempName s) := inferInstanceAs (Decidable (_ ∧ _))

theorem isTempName_value (hs : Spells (memory buf) name 0 s) :
    (isTempName buf name).value = some (decide (IsTempName s)) := by
  have hends (t : Bytes) (ht : (0 : UInt8) ∉ t) :
      (endsWith name (literal t) : Looking (memory buf) Bool).value = some (decide (t <:+ s)) := by
    have := (endsWithBy_gives id hs (literal_spells ht)).value
    rwa [List.map_id,List.map_id] at this
  have htmp : Spells (memory buf) (literal (bytes "tmp_")) 0 (bytes "tmp_") :=
    literal_spells (by decide)
  have hstarts := (startsWith_gives hs htmp).value
  have hstart : Util.startsWith s (bytes "tmp_") = decide (bytes "tmp_" <+: s) := by
    rw [Bool.eq_iff_iff,Util.startsWith_iff,decide_eq_true_iff]
  rw [isTempName,value_bind,hstarts,hstart,Option.bind_some]
  have hjson := hends (bytes ".json") (by decide)
  have hsfo := hends (bytes ".sfo") (by decide)
  have hpng := hends (bytes ".png") (by decide)
  by_cases htmp : bytes "tmp_" <+: s
  · by_cases isJson : bytes ".json" <:+ s
    · simp [htmp,hjson,isJson,IsTempName]
    · by_cases isSfo : bytes ".sfo" <:+ s
      · simp [htmp,hjson,isJson,hsfo,isSfo,IsTempName]
      · simp [htmp,hjson,isJson,hsfo,isSfo,hpng,IsTempName]
  · simp [htmp,IsTempName]

end Names

section Records

variable {a b : Pointer Place} {s t : Bytes} {i p q len fuel : ℕ}

/-- The comparison of a string without a terminator ends inside its buffer unless the other
string goes on as long as that buffer. -/
theorem sameStringLoop_unterminated (hs : RunsOut (memory buf) a i s)
    (ht : Spells (memory buf) b i t) (hfuel : s.length < fuel) :
    (sameStringLoop buf a b fuel i).value =
      if s <+: t then none else some false := by
  induction s generalizing t fuel i with
  | nil =>
    obtain ⟨fuel,rfl⟩ := Nat.exists_eq_succ_of_ne_zero (Nat.ne_zero_of_lt hfuel)
    simp [sameStringLoop,Pointer.get,hs.get_nil]
  | cons c s ih =>
    obtain ⟨fuel,rfl⟩ := Nat.exists_eq_succ_of_ne_zero (Nat.ne_zero_of_lt hfuel)
    cases t with
    | nil => simp [sameStringLoop,Pointer.get,hs.get_cons,ht.get_nil,hs.head_ne]
    | cons d t =>
      by_cases hcd : c = d
      · have hrest := ih hs.tail ht.tail (Nat.lt_of_succ_lt_succ hfuel)
        simp [sameStringLoop,Pointer.get,hs.get_cons,ht.get_cons,hcd,ht.head_ne,hrest]
      · simp [sameStringLoop,Pointer.get,hs.get_cons,ht.get_cons,hcd]

theorem readTextLoop_unterminated (hs : RunsOut (memory buf) a i s) (hfuel : s.length < fuel) :
    (readTextLoop buf a fuel i).value = none := by
  induction s generalizing fuel i with
  | nil =>
    obtain ⟨fuel,rfl⟩ := Nat.exists_eq_succ_of_ne_zero (Nat.ne_zero_of_lt hfuel)
    simp [readTextLoop,Pointer.get,hs.get_nil]
  | cons c s ih =>
    obtain ⟨fuel,rfl⟩ := Nat.exists_eq_succ_of_ne_zero (Nat.ne_zero_of_lt hfuel)
    have hrest := ih hs.tail (Nat.lt_of_succ_lt_succ hfuel)
    simp [readTextLoop,Pointer.get,hs.get_cons,hs.head_ne,hrest]

theorem readText_unterminated (ha : ¬ Terminated (memory buf) a) :
    (readText buf a).value = none :=
  readTextLoop_unterminated (runsOut_of_not_terminated ha)
    (runsOut_of_not_terminated ha).lt_rounds

/-- The comparisons with the name of the record at `q` end inside the buffer. -/
def RecordInside (buf : Bytes) (q : ℕ) : Prop :=
  le (window buf (q+4) 4) = 0 ∨
    buf.drop (q+12) ≠ [] ∧ buf.drop (q+12) ≠ bytes "." ∧ buf.drop (q+12) ≠ bytes ".." ∧
      (le (window buf (q+10) 1) = 8 → 0 ∈ buf.drop (q+12))

instance (q : ℕ) : Decidable (RecordInside buf q) := inferInstanceAs (Decidable (_ ∨ _))

/-- What a record with a terminated name is looked up as. -/
def recordPath (buf : Bytes) (q : ℕ) (name : Bytes) : Option Bytes :=
  if le (window buf (q+4) 4) ≠ 0 ∧ name ≠ bytes "." ∧ name ≠ bytes ".." ∧
      le (window buf (q+10) 1) = 8 ∧ IsTempName name then
    some (strlcpy (workDir++bytes "/"++name) 1024)
  else none

theorem tempPathAt_value (hq : q+12 ≤ buf.length) (hs : Spells (memory buf) (nameAt q) 0 s) :
    (tempPathAt buf q).value = some (recordPath buf q s) := by
  have hdot := sameString_value hs (literal_spells (show (0 : UInt8) ∉ bytes "." by decide))
  have hdots := sameString_value hs (literal_spells (show (0 : UInt8) ∉ bytes ".." by decide))
  have htype : (field buf (q+10) 1).value = some (le (window buf (q+10) 1)) :=
    field_value (by omega)
  rw [tempPathAt,value_bind,field_value (by omega),Option.bind_some,recordPath]
  by_cases hino : le (window buf (q+4) 4) = 0
  · simp [hino]
  by_cases h1 : s = bytes "."
  · simp [hino,hdot,h1]
  rw [decide_eq_false h1] at hdot
  by_cases h2 : s = bytes ".."
  · simp [hino,hdot,hdots,h2]
  rw [decide_eq_false h2] at hdots
  by_cases h8 : le (window buf (q+10) 1) = 8
  · by_cases htemp : IsTempName s
    · simp [hino,hdot,h1,hdots,h2,htype,h8,readText_value hs,isTempName_value hs,htemp]
    · simp [hino,hdot,hdots,htype,h8,readText_value hs,isTempName_value hs,htemp]
  · simp [hino,hdot,hdots,htype,h8]

/-- Without a terminator the comparisons leave the buffer exactly if the name goes on to its end
in `.` or `..`, or is copied. -/
theorem tempPathAt_unterminated (hq : q+12 ≤ buf.length) (hname : 0 ∉ buf.drop (q+12)) :
    (tempPathAt buf q).value = if RecordInside buf q then some none else none := by
  have hloop {t : Bytes} (ht : (0 : UInt8) ∉ t) :
      (sameString buf (nameAt q) (literal t)).value =
        if buf.drop (q+12) <+: t then none else some false := by
    have hout : RunsOut (memory buf) (nameAt q) 0 (buf.drop (q+12)) := ⟨rfl,hname⟩
    exact sameStringLoop_unterminated hout (literal_spells ht) hout.lt_rounds
  have hread := readText_unterminated (a := nameAt q) hname
  have htype : (field buf (q+10) 1).value = some (le (window buf (q+10) 1)) :=
    field_value (by omega)
  have hdot : buf.drop (q+12) <+: bytes "." ↔ buf.drop (q+12) = [] ∨
      buf.drop (q+12) = bytes "." := by
    rw [show bytes "." = [0x2e] by decide,List.prefix_cons_iff]
    simp
  have hdots : buf.drop (q+12) <+: bytes ".." ↔ buf.drop (q+12) = [] ∨
      buf.drop (q+12) = bytes "." ∨ buf.drop (q+12) = bytes ".." := by
    rw [show bytes "." = [0x2e] by decide,show bytes ".." = [0x2e,0x2e] by decide,
      List.prefix_cons_iff]
    simp only [List.prefix_cons_iff,List.prefix_nil]
    aesop
  have hfirst := hloop (show (0 : UInt8) ∉ bytes "." by decide)
  have hsecond := hloop (show (0 : UInt8) ∉ bytes ".." by decide)
  rw [tempPathAt,value_bind,field_value (by omega),Option.bind_some]
  by_cases hino : le (window buf (q+4) 4) = 0
  · simp [hino,RecordInside]
  by_cases h1 : buf.drop (q+12) <+: bytes "."
  · have hnot : ¬ RecordInside buf q := by
      rintro (h | ⟨h,h',_⟩)
      · exact hino h
      · exact (hdot.mp h1).elim h h'
    simp [hino,hfirst,h1,hnot]
  rw [if_neg h1] at hfirst
  by_cases h2 : buf.drop (q+12) <+: bytes ".."
  · have hnot : ¬ RecordInside buf q := by
      rintro (h | ⟨h,h',h'',_⟩)
      · exact hino h
      · exact (hdots.mp h2).elim h fun h => h.elim h' h''
    simp [hino,hfirst,hsecond,h2,hnot]
  rw [if_neg h2] at hsecond
  -- Neither comparison leaves the buffer, and only the name of a regular file is copied.
  have hfinal : RecordInside buf q ↔ le (window buf (q+10) 1) ≠ 8 := by
    rw [hdots,not_or,not_or] at h2
    refine ⟨?_,fun h8 => Or.inr ⟨h2.1,h2.2.1,h2.2.2,fun h => absurd h h8⟩⟩
    rintro (h | ⟨_,_,_,h⟩) h8
    · exact hino h
    · exact hname (h h8)
  simp only [hfinal]
  by_cases h8 : le (window buf (q+10) 1) = 8
  · simp [hino,hfirst,hsecond,htype,h8,hread]
  · simp [hino,hfirst,hsecond,htype,h8]

theorem recordInside_of_terminated (h : 0 ∈ buf.drop (q+12)) : RecordInside buf q := by
  refine Or.inr ⟨List.ne_nil_of_mem h,?_,?_,fun _ => h⟩
  · intro heq
    exact absurd (heq ▸ h) (by decide)
  · intro heq
    exact absurd (heq ▸ h) (by decide)

theorem tempPathAt_isSome (hq : q+12 ≤ buf.length) :
    (tempPathAt buf q).value.isSome = true ↔ RecordInside buf q := by
  by_cases hname : 0 ∈ buf.drop (q+12)
  · have hterminated : Terminated (memory buf) (nameAt q) := hname
    rw [tempPathAt_value hq hterminated.spells]
    exact iff_of_true rfl (recordInside_of_terminated hname)
  · rw [tempPathAt_unterminated hq hname]
    split_ifs with h
    · exact iff_of_true rfl h
    · exact iff_of_false (by simp) h

/-- The record after the one at `p`, if that one passes the checks. -/
def nextRecord (buf : Bytes) (len p : ℕ) : Option ℕ :=
  if len < p+12 ∨ le (window buf (p+8) 2) < 12 ∨ len < p+le (window buf (p+8) 2) then none
  else some (p+le (window buf (p+8) 2))

theorem nextRecord_some (h : nextRecord buf len p = some q) : p+12 ≤ len ∧ p < q ∧ q ≤ len := by
  rw [nextRecord] at h
  split_ifs at h
  cases h
  omega

theorem visit_value (hlen : len ≤ buf.length) :
    (visit buf len p).value =
      match nextRecord buf len p with
      | none => some none
      | some q => (tempPathAt buf p).value.map
        fun path => some (q,path) := by
  rw [visit,nextRecord]
  by_cases hp : len < p+12
  · simp [hp]
  rw [if_neg hp,value_bind,field_value (by omega),Option.bind_some]
  by_cases hreclen : le (window buf (p+8) 2) < 12 ∨ len < p+le (window buf (p+8) 2)
  · simp [hp,hreclen]
  · simp only [hp,hreclen,if_false,or_self,value_bind,value_pure]
    rw [Option.map_eq_bind]
    rfl

end Records

section Literals

variable {s t : Bytes} {i n p len fuel : ℕ}

/-- A literal is looked at up to its terminator. -/
def Held (e : Place × ℕ) : Prop :=
  match e.1 with
  | .dir => True
  | .literal s => e.2 ≤ s.length

theorem held_upTo {m n : ℕ} {e : Place × ℕ} (h : UpToEnds (nameAt p) (literal t) m n e)
    (hn : n ≤ t.length) : Held e := by
  obtain ⟨place,j⟩ := e
  rcases h with ⟨rfl,_⟩ | ⟨rfl,_,hle⟩
  · trivial
  · change j ≤ 0+n at hle
    change j ≤ t.length
    omega

theorem field_examines : Examines Held (field buf i n) := by
  induction n generalizing i with
  | zero => exact examines_pure _
  | succ n ih => exact (examines_look trivial).bind fun _ _ => ih.bind fun _ _ => examines_pure _

theorem sameStringLoop_examines (hi : i ≤ s.length) :
    Examines Held (sameStringLoop buf (nameAt p) (literal s) fuel i) := by
  induction fuel generalizing i with
  | zero => exact examines_pure _
  | succ fuel ih =>
    refine (examines_look trivial).bind fun x _ => (examines_look ?_).bind fun y hy => ?_
    · change 0+i ≤ s.length
      omega
    split_ifs with hne h0
    · exact examines_pure _
    · exact examines_pure _
    · -- The literal did not end here, so there is another byte of it.
      refine ih (Nat.lt_of_le_of_ne hi ?_)
      rintro rfl
      have hend : y = 0 := by simpa [literal,memory] using hy.symm
      exact h0 (not_not.mp hne ▸ hend)

theorem readTextLoop_examines :
    Examines Held (readTextLoop buf (nameAt p) fuel i) := by
  induction fuel generalizing i with
  | zero => exact examines_pure _
  | succ fuel ih =>
    refine (examines_look trivial).bind fun c _ => ?_
    split_ifs
    · exact examines_pure _
    · exact ih.bind fun _ _ => examines_pure _

theorem isTempName_examines (hs : Spells (memory buf) (nameAt p) 0 s) :
    Examines Held (isTempName buf (nameAt p)) := by
  have hends (t : Bytes) (ht : (0 : UInt8) ∉ t) :
      Examines Held (endsWith (nameAt p) (literal t) : Looking (memory buf) Bool) := fun e he =>
    held_upTo ((endsWithBy_gives id hs (literal_spells ht)).examined e he) le_rfl
  have hstarts : Examines Held
      (startsWith (nameAt p) (literal (bytes "tmp_")) : Looking (memory buf) Bool) := fun e he =>
    held_upTo ((startsWith_gives hs (literal_spells (by decide))).examined e he) le_rfl
  refine hstarts.bind fun tmp _ => ?_
  split_ifs
  · exact examines_pure _
  refine (hends _ (by decide)).bind fun json _ => ?_
  split_ifs
  · exact examines_pure _
  refine (hends _ (by decide)).bind fun sfo _ => ?_
  split_ifs
  · exact examines_pure _
  · exact hends _ (by decide)

theorem tempPathAt_examines : Examines Held (tempPathAt buf p) := by
  refine field_examines.bind fun fileno _ => ?_
  split_ifs
  · exact examines_pure _
  refine (sameStringLoop_examines (Nat.zero_le _)).bind fun dot _ => ?_
  split_ifs
  · exact examines_pure _
  refine (sameStringLoop_examines (Nat.zero_le _)).bind fun dots _ => ?_
  split_ifs
  · exact examines_pure _
  refine field_examines.bind fun type _ => ?_
  split_ifs
  · exact examines_pure _
  refine readTextLoop_examines.bind fun name hname => ?_
  have hterminated : Terminated (memory buf) (nameAt p) := by
    by_contra hnot
    cases (readText_unterminated hnot).symm.trans hname
  refine (isTempName_examines hterminated.spells).bind fun temp _ => ?_
  split_ifs
  · exact examines_pure _
  · exact examines_pure _

theorem visit_examines : Examines Held (visit buf len p) := by
  rw [visit]
  split_ifs
  · exact examines_pure _
  refine field_examines.bind fun reclen _ => ?_
  split_ifs
  · exact examines_pure _
  · exact tempPathAt_examines.bind fun path _ => examines_pure _

theorem walkLoop_examines {now : ℤ} {stat : ℕ → Bytes → Option ℤ} {w : Cleaned} :
    Examines Held (walkLoop buf now stat len fuel p w) := by
  induction fuel generalizing p w with
  | zero => exact examines_pure _
  | succ fuel ih =>
    refine visit_examines.bind fun visited _ => ?_
    match visited with
    | none => exact examines_pure _
    | some (next,none) => exact ih
    | some (next,some path) =>
      by_cases hfailed : (w.lookUp now stat path).failed = true
      · simp only [hfailed]
        exact examines_pure _
      · simp only [hfailed]
        exact ih

end Literals

section Walks

variable {now : ℤ} {stat : ℕ → Bytes → Option ℤ} {w : Cleaned} {len p q r fuel : ℕ}

/-- The records that the walk comes to from `p`, each of which passes the checks. -/
inductive Visits (buf : Bytes) (len : ℕ) : ℕ → ℕ → Prop
  | here {p q : ℕ} (h : nextRecord buf len p = some q) : Visits buf len p p
  | later {p q r : ℕ} (h : nextRecord buf len p = some q) (hr : Visits buf len q r) :
      Visits buf len p r

theorem walkLoop_ends (hlen : len ≤ buf.length) (hfuel : len-p < fuel) :
    (walkLoop buf now stat len fuel p w).value ≠ some none := by
  induction fuel generalizing p w with
  | zero => omega
  | succ fuel ih =>
    rw [walkLoop,value_bind,visit_value hlen]
    cases hnext : nextRecord buf len p with
    | none => simp
    | some q =>
      obtain ⟨_,hpq,hq⟩ := nextRecord_some hnext
      have hrest : len-q < fuel := by omega
      cases (tempPathAt buf p).value with
      | none => simp
      | some path =>
        cases path with
        | none => exact ih hrest
        | some path =>
          by_cases hfailed : (w.lookUp now stat path).failed = true
          · simp [hfailed]
          · simpa [hfailed] using ih hrest

/-- Each record that the walk comes to decides whether the walk goes on inside the buffer. -/
theorem walkLoop_isSome (hlen : len ≤ buf.length)
    (h : ∀ q, Visits buf len p q → RecordInside buf q) :
    (walkLoop buf now stat len fuel p w).value.isSome = true := by
  induction fuel generalizing p w with
  | zero => rfl
  | succ fuel ih =>
    rw [walkLoop,value_bind,visit_value hlen]
    cases hnext : nextRecord buf len p with
    | none => rfl
    | some q =>
      obtain ⟨hp,_,_⟩ := nextRecord_some hnext
      have hrest : ∀ r, Visits buf len q r → RecordInside buf r := fun r hr => h r (.later hnext hr)
      obtain ⟨path,hpath⟩ := Option.isSome_iff_exists.mp
        ((tempPathAt_isSome (hp.trans hlen)).mpr (h p (.here hnext)))
      rw [hpath]
      cases path with
      | none => exact ih hrest
      | some path =>
        by_cases hfailed : (w.lookUp now stat path).failed = true
        · simp [hfailed]
        · simpa [hfailed] using ih hrest

/-- If no look-up fails, the walk comes to every record. -/
theorem recordInside_of_walkLoop (hlen : len ≤ buf.length) (hfuel : len-p < fuel)
    (hstat : ∀ k path, (stat k path).isSome = true)
    (hvalue : (walkLoop buf now stat len fuel p w).value.isSome = true)
    (hq : Visits buf len p q) : RecordInside buf q := by
  induction hq generalizing fuel w with
  | @here p q hnext =>
    obtain ⟨fuel,rfl⟩ := Nat.exists_eq_succ_of_ne_zero (Nat.ne_zero_of_lt hfuel)
    obtain ⟨hp,_,_⟩ := nextRecord_some hnext
    rw [walkLoop,value_bind,visit_value hlen,hnext] at hvalue
    refine (tempPathAt_isSome (hp.trans hlen)).mp ?_
    cases hpath : (tempPathAt buf p).value with
    | none => simp [hpath] at hvalue
    | some path => rfl
  | @later p q r hnext _ ih =>
    obtain ⟨fuel,rfl⟩ := Nat.exists_eq_succ_of_ne_zero (Nat.ne_zero_of_lt hfuel)
    obtain ⟨hp,hpq,hq⟩ := nextRecord_some hnext
    rw [walkLoop,value_bind,visit_value hlen,hnext] at hvalue
    cases hpath : (tempPathAt buf p).value with
    | none => simp [hpath] at hvalue
    | some path =>
      rw [hpath] at hvalue
      cases path with
      | none => exact ih (by omega) hvalue
      | some path =>
        obtain ⟨atime,hatime⟩ := Option.isSome_iff_exists.mp (hstat w.stats path)
        refine @ih (w.lookUp now stat path) fuel (by omega) ?_
        simpa [Cleaned.lookUp,hatime] using hvalue

theorem visit_forward (hlen : len ≤ buf.length) {path : Option Bytes}
    (h : (visit buf len p).value = some (some (q,path))) : p < q ∧ q ≤ len := by
  rw [visit_value hlen] at h
  cases hnext : nextRecord buf len p with
  | none => simp [hnext] at h
  | some r =>
    simp only [hnext,Option.map_eq_some_iff,Option.some.injEq,Prod.mk.injEq] at h
    obtain ⟨_,_,rfl,_⟩ := h
    exact (nextRecord_some hnext).2

/-- The walk over the first `len` bytes of a buffer is safe, whatever the look-ups give. -/
structure WalkSafe (buf : Bytes) (len : ℕ) : Prop where
  ends : ∀ now stat w, (walk buf now stat len w).value ≠ some none
  forward : ∀ p q path,
    (visit buf len p).value = some (some (q,path)) → p < q ∧ q ≤ len
  inside : ∀ now stat w i,
    (.dir,i) ∈ (walk buf now stat len w).examined → i < buf.length

theorem WalkSafe.recordInside (hsafe : WalkSafe buf len) (hlen : len ≤ buf.length)
    (hq : Visits buf len 0 q) : RecordInside buf q := by
  have hvalue : (walk buf 0 (fun _ _ => some 0) len ⟨[],0,false⟩).value.isSome = true := by
    refine (Looking.inside _).mpr fun ⟨place,i⟩ he => ?_
    cases place with
    | dir => exact hsafe.inside _ _ _ i he
    | literal s =>
      have hle : i ≤ s.length := walkLoop_examines _ he
      simpa [memory] using Nat.lt_succ_of_le hle
  exact recordInside_of_walkLoop hlen (by omega) (fun _ _ => rfl) hvalue hq

theorem walkSafe_of_recordInside (hlen : len ≤ buf.length)
    (h : ∀ q, Visits buf len 0 q → RecordInside buf q) : WalkSafe buf len where
  ends := fun _ _ _ => walkLoop_ends hlen (by omega)
  forward := fun _ _ _ => visit_forward hlen
  inside := fun _ _ _ _ hi => (Looking.inside _).mp (walkLoop_isSome hlen h) _ hi

/-- The walk ends and moves forward on any buffer.  It stays inside exactly if the comparisons
with every name that it comes to do. -/
theorem walkSafe_iff (buf : Bytes) (len : ℕ) (hlen : len ≤ buf.length) :
    WalkSafe buf len ↔ ∀ q, Visits buf len 0 q → RecordInside buf q :=
  ⟨fun hsafe _ => hsafe.recordInside hlen,walkSafe_of_recordInside hlen⟩

theorem walkSafe_iff_zeros : WalkSafe (List.replicate 8192 0) 8192 ↔
    ∀ q, Visits (List.replicate 8192 0) 8192 0 q → RecordInside (List.replicate 8192 0) q :=
  walkSafe_iff (List.replicate 8192 0) 8192 List.length_replicate.ge

/-- One record that fills the buffer: a regular file whose name has no terminator. -/
def unterminatedRecord : Bytes := [0,0,0,0,1,0,0,0,0,0x20,8,255]++List.replicate 8180 0x61

theorem walk_leaves_buffer :
    ¬ ∀ (buf : Bytes) (len : ℕ), buf.length = 8192 → len ≤ 8192 → WalkSafe buf len := by
  intro h
  have hlength : unterminatedRecord.length = 8192 := by
    rw [unterminatedRecord,List.length_append,List.length_replicate]
    rfl
  have hvisit : Visits unterminatedRecord 8192 0 0 := .here rfl
  have hname : unterminatedRecord.drop 12 = List.replicate 8180 0x61 := rfl
  rcases (h unterminatedRecord 8192 hlength le_rfl).recordInside hlength.ge hvisit with
    hino | ⟨_,_,_,hzero⟩
  · exact absurd hino (by decide)
  · have hmem := hzero rfl
    rw [hname,List.mem_replicate] at hmem
    exact absurd hmem.2 (by decide)

end Walks

end DirectoryWalk
end RemotePkgInstaller
