import RemotePkgInstaller.SbBuffers

/-! `sb_buffer_vwritef`: format strings, and that one made of plain text and conversions pushes the
text of its pieces, or nothing at all. -/
namespace RemotePkgInstaller
namespace FormatStrings

open SbBuffers SendStream

/-- The types that `va_arg` is asked for. -/
inductive ArgType
  | int | long | double | longDouble | pointer
  deriving DecidableEq

/-- An argument: a string, or a value that is left to `sprintf`. -/
inductive Arg
  | str (s : Option Bytes)
  | value (type : ArgType) (bits : ℤ)
  deriving DecidableEq

def isalpha (c : UInt8) : Bool := (0x41 ≤ c && c ≤ 0x5a) || (0x61 ≤ c && c ≤ 0x7a)

/-- The argument that a conversion takes, in the cases of the inner `switch`. -/
def argType (c : UInt8) (longMode : Bool) : Option ArgType :=
  if c ∈ bytes "fg" then some (if longMode then .longDouble else .double)
  else if c ∈ bytes "cdiuxX" then some (if longMode then .long else .int)
  else if c = 0x70 then some .pointer
  else none

/-- What `fbuf` and `lbuf` have room for. -/
def fbufSize : ℕ := 64
def lbufSize : ℕ := 512

/-- A format in pieces. -/
inductive Piece
  | text (t : Bytes)
  | str
  | percent
  | value (flags : Bytes) (ls : ℕ) (c : UInt8)

def Piece.fmt : Piece → Bytes
  | text t => t
  | str => [0x25,0x73]
  | percent => [0x25,0x25]
  | value flags ls c => 0x25::flags++List.replicate ls 0x6c++[c]

/-- Plain text has no `%` in it, and a conversion is one of those known, with the flags that
`fbuf` has room for. -/
def Piece.Ok : Piece → Prop
  | text t => ∀ c ∈ t, c ≠ 0x25
  | value flags ls c =>
    (∀ c ∈ flags, ¬ isalpha c ∧ c ≠ 0x25) ∧ (argType c (0 < ls)).isSome ∧
      flags.length+ls+2 < fbufSize
  | _ => True

instance Piece.decidableOk : (p : Piece) → Decidable p.Ok
  | text t => List.decidableBAll (fun c => c ≠ 0x25) t
  | str => isTrue trivial
  | percent => isTrue trivial
  | value flags ls c =>
    have := List.decidableBAll (fun c => ¬ isalpha c ∧ c ≠ 0x25) flags
    inferInstanceAs (Decidable ((∀ c ∈ flags, ¬ isalpha c ∧ c ≠ 0x25) ∧
      (argType c (0 < ls)).isSome ∧ flags.length+ls+2 < fbufSize))

section Writing

-- `sprintf` of the C library: the text of a value under a conversion.
variable (sprintf : Bytes → ℤ → Bytes)

/-- One conversion behind its `%`: the text, the rest of the format and of the arguments.  There
is none where the language does not say what happens: if an argument is missing or of another
type, if the format ends inside of the conversion, or if one of the two arrays overflows.
`long_mode` is always false again behind a conversion. -/
def convert (fmt : Bytes) (args : List Arg) : Option (Bytes × Bytes × List Arg) :=
  match fmt with
  | 0x73::fmt =>
    match args with
    | .str s::args => some (s.getD (bytes "(null)"),fmt,args)
    | _ => none
  | fmt =>
    let flags := fmt.takeWhile fun c => ¬ isalpha c ∧ c ≠ 0x25
    let rest := fmt.dropWhile fun c => ¬ isalpha c ∧ c ≠ 0x25
    let ls := rest.takeWhile (· = 0x6c)
    match rest.dropWhile (· = 0x6c) with
    | [] => none
    | c::fmt =>
      let fbuf := 0x25::flags++ls++[c]
      if fbufSize ≤ fbuf.length then none
      else
        match argType c (ls ≠ []) with
        | none => some ([c],fmt,args)
        | some type =>
          match args with
          | .value type' bits::args =>
            if type' = type ∧ (sprintf fbuf bits).length < lbufSize then
              some (cstr (sprintf fbuf bits),fmt,args)
            else none
          | _ => none

variable (results : Reallocs)

/-- The loop of `sb_buffer_vwritef`; `fuel` bounds its rounds. -/
def writeLoop : ℕ → SbBuffer → Bytes → List Arg → Option (SbResult × SbBuffer)
  | _,b,[],_ => some (.success,b)
  | 0,_,_::_,_ => none
  | fuel+1,b,0x25::fmt,args =>
    match convert sprintf fmt args with
    | none => none
    | some (text,fmt,args) =>
      let pushed := sbBufferPushStr results b text
      if pushed.1 = .success then writeLoop fuel pushed.2 fmt args else some pushed
  | fuel+1,b,c::fmt,args =>
    let pushed := sbBufferPushChar results b c
    if pushed.1 = .success then writeLoop fuel pushed.2 fmt args else some pushed

variable {sprintf results} {b : SbBuffer} {more text fmt : Bytes} {args : List Arg}

/-- Whatever the format, the loop only ever adds to the buffer. -/
theorem writeLoop_pushes {fuel : ℕ} {r : SbResult × SbBuffer}
    (h : writeLoop sprintf results fuel b fmt args = some r) :
    ∃ text, Pushes results b text r := by
  induction fuel generalizing b fmt args with
  | zero =>
    cases fmt with
    | nil =>
      cases h
      exact ⟨[],pushes_nil⟩
    | cons c fmt => cases h
  | succ fuel ih =>
    have hnext : ∀ {more fmt args} {pushed : SbResult × SbBuffer}, Pushes results b more pushed →
        (if pushed.1 = .success then writeLoop sprintf results fuel pushed.2 fmt args
          else some pushed) = some r → ∃ text, Pushes results b text r := by
      intro more fmt args pushed hpushed hrest
      split_ifs at hrest with hs
      · obtain ⟨text,htext⟩ := ih hrest
        have hboth := hpushed.andThen fun _ => htext
        rw [if_pos hs] at hboth
        exact ⟨_,hboth⟩
      · cases hrest
        exact ⟨more,hpushed⟩
    unfold writeLoop at h
    split at h
    · cases h
      exact ⟨[],pushes_nil⟩
    · next hfuel => cases hfuel
    · next hfuel =>
      cases hfuel
      split at h
      · cases h
      · exact hnext ((pushStr_does _).pushes) h
    · next hfuel =>
      cases hfuel
      exact hnext ((pushChar_does _).pushes) h

variable (sprintf results)

def sbBufferVwritef (b : SbBuffer) (fmt : Bytes) (args : List Arg) : Option (SbResult × SbBuffer) :=
  match h : writeLoop sprintf results fmt.length b fmt args with
  | none => none
  | some r =>
    if r.1 = .success then some r
    else
      have hle : b.len ≤ r.2.cap := (writeLoop_pushes h).elim fun _ hp => hp.len_le_cap
      some (r.1,r.2.setLen b.len hle)

/-- What the pieces make of the arguments. -/
def render : List Piece → List Arg → Option Bytes
  | [],_ => some []
  | .text t::pieces,args => (render pieces args).map (t++·)
  | .str::pieces,.str s::args => (render pieces args).map (s.getD (bytes "(null)")++·)
  | .percent::pieces,args => (render pieces args).map ([0x25]++·)
  | .value flags ls c::pieces,.value type bits::args =>
    let fbuf := 0x25::flags++List.replicate ls 0x6c++[c]
    if argType c (0 < ls) = some type ∧ (sprintf fbuf bits).length < lbufSize then
      (render pieces args).map (cstr (sprintf fbuf bits)++·)
    else none
  | _::_,_ => none

variable {sprintf results}

theorem takeWhile_stop {p : UInt8 → Bool} {front : Bytes} (hfront : ∀ c ∈ front, p c = true)
    {c : UInt8} (hc : p c = false) (rest : Bytes) :
    (front++c::rest).takeWhile p = front ∧ (front++c::rest).dropWhile p = c::rest := by
  have hstop : ¬ p c = true := by rw [hc]; exact Bool.false_ne_true
  rw [List.takeWhile_append_of_pos hfront,List.dropWhile_append_of_pos hfront,
    List.takeWhile_cons_of_neg hstop,List.dropWhile_cons_of_neg hstop,List.append_nil]
  exact ⟨rfl,rfl⟩

/-- The letters of the conversions known. -/
theorem isalpha_of_argType {c : UInt8} {longMode : Bool} (h : (argType c longMode).isSome) :
    isalpha c = true ∧ c ≠ 0x6c ∧ c ≠ 0x73 := by
  have hletters : (bytes "fgcdiuxXp").all
      (fun c => isalpha c && c != 0x6c && c != 0x73) = true := by decide
  have hc : c ∈ bytes "fgcdiuxXp" → isalpha c = true ∧ c ≠ 0x6c ∧ c ≠ 0x73 := by
    intro hmem
    simpa [and_assoc] using List.all_eq_true.mp hletters c hmem
  have hparts : bytes "fgcdiuxXp" = bytes "fg"++bytes "cdiuxX"++[0x70] := by decide
  rw [hparts,List.mem_append,List.mem_append,List.mem_singleton] at hc
  refine hc (by_contra fun hnot => ?_)
  obtain ⟨⟨hfg,hint⟩,hp⟩ := (not_or.trans (and_congr_left' not_or)).mp hnot
  rw [argType,if_neg hfg,if_neg hint,if_neg hp] at h
  cases h

/-- A conversion that does not start with an `s`. -/
theorem convert_eq (flags : Bytes) (hflags : ∀ c ∈ flags, ¬ isalpha c ∧ c ≠ 0x25) (ls : ℕ)
    {c : UInt8} (hc : c = 0x25 ∧ ls = 0 ∨ isalpha c = true ∧ c ≠ 0x6c ∧ c ≠ 0x73) (rest : Bytes)
    (hfits : flags.length+ls+2 < fbufSize) :
    convert sprintf (flags++List.replicate ls 0x6c++c::rest) args =
      match argType c (0 < ls) with
      | none => some ([c],rest,args)
      | some type =>
        match args with
        | .value type' bits::args =>
          if type' = type ∧
              (sprintf (0x25::flags++List.replicate ls 0x6c++[c]) bits).length < lbufSize then
            some (cstr (sprintf (0x25::flags++List.replicate ls 0x6c++[c]) bits),rest,args)
          else none
        | _ => none := by
  have hl : c ≠ 0x6c := by
    rcases hc with ⟨rfl,-⟩ | ⟨-,hl,-⟩
    · decide
    · exact hl
  obtain ⟨d,tail,hd,hstops⟩ : ∃ d tail, List.replicate ls 0x6c++c::rest = d::tail ∧
      (isalpha d = true ∧ d ≠ 0x73 ∨ d = 0x25) := by
    cases ls with
    | zero =>
      refine ⟨c,rest,rfl,?_⟩
      rcases hc with ⟨hc,-⟩ | ⟨halpha,-,hs⟩
      · exact Or.inr hc
      · exact Or.inl ⟨halpha,hs⟩
    | succ ls => exact ⟨0x6c,_,rfl,Or.inl (by decide)⟩
  have hflag : ∀ c ∈ flags, decide (¬ isalpha c ∧ c ≠ 0x25) = true :=
    fun c hmem => decide_eq_true (hflags c hmem)
  have hstop : decide (¬ isalpha d ∧ d ≠ 0x25) = false := by
    rcases hstops with ⟨halpha,-⟩ | rfl
    · simp [halpha]
    · decide
  have hls : ∀ c ∈ List.replicate ls (0x6c : UInt8), decide (c = 0x6c) = true :=
    fun c hmem => decide_eq_true (List.eq_of_mem_replicate hmem)
  obtain ⟨htakeFlags,hdropFlags⟩ := takeWhile_stop hflag hstop tail
  obtain ⟨htakeLs,hdropLs⟩ := takeWhile_stop hls (decide_eq_false hl) rest
  have hlength : ¬ fbufSize ≤ (0x25::flags++List.replicate ls 0x6c++[c]).length := by
    simp only [List.cons_append,List.length_cons,List.length_append,List.length_replicate,
      List.length_nil]
    omega
  have hlong : decide (List.replicate ls (0x6c : UInt8) ≠ []) = decide (0 < ls) := by
    cases ls <;> simp
  rw [List.append_assoc,hd]
  unfold convert
  split
  · next fmt heq =>
    exfalso
    cases flags with
    | nil =>
      cases heq
      rcases hstops with ⟨-,hs⟩ | hs
      · exact hs rfl
      · cases hs
    | cons f flags =>
      cases heq
      exact (hflags 0x73 List.mem_cons_self).1 (by decide)
  · rw [← hd] at hdropFlags htakeFlags
    simp only [← hd,htakeFlags,hdropFlags,htakeLs,hdropLs,if_neg hlength,hlong]

theorem convert_percent (rest : Bytes) :
    convert sprintf (0x25::rest) args = some ([0x25],rest,args) :=
  convert_eq [] (fun _ h => (by cases h)) 0 (Or.inl ⟨rfl,rfl⟩) rest (by decide)

/-- From any buffer, the loop pushes the text, or runs out of memory on the way. -/
def Writes (sprintf : Bytes → ℤ → Bytes) (results : Reallocs) (fuel : ℕ) (fmt : Bytes)
    (args : List Arg) (text : Bytes) : Prop :=
  ∀ b, ∃ r, writeLoop sprintf results fuel b fmt args = some r ∧ Pushes results b text r

theorem Writes.next {fuel : ℕ} (h : Writes sprintf results fuel fmt args text)
    {pushed : SbResult × SbBuffer} (hpushed : Pushes results b more pushed) :
    ∃ r, (if pushed.1 = .success then writeLoop sprintf results fuel pushed.2 fmt args
      else some pushed) = some r ∧ Pushes results b (more++text) r := by
  obtain ⟨r,hr,hrest⟩ := h pushed.2
  refine ⟨_,?_,hpushed.andThen fun _ => hrest⟩
  split_ifs <;> simp [hr]

theorem Writes.cons {fuel : ℕ} (h : Writes sprintf results fuel fmt args text) {c : UInt8}
    (hc : c ≠ 0x25) : Writes sprintf results (fuel+1) (c::fmt) args (c::text) := by
  intro b
  rw [writeLoop]
  · exact h.next (pushChar_does c).pushes
  · exact hc

theorem Writes.convert {fuel : ℕ} {fmt' : Bytes} {args' : List Arg}
    (h : Writes sprintf results fuel fmt' args' text)
    (hconvert : convert sprintf fmt args = some (more,fmt',args')) :
    Writes sprintf results (fuel+1) (0x25::fmt) args (more++text) := by
  intro b
  simp only [writeLoop,hconvert]
  exact h.next (pushStr_does more).pushes

theorem Writes.append {t : Bytes} (ht : ∀ c ∈ t, c ≠ 0x25) {n : ℕ}
    (h : ∀ fuel, n ≤ fuel → Writes sprintf results fuel fmt args text) {fuel : ℕ}
    (hfuel : t.length+n ≤ fuel) : Writes sprintf results fuel (t++fmt) args (t++text) := by
  induction t generalizing fuel with
  | nil => exact h fuel (by simpa using hfuel)
  | cons c t ih =>
    obtain ⟨fuel,rfl⟩ : ∃ m, fuel = m+1 := ⟨fuel-1,by simp at hfuel; omega⟩
    exact (ih (fun c hmem => ht c (List.mem_cons_of_mem _ hmem))
      (by simp at hfuel; omega)).cons (ht c List.mem_cons_self)

/-- A format in pieces is written as its pieces make it. -/
theorem writes_render {pieces : List Piece} (hok : ∀ p ∈ pieces, p.Ok)
    (h : render sprintf pieces args = some text) {fuel : ℕ}
    (hfuel : (pieces.flatMap Piece.fmt).length ≤ fuel) :
    Writes sprintf results fuel (pieces.flatMap Piece.fmt) args text := by
  induction pieces generalizing args text fuel with
  | nil =>
    cases h
    intro b
    cases fuel <;> exact ⟨_,rfl,pushes_nil⟩
  | cons p pieces ih =>
    have hrest : ∀ {args text}, render sprintf pieces args = some text → ∀ fuel,
        (pieces.flatMap Piece.fmt).length ≤ fuel →
        Writes sprintf results fuel (pieces.flatMap Piece.fmt) args text :=
      fun h fuel hfuel => ih (fun p hmem => hok p (List.mem_cons_of_mem _ hmem)) h hfuel
    have hp := hok p List.mem_cons_self
    rw [List.flatMap_cons] at hfuel ⊢
    rw [List.length_append] at hfuel
    cases p with
    | text t =>
      obtain ⟨text,htext,rfl⟩ := Option.map_eq_some_iff.mp h
      exact Writes.append hp (hrest htext) hfuel
    | str =>
      have htwo : 2 ≤ Piece.str.fmt.length := by decide
      obtain ⟨fuel,rfl⟩ : ∃ m, fuel = m+1 := ⟨fuel-1,by omega⟩
      cases args with
      | nil => cases h
      | cons arg args =>
        cases arg with
        | value type bits => cases h
        | str s =>
          obtain ⟨text,htext,rfl⟩ := Option.map_eq_some_iff.mp h
          exact (hrest htext fuel (by omega)).convert rfl
    | percent =>
      have htwo : 2 ≤ Piece.percent.fmt.length := by decide
      obtain ⟨fuel,rfl⟩ : ∃ m, fuel = m+1 := ⟨fuel-1,by omega⟩
      obtain ⟨text,htext,rfl⟩ := Option.map_eq_some_iff.mp h
      exact (hrest htext fuel (by omega)).convert (convert_percent _)
    | value flags ls c =>
      obtain ⟨hflags,hc,hfits⟩ := hp
      have htwo : 2 ≤ (Piece.value flags ls c).fmt.length := by simp [Piece.fmt]; omega
      obtain ⟨fuel,rfl⟩ : ∃ m, fuel = m+1 := ⟨fuel-1,by omega⟩
      cases args with
      | nil => cases h
      | cons arg args =>
        cases arg with
        | str s => cases h
        | value type bits =>
          simp only [render] at h
          split_ifs at h with hvalue
          · obtain ⟨text,htext,rfl⟩ := Option.map_eq_some_iff.mp h
            have hconvert := @convert_eq sprintf (.value type bits::args) flags hflags ls c
              (Or.inr (isalpha_of_argType hc)) (pieces.flatMap Piece.fmt) hfits
            rw [hvalue.1] at hconvert
            simp only [hvalue.2,and_self,if_true] at hconvert
            have hfmt : (Piece.value flags ls c).fmt++pieces.flatMap Piece.fmt =
                0x25::(flags++List.replicate ls 0x6c++c::pieces.flatMap Piece.fmt) := by
              simp [Piece.fmt]
            rw [hfmt]
            exact (hrest htext fuel (by omega)).convert hconvert

/-- A format in pieces pushes all that its pieces make of the arguments, or leaves the buffer as
it is for want of memory. -/
theorem vwritef_does {pieces : List Piece} (hok : ∀ p ∈ pieces, p.Ok)
    (h : render sprintf pieces args = some text) (results : Reallocs) (b : SbBuffer) :
    ∃ r, sbBufferVwritef sprintf results b (pieces.flatMap Piece.fmt) args = some r ∧
      Does results b text r := by
  have hwrites : Writes sprintf results (pieces.flatMap Piece.fmt).length
      (pieces.flatMap Piece.fmt) args text := writes_render hok h (Nat.le_refl _)
  obtain ⟨r,hr,hpushes⟩ := hwrites b
  unfold sbBufferVwritef
  split
  · next hnone => cases hr.symm.trans hnone
  · next r' hr' =>
    cases hr.symm.trans hr'
    split_ifs with hs
    · refine ⟨r,rfl,hpushes.result,hpushes.pushed,fun h => ?_,hpushes.memory,hpushes.cap⟩
      cases hs.symm.trans h
    · exact ⟨_,rfl,hpushes.result,fun h => absurd h hs,fun _ => setLen_text hpushes,
        fun h => absurd (hpushes.memory h) hs,hpushes.cap⟩

end Writing

end FormatStrings
end RemotePkgInstaller
