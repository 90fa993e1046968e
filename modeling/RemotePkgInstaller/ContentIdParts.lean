import RemotePkgInstaller.ContentId
import Mathlib.Data.List.Basic

/-! Which strings are taken for a content id, and into which parts they are split. -/
namespace RemotePkgInstaller
namespace ContentIdParts

open ContentId

section Search

variable {s r : Bytes} {c : UInt8}

theorem strchr_eq_some_iff :
    strchr s c = some r ↔ ∃ before after, s = before++c::after ∧ c ∉ before ∧ r = c::after := by
  unfold strchr
  induction s with
  | nil => simp
  | cons x s ih =>
    by_cases hx : x = c
    · subst hx
      simp only [List.mem_cons_self,if_true,List.dropWhile_cons]
      simp only [ne_eq,not_true_eq_false,decide_false,Bool.false_eq_true,if_false,
        Option.some.injEq]
      constructor
      · rintro rfl
        exact ⟨[],s,rfl,by simp,rfl⟩
      · rintro ⟨before,after,heq,hnot,rfl⟩
        cases before with
        | nil => exact heq
        | cons y before =>
          injection heq with hy _
          exact absurd (hy ▸ List.mem_cons_self) hnot
    · have hdrop : (x::s).dropWhile (· ≠ c) = s.dropWhile (· ≠ c) := by
        simp [hx]
      have hmem : c ∈ x::s ↔ c ∈ s := by simp [Ne.symm hx]
      rw [hdrop]
      simp only [hmem,ih]
      constructor
      · rintro ⟨before,after,rfl,hnot,rfl⟩
        exact ⟨x::before,after,rfl,by simp [Ne.symm hx,hnot],rfl⟩
      · rintro ⟨before,after,heq,hnot,rfl⟩
        cases before with
        | nil =>
          injection heq with hc _
          exact absurd hc hx
        | cons y before =>
          injection heq with _ hs
          exact ⟨before,after,hs,fun h => hnot (List.mem_cons_of_mem _ h),rfl⟩

theorem strchr_isSome : (strchr s c).isSome = true ↔ c ∈ s := by
  unfold strchr
  split_ifs with h <;> simp [h]

theorem strrchr_append {before after : Bytes} (h : c ∉ after) :
    strrchr (before++c::after) c = some (c::after) := by
  have hkeep : ∀ x ∈ after.reverse, decide (x ≠ c) = true := by
    intro x hx
    exact decide_eq_true fun hc => h (hc ▸ List.mem_reverse.mp hx)
  rw [strrchr,if_pos (by simp)]
  rw [List.reverse_append,List.reverse_cons,List.append_assoc,List.singleton_append,
    List.takeWhile_append_of_pos hkeep]
  simp

/-- A string with some `c` is split at the last of them. -/
theorem exists_last (h : c ∈ s) : ∃ before after, s = before++c::after ∧ c ∉ after := by
  obtain ⟨r,hr⟩ := Option.isSome_iff_exists.mp (strchr_isSome.mpr (List.mem_reverse.mpr h))
  obtain ⟨after,before,heq,hnot,_⟩ := strchr_eq_some_iff.mp hr
  refine ⟨before.reverse,after.reverse,?_,by simpa using hnot⟩
  rw [← List.reverse_reverse s,heq]
  simp

end Search

/-- `*info` after a call, when it holds `info` before, and what the call returns. -/
def parseInto (contentId : Bytes) (info : PkgContentInfo) : PkgContentInfo × Bool :=
  match pkgParseContentId contentId with
  | none => (info,false)
  | some tmp => (tmp,true)

/-- The four parts of a content id. -/
structure Parts where
  p : Bytes
  t : Bytes
  q : Bytes
  l : Bytes

def Parts.serviceId (parts : Parts) : Bytes := parts.p++0x2d::parts.t++0x5f::parts.q

def Parts.contentId (parts : Parts) : Bytes := parts.serviceId++0x2d::parts.l

structure Parts.Sized (parts : Parts) : Prop where
  service : parts.serviceId.length = 19
  title : parts.t.length = 9
  label : parts.l.length = 16
  dash : (0x2d : UInt8) ∉ parts.p++parts.t++parts.q++parts.l

/-- A call accepts the string exactly if it is made of such parts, stores them, and stores
nothing when it rejects it. -/
structure ParsesExactly (s : Bytes) (info : PkgContentInfo) : Prop where
  accepts : (parseInto s info).2 = true ↔ ∃ parts : Parts, parts.Sized ∧ s = parts.contentId
  stores : ∀ parts : Parts, parts.Sized → s = parts.contentId →
    (parseInto s info).1 = ⟨s,parts.serviceId,parts.t,parts.l⟩
  restores : (parseInto s info).2 = true →
    (parseInto s info).1.serviceId++0x2d::(parseInto s info).1.label = s ∧
    ∃ before after, (0x2d : UInt8) ∉ before ∧
      s = before++0x2d::(parseInto s info).1.titleId++0x5f::after
  rejects : (parseInto s info).2 = false → (parseInto s info).1 = info

/-- What the code looks for: the second and last `-` at the end of the service id, and some
`_` behind the first. -/
structure Split (s before middle label : Bytes) : Prop where
  eq : s = before++0x2d::(middle++0x2d::label)
  dash : (0x2d : UInt8) ∉ before++middle++label
  serviceSize : before.length+1+middle.length = 19
  labelSize : label.length = 16
  underscore : (0x5f : UInt8) ∈ middle++0x2d::label

theorem Split.strchr {s before middle label : Bytes} (h : Split s before middle label) :
    strchr s 0x2d = some (0x2d::(middle++0x2d::label)) ∧
      strchr (middle++0x2d::label) 0x2d = some (0x2d::label) ∧
      strrchr s 0x2d = some (0x2d::label) := by
  have hdash := h.dash
  simp only [List.mem_append,not_or] at hdash
  refine ⟨strchr_eq_some_iff.mpr ⟨before,_,h.eq,hdash.1.1,rfl⟩,
    strchr_eq_some_iff.mpr ⟨middle,label,rfl,hdash.1.2,rfl⟩,?_⟩
  have hlast : s = (before++0x2d::middle)++0x2d::label := by rw [h.eq]; simp
  rw [hlast]
  exact strrchr_append hdash.2

theorem Split.length {s before middle label : Bytes} (h : Split s before middle label) :
    s.length = pkgContentIdSize := by
  have hservice := h.serviceSize
  have hlabel := h.labelSize
  rw [h.eq,pkgContentIdSize]
  simp only [List.length_append,List.length_cons]
  omega

/-- What is copied into the buffers for the whole id, the service id and the label. -/
theorem Split.copies {s before middle label : Bytes} (h : Split s before middle label) :
    strlcpy s (pkgContentIdSize+1) = s ∧
      strlcpy s (pkgServiceIdSize+1) = before++0x2d::middle ∧
      strlcpy label (pkgLabelSize+1) = label := by
  refine ⟨strlcpy_eq_self (by rw [h.length]; exact Nat.lt_succ_self _),?_,
    strlcpy_eq_self (by rw [h.labelSize]; decide)⟩
  have hservice : (before++0x2d::middle).length = pkgServiceIdSize := by
    have := h.serviceSize
    simp only [List.length_append,List.length_cons,pkgServiceIdSize]
    omega
  have hs : s = (before++0x2d::middle)++0x2d::label := by rw [h.eq]; simp
  rw [strlcpy,hs,Nat.add_sub_cancel,← hservice,List.take_left]

/-- Nothing of what the last search finds is cut off only if it found the second `-`. -/
theorem not_mem_label {s before label last : Bytes} (hs : s = before++0x2d::label)
    (hlast : strrchr s 0x2d = some last) (hsize : label.length = pkgLabelSize)
    (hcopied : (strlcpy last.tail (pkgLabelSize+1)).length = pkgLabelSize) :
    (0x2d : UInt8) ∉ label := by
  intro hmem
  obtain ⟨between,after,rfl,hafter⟩ := exists_last hmem
  have hs' : s = (before++0x2d::between)++0x2d::after := by rw [hs]; simp
  rw [hs',strrchr_append hafter] at hlast
  injection hlast with hlast
  rw [← hlast,List.tail_cons,strlcpy_length] at hcopied
  rw [List.length_append,List.length_cons] at hsize
  omega

/-- What passes the four searches and the checks of the lengths is split. -/
theorem split_of_pkgParseContentId {s : Bytes} {info : PkgContentInfo}
    (h : pkgParseContentId s = some info) : ∃ before middle label, Split s before middle label ∧
      info = ⟨s,before++0x2d::middle,(middle++0x2d::label).take 9,label⟩ := by
  unfold pkgParseContentId at h
  simp only [Option.bind_eq_bind,Option.bind_eq_some_iff,Option.guard_eq_some'] at h
  obtain ⟨_,hlen,p1,hp1,p2,hp2,_,hserv,_,_,_,hund,_,htitle,p3,hp3,_,hlabel,hinfo⟩ := h
  obtain ⟨before,rest,hs,hbefore,rfl⟩ := strchr_eq_some_iff.mp hp1
  obtain ⟨middle,label,hrest,hmiddle,rfl⟩ := strchr_eq_some_iff.mp hp2
  rw [List.tail_cons] at hrest hund htitle hinfo
  have hlengths : s.length = before.length+1+middle.length+1+label.length := by
    rw [hs,hrest]
    simp only [List.length_append,List.length_cons]
    omega
  simp only [pkgContentIdSize,pkgServiceIdSize,List.length_cons] at hlen hserv
  have hsize : label.length = pkgLabelSize := by
    rw [pkgLabelSize]
    omega
  have hs' : s = (before++0x2d::middle)++0x2d::label := by
    rw [hs,hrest]
    simp
  have hnolast := not_mem_label hs' hp3 hsize hlabel
  have hsplit : Split s before middle label := by
    refine ⟨by rw [hs,hrest],by simp [hbefore,hmiddle,hnolast],by omega,hsize,?_⟩
    rw [← hrest]
    exact strchr_isSome.mp hund
  obtain ⟨hid,hservice,hcopy⟩ := hsplit.copies
  rw [hsplit.strchr.2.2] at hp3
  injection hp3 with hp3
  injection hinfo with hinfo
  refine ⟨before,middle,label,hsplit,?_⟩
  rw [← hinfo,← hp3,hid,hservice,List.tail_cons,hcopy,hrest]
  rfl

theorem Split.parse {s before middle label : Bytes} (h : Split s before middle label) :
    pkgParseContentId s =
      some ⟨s,before++0x2d::middle,(middle++0x2d::label).take 9,label⟩ := by
  unfold pkgParseContentId
  obtain ⟨hfirst,hsecond,hlast⟩ := h.strchr
  obtain ⟨hid,hservice,hcopy⟩ := h.copies
  have hlabel := h.labelSize
  have hserviceSize := h.serviceSize
  have hp2 : s.length-(0x2d::label).length = pkgServiceIdSize := by
    rw [h.length,List.length_cons,hlabel]
    rfl
  have htitle : (strlcpy (middle++0x2d::label) (pkgTitleIdSize+1)).length = pkgTitleIdSize := by
    rw [strlcpy_length,List.length_append,List.length_cons,hlabel,pkgTitleIdSize]
    omega
  have hsize : (before++0x2d::middle).length = pkgServiceIdSize := by
    simp only [List.length_append,List.length_cons,pkgServiceIdSize]
    omega
  simp only [Option.bind_eq_bind,Option.bind_eq_some_iff,Option.guard_eq_some']
  refine ⟨(),h.length,_,hfirst,_,hsecond,(),hp2,(),by rw [hservice]; exact hsize,(),
    strchr_isSome.mpr h.underscore,(),htitle,_,hlast,(),?_,?_⟩
  · rw [List.tail_cons,hcopy]
    exact hlabel
  · rw [List.tail_cons,List.tail_cons,hid,hservice,hcopy]
    rfl

/-- There is some `_` behind the first `-`, but not where the title id ends. -/
def StrayUnderscore (s : Bytes) : Prop :=
  ∃ before middle label, Split s before middle label ∧ middle[9]? ≠ some 0x5f

section Exact

variable {s before middle label before' middle' label' : Bytes}

/-- A string is split in one way only. -/
theorem Split.unique (h : Split s before middle label) (h' : Split s before' middle' label') :
    before' = before ∧ middle' = middle ∧ label' = label := by
  have hfirst := h.strchr.1.symm.trans h'.strchr.1
  injection hfirst with hfirst
  injection hfirst with _ hrest
  have hsecond := h.strchr.2.1
  rw [hrest,h'.strchr.2.1] at hsecond
  injection hsecond with hsecond
  injection hsecond with _ hlabel
  have hbefore := h.eq.symm.trans h'.eq
  rw [hrest] at hbefore
  rw [hlabel] at hrest
  exact ⟨(List.append_cancel_right hbefore).symm,(List.append_cancel_right hrest).symm,hlabel⟩

/-- The parts of a content id are where the code looks for them. -/
theorem Parts.Sized.split {parts : Parts} (h : parts.Sized) :
    Split parts.contentId parts.p (parts.t++0x5f::parts.q) parts.l where
  eq := by simp [Parts.contentId,Parts.serviceId]
  dash := by simpa [and_assoc] using h.dash
  serviceSize := by
    have := h.service
    simp only [Parts.serviceId,List.length_append,List.length_cons] at this ⊢
    omega
  labelSize := h.label
  underscore := by simp

theorem Parts.Sized.parse {parts : Parts} (h : parts.Sized) (info : PkgContentInfo) :
    parseInto parts.contentId info =
      (⟨parts.contentId,parts.serviceId,parts.t,parts.l⟩,true) := by
  have hparse := h.split.parse
  have htitle : ((parts.t++0x5f::parts.q)++0x2d::parts.l).take 9 = parts.t := by
    rw [List.append_assoc,← h.title,List.take_left]
  have hservice : parts.p++0x2d::(parts.t++0x5f::parts.q) = parts.serviceId := by
    simp [Parts.serviceId]
  rw [htitle,hservice] at hparse
  rw [parseInto,hparse]

/-- Where the `_` stands behind nine bytes, the string is a content id. -/
theorem Split.parts (h : Split s before middle label) (h9 : middle[9]? = some 0x5f) :
    ∃ parts : Parts, parts.Sized ∧ s = parts.contentId := by
  obtain ⟨hlt,hget⟩ := List.getElem?_eq_some_iff.mp h9
  have hmiddle : middle = middle.take 9++0x5f::middle.drop 10 := by
    rw [← hget,← List.drop_eq_getElem_cons hlt,List.take_append_drop]
  refine ⟨⟨before,middle.take 9,middle.drop 10,label⟩,⟨?_,?_,h.labelSize,?_⟩,?_⟩
  · have hservice := h.serviceSize
    rw [hmiddle] at hservice
    simp only [Parts.serviceId,List.length_append,List.length_cons] at hservice ⊢
    omega
  · simp only [List.length_take]
    omega
  · intro hmem
    refine h.dash ?_
    rw [hmiddle]
    simp only [List.mem_append,List.mem_cons] at hmem ⊢
    tauto
  · simp only [Parts.contentId,Parts.serviceId]
    rw [h.eq]
    conv_lhs => rw [hmiddle]
    simp

/-- A string with a stray `_` is accepted, but it is no content id. -/
theorem not_parsesExactly_of_stray {info : PkgContentInfo} (h : StrayUnderscore s) :
    ¬ ParsesExactly s info := by
  obtain ⟨before,middle,label,hsplit,hstray⟩ := h
  intro hexact
  have haccepted : (parseInto s info).2 = true := by
    rw [parseInto,hsplit.parse]
  obtain ⟨parts,hsized,rfl⟩ := hexact.accepts.mp haccepted
  obtain ⟨_,hmiddle,_⟩ := hsplit.unique hsized.split
  refine hstray ?_
  rw [← hmiddle,List.getElem?_append_right (by rw [hsized.title]),hsized.title]
  rfl

/-- A call takes exactly the content ids apart, unless a `_` behind the first `-` is not where
the title id ends. -/
theorem parseInto_exact_iff (s : Bytes) (info : PkgContentInfo) :
    ParsesExactly s info ↔ ¬ StrayUnderscore s := by
  constructor
  · exact fun hexact hstray => not_parsesExactly_of_stray hstray hexact
  · intro hno
    cases hparse : pkgParseContentId s with
    | none =>
      have hinto : parseInto s info = (info,false) := by rw [parseInto,hparse]
      have hnone : ∀ parts : Parts, parts.Sized → s ≠ parts.contentId := by
        rintro parts hsized rfl
        rw [hsized.parse] at hinto
        cases congrArg Prod.snd hinto
      refine ⟨?_,fun parts hsized hs => absurd hs (hnone parts hsized),?_,fun _ => by rw [hinto]⟩
      · rw [hinto]
        exact iff_of_false Bool.false_ne_true fun ⟨parts,hsized,hs⟩ => hnone parts hsized hs
      · rw [hinto]
        exact fun h => nomatch h
    | some tmp =>
      obtain ⟨before,middle,label,hsplit,_⟩ := split_of_pkgParseContentId hparse
      have h9 : middle[9]? = some 0x5f := by
        by_contra hne
        exact hno ⟨before,middle,label,hsplit,hne⟩
      obtain ⟨parts,hsized,rfl⟩ := hsplit.parts h9
      have hinto := hsized.parse info
      refine ⟨?_,fun parts' hsized' hs => ?_,fun _ => ?_,fun hfalse => ?_⟩
      · rw [hinto]
        exact iff_of_true rfl ⟨parts,hsized,rfl⟩
      · rw [hs,hsized'.parse]
      · rw [hinto]
        refine ⟨rfl,parts.p,parts.q++0x2d::parts.l,?_,?_⟩
        · exact fun hmem => hsized.dash (by simp [hmem])
        · simp [Parts.contentId,Parts.serviceId]
      · rw [hinto] at hfalse
        cases hfalse

/-- The `_` stands one byte too early. -/
def earlyUnderscore : Bytes := bytes "UP0001-CUSA0001_000-0123456789ABCDEF"

/-- The string is accepted, with a `_` at the end of its title id. -/
theorem earlyUnderscore_accepted :
    pkgParseContentId earlyUnderscore = some ⟨earlyUnderscore,bytes "UP0001-CUSA0001_000",
        bytes "CUSA0001_",bytes "0123456789ABCDEF"⟩ ∧
      ¬ ParsesExactly earlyUnderscore ⟨[],[],[],[]⟩ := by
  refine ⟨by decide,not_parsesExactly_of_stray ?_⟩
  exact ⟨bytes "UP0001",bytes "CUSA0001_000",bytes "0123456789ABCDEF",
    ⟨by decide,by decide,by decide,by decide,by decide⟩,by decide⟩

end Exact

end ContentIdParts
end RemotePkgInstaller
