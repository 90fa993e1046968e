import RemotePkgInstaller.StreamThreads

/-! What holds of the streams of the server at every moment, whatever the order of the threads'
steps: no thread uses a stream that is freed, the list is that of the streams in use in the order
of their connections, and everything that belongs to a connection is given back once. -/
namespace RemotePkgInstaller
namespace StreamLists

open LinkedLists StreamThreads

variable {κ : Type}

/-- Only `sb_poll_server` is at these places. -/
def polled : Pc κ → Bool
  | .lockToLink | .linkFirst | .linkWalk _ | .linkNext _ | .linkPrev _ | .linkHead
  | .unlockLinked | .create => true
  | _ => false

/-- Nothing has been written to the links of the stream yet. -/
def fresh : Pc κ → Bool
  | .lockToLink | .linkFirst | .linkWalk _ | .linkNext _ | .linkPrev _ | .linkHead => true
  | _ => false

/-- How much has been called for a connection: nothing yet, a request handled, the socket closed,
the file closed, the stream freed. -/
def stage : Pc κ → ℕ
  | .lockToLink | .linkFirst | .linkWalk _ | .linkNext _ | .linkPrev _ | .linkHead
  | .unlockLinked | .create | .connect | .recv => 0
  | .closeFile => 2
  | .free => 3
  | .gone => 4
  | _ => 1

/-- The calls made for a connection go with the place it is at, and with the file it has open. -/
structure Books (c : Conn κ) (sendFd : Bool) : Prop where
  sockets : c.calls.count .closeSocket = if 2 ≤ stage c.pc then 1 else 0
  frees : c.calls.count .free = if 4 ≤ stage c.pc then 1 else 0
  files : c.calls.count .openFile =
    c.calls.count .closeFile+if sendFd ∧ stage c.pc < 3 then 1 else 0
  once : c.calls.count .openFile ≤ stage c.pc
  most : c.calls.count .openFile ≤ 1

/-- The connection has its stream. -/
def Lives (heap : κ → Option (Stream κ)) (c : Conn κ) : Prop :=
  ∃ x, heap c.st = some x ∧ Books c x.sendFd ∧ (fresh c.pc → x.links = ⟨none,none⟩)

/-- The list while a thread that links or unlinks `st` is at a place inside the lock. -/
def Shape (cell : Cells κ) (head : Option κ) (ks : List κ) (st : κ) : Pc κ → Prop
  | .linkWalk st2 => IsList cell head ks ∧ st2 ∈ ks
  | .linkNext st2 => IsList cell head ks ∧ ks.getLast? = some st2
  | .linkPrev st2 => head = ks.head? ∧ Segment cell none ks (some st) ∧ ks.getLast? = some st2
  | .linkHead => head = none ∧ ks = []
  | .unlinkPrev => ∃ xs ys, ks = xs++ys ∧ Bypassed cell head xs st ys
  | .unlinkHead => ∃ xs ys, ks = xs++ys ∧ Detached cell head xs st ys
  | _ => IsList cell head ks

/-- The list as it is when nobody holds the lock, or as its holder has it. -/
def Shaped (s : System κ) : Prop :=
  match s.streamMtx with
  | none => IsList s.cells s.streams (linkedOf s.conns)
  | some i => ∀ c, s.conns[i]? = some c → Shape s.cells s.streams (linkedOf s.conns) c.st c.pc

structure Orderly (s : System κ) : Prop where
  sound : s.faulted = false
  live : ∀ (i : ℕ) c, s.conns[i]? = some c → c.pc.isGone = false → Lives s.heap c
  dead : ∀ (i : ℕ) c, s.conns[i]? = some c → c.pc.isGone = true → Books c false
  owned : ∀ k, (s.heap k).isSome →
    ∃ (i : ℕ), ∃ c, s.conns[i]? = some c ∧ c.pc.isGone = false ∧ c.st = k
  apart : ∀ (i j : ℕ) c d, s.conns[i]? = some c → s.conns[j]? = some d → c.pc.isGone = false →
    d.pc.isGone = false → c.st = d.st → i = j
  polls : ∀ (i : ℕ) c, s.conns[i]? = some c → polled c.pc → c.own = false
  last : ∀ (i : ℕ) c, s.conns[i]? = some c → c.own = false → c.pc.isGone = false →
    i+1 = s.conns.length
  entered : ∀ (i : ℕ) c, s.conns[i]? = some c → (c.pc.inside ↔ s.streamMtx = some i)
  holder : ∀ i, s.streamMtx = some i → i < s.conns.length
  shaped : Shaped s

theorem orderly_start : Orderly (System.start κ) where
  sound := rfl
  live _ _ h := by cases h
  dead _ _ h := by cases h
  owned _ h := by cases h
  apart _ _ _ _ h := by cases h
  polls _ _ h := by cases h
  last _ _ h := by cases h
  entered _ _ h := by cases h
  holder _ h := by cases h
  shaped := isList_nil

section Shapes

variable {cell cell' : Cells κ} {head : Option κ} {ks xs ys : List κ} {k st : κ} {pc : Pc κ}

theorem Shape.congr (h : Shape cell head ks st pc) (heq : ∀ k, k = st ∨ k ∈ ks → cell' k = cell k) :
    Shape cell' head ks st pc := by
  have hks : ∀ k ∈ ks, cell' k = cell k := fun k hk => heq k (Or.inr hk)
  cases pc <;> simp only [Shape] at h ⊢
  case linkWalk => exact ⟨h.1.congr hks,h.2⟩
  case linkNext => exact ⟨h.1.congr hks,h.2⟩
  case linkPrev => exact ⟨h.1,h.2.1.congr hks,h.2.2⟩
  case linkHead => exact h
  case unlinkPrev =>
    obtain ⟨xs,ys,rfl,hb⟩ := h
    exact ⟨xs,ys,rfl,hb.head,hb.front.congr fun k hk => hks k (List.mem_append_left _ hk),
      (heq st (Or.inl rfl)).trans hb.own,
      hb.back.congr fun k hk => hks k (List.mem_append_right _ hk)⟩
  case unlinkHead =>
    obtain ⟨xs,ys,rfl,hd⟩ := h
    exact ⟨xs,ys,rfl,hd.head,(heq st (Or.inl rfl)).trans hd.own,hd.rest.congr hks⟩
  all_goals exact h.congr hks

end Shapes

/-- Going on without a call. -/
theorem Books.goto {c : Conn κ} {sendFd : Bool} (h : Books c sendFd) {pc : Pc κ} {own : Bool}
    (hstage : stage pc = stage c.pc ∨ stage c.pc = 0 ∧ stage pc = 1) :
    Books { c with pc, own } sendFd := by
  obtain ⟨hsockets,hfrees,hfiles,honce,hmost⟩ := h
  rcases hstage with hstage | ⟨hbefore,hafter⟩
  · constructor <;> simp only [hstage] <;> assumption
  · rw [hbefore] at hsockets hfrees hfiles honce
    constructor <;> simp_all

section Books

variable {st : κ} {own sendFd : Bool} {calls : List Call}

theorem Books.recv (h : Books ⟨st,.recv,own,calls⟩ sendFd) (file : Bool) {pc : Pc κ}
    (hpc : stage pc = 1) :
    Books ⟨st,pc,own,calls++(if file then [.openFile] else [])⟩ (sendFd || file) := by
  obtain ⟨hsockets,hfrees,hfiles,honce,hmost⟩ := h
  cases file <;> constructor <;> simp_all [stage,List.count_append]

theorem Books.sent (h : Books ⟨st,.send,own,calls⟩ true) :
    Books ⟨st,.send,own,calls++[.closeFile]⟩ false := by
  obtain ⟨hsockets,hfrees,hfiles,honce,hmost⟩ := h
  constructor <;> simp_all [stage,List.count_append]

theorem Books.closeSocket (h : Books ⟨st,.closeSocket,own,calls⟩ sendFd) :
    Books ⟨st,.closeFile,own,calls++[.closeSocket]⟩ sendFd := by
  obtain ⟨hsockets,hfrees,hfiles,honce,hmost⟩ := h
  constructor <;> simp_all [stage,List.count_append]
  omega

theorem Books.closeFile (h : Books ⟨st,.closeFile,own,calls⟩ true) :
    Books ⟨st,.free,own,calls++[.closeFile]⟩ true := by
  obtain ⟨hsockets,hfrees,hfiles,honce,hmost⟩ := h
  constructor <;> simp_all [stage,List.count_append]

theorem Books.noFile (h : Books ⟨st,.closeFile,own,calls⟩ false) :
    Books ⟨st,.free,own,calls⟩ false := by
  obtain ⟨hsockets,hfrees,hfiles,honce,hmost⟩ := h
  constructor <;> simp_all [stage]
  omega

theorem Books.free (h : Books ⟨st,.free,own,calls⟩ sendFd) :
    Books ⟨st,.gone,own,calls++[.free]⟩ false := by
  obtain ⟨hsockets,hfrees,hfiles,honce,hmost⟩ := h
  constructor <;> simp_all [stage,List.count_append]
  omega

end Books

section Connections

variable {conns : List (Conn κ)} {i j : ℕ} {c c' d : Conn κ}

/-- The place of a connection among the others. -/
theorem split_conns (hc : conns[i]? = some c) : ∃ before after, conns = before++c::after ∧
    before.length = i ∧ ∀ c', conns.set i c' = before++c'::after := by
  obtain ⟨hi,rfl⟩ := List.getElem?_eq_some_iff.mp hc
  refine ⟨conns.take i,conns.drop (i+1),?_,by simp; omega,fun c' => ?_⟩
  · rw [List.getElem_cons_drop,List.take_append_drop]
  · rw [List.set_eq_take_append_cons_drop,if_pos hi]

theorem linkedOf_append (conns conns' : List (Conn κ)) :
    linkedOf (conns++conns') = linkedOf conns++linkedOf conns' := by
  simp [linkedOf]

theorem linkedOf_cons (c : Conn κ) (conns : List (Conn κ)) :
    linkedOf (c::conns) = (if c.pc.linked then [c.st] else [])++linkedOf conns := by
  unfold linkedOf
  rw [List.filter_cons]
  split_ifs <;> rfl

theorem linkedOf_set (hc : conns[i]? = some c) (hst : c'.st = c.st)
    (hlinked : c'.pc.linked = c.pc.linked) : linkedOf (conns.set i c') = linkedOf conns := by
  obtain ⟨before,after,hconns,-,hset⟩ := split_conns hc
  rw [hset,hconns,linkedOf_append,linkedOf_append,linkedOf_cons,linkedOf_cons,hst,hlinked]

theorem linkedOf_goto (hc : conns[i]? = some c) (pc : Pc κ) (hlinked : pc.linked = c.pc.linked) :
    linkedOf (conns.set i { c with pc }) = linkedOf conns := linkedOf_set hc rfl hlinked

/-- A stream that is linked last comes to the end of the list. -/
theorem linkedOf_set_last (hc : conns[i]? = some c) (hlast : i+1 = conns.length)
    (hst : c'.st = c.st)
    (hbefore : c.pc.linked = false) (hafter : c'.pc.linked = true) :
    linkedOf (conns.set i c') = linkedOf conns++[c.st] := by
  obtain ⟨before,after,hconns,hlength,hset⟩ := split_conns hc
  have hnil : after = [] := by
    rw [hconns,List.length_append,List.length_cons,← hlength] at hlast
    exact List.length_eq_zero_iff.mp (by omega)
  rw [hset,hconns,hnil,linkedOf_append,linkedOf_append,linkedOf_cons,linkedOf_cons,hst,hbefore,
    hafter]
  simp [linkedOf]

theorem linkedOf_set_out (hc : conns[i]? = some c) (c' : Conn κ) (hbefore : c.pc.linked = true)
    (hafter : c'.pc.linked = false) : ∃ xs ys, linkedOf conns = xs++c.st::ys ∧
      linkedOf (conns.set i c') = xs++ys := by
  obtain ⟨before,after,hconns,-,hset⟩ := split_conns hc
  refine ⟨linkedOf before,linkedOf after,?_,?_⟩
  · rw [hconns,linkedOf_append,linkedOf_cons,hbefore]
    rfl
  · rw [hset,linkedOf_append,linkedOf_cons,hafter]
    rfl

theorem mem_linkedOf {k : κ} (hk : k ∈ linkedOf conns) :
    ∃ (i : ℕ), ∃ c, conns[i]? = some c ∧ c.pc.linked = true ∧ c.st = k := by
  obtain ⟨c,hc,rfl⟩ := List.mem_map.mp hk
  obtain ⟨hmem,hlinked⟩ := List.mem_filter.mp hc
  obtain ⟨i,hi⟩ := List.getElem?_of_mem hmem
  exact ⟨i,c,hi,hlinked,rfl⟩

theorem isGone_of_linked {pc : Pc κ} (h : pc.linked = true) : pc.isGone = false := by
  cases pc <;> first | rfl | cases h

theorem isGone_of_inside {pc : Pc κ} (h : pc.inside = true) : pc.isGone = false := by
  cases pc <;> first | rfl | cases h

end Connections

namespace Orderly

variable {s s' : System κ} {i j : ℕ} {c c' d : Conn κ}

theorem nodup_linkedOf (h : Orderly s) : (linkedOf s.conns).Nodup := by
  have hpairs : s.conns.Pairwise fun c d =>
      c.pc.isGone = false → d.pc.isGone = false → c.st ≠ d.st := by
    refine List.pairwise_iff_getElem.mpr fun i j hi hj hij hc hd hst => ?_
    exact Nat.ne_of_lt hij (h.apart i j _ _ (List.getElem?_eq_getElem hi)
      (List.getElem?_eq_getElem hj) hc hd hst)
  refine List.pairwise_map.mpr (List.pairwise_filter.mpr (hpairs.imp ?_))
  intro c d hne hc hd
  exact hne (isGone_of_linked hc) (isGone_of_linked hd)

/-- What has to be known of a step for connection `i`. -/
structure Steps (s s' : System κ) (i : ℕ) (c c' : Conn κ) : Prop where
  st : c'.st = c.st
  conns : s'.conns = s.conns.set i c'
  faulted : s'.faulted = s.faulted
  self : c'.pc.isGone = false → Lives s'.heap c'
  freed : c'.pc.isGone = true → s'.heap c.st = none ∧ Books c' false
  others : ∀ (j : ℕ) d, s.conns[j]? = some d → d.pc.isGone = false → d.st ≠ c.st →
    Lives s.heap d → Lives s'.heap d
  owned : ∀ k, k ≠ c.st → (s'.heap k).isSome → (s.heap k).isSome
  polls : polled c'.pc → c'.own = false
  own : c'.own = false → c.own = false
  mutex : (s'.streamMtx = s.streamMtx ∧ c'.pc.inside = c.pc.inside) ∨
    (s.streamMtx = none ∧ s'.streamMtx = some i ∧ c'.pc.inside = true) ∨
    (s.streamMtx = some i ∧ s'.streamMtx = none ∧ c'.pc.inside = false)

theorem next (h : Orderly s) (hc : s.conns[i]? = some c) (c' : Conn κ)
    (hgone : c.pc.isGone = false)
    (hs : Steps s s' i c c') (hshaped : Shaped s') : Orderly s' := by
  have hi : i < s.conns.length := (List.getElem?_eq_some_iff.mp hc).1
  have hself : s'.conns[i]? = some c' := by rw [hs.conns,List.getElem?_set_self hi]
  have hother : ∀ {j : ℕ}, j ≠ i → s'.conns[j]? = s.conns[j]? := fun hj => by
    rw [hs.conns,List.getElem?_set_ne (Ne.symm hj)]
  have hcases : ∀ {j : ℕ} {d}, s'.conns[j]? = some d →
      (j = i ∧ d = c') ∨ (j ≠ i ∧ s.conns[j]? = some d) := by
    intro j d hd
    by_cases hj : j = i
    · subst hj
      exact Or.inl ⟨rfl,Option.some.inj (hd.symm.trans hself)⟩
    · exact Or.inr ⟨hj,(hother hj).symm.trans hd⟩
  have hne : ∀ {j : ℕ} {d : Conn κ}, j ≠ i → s.conns[j]? = some d → d.pc.isGone = false →
      d.st ≠ c.st := fun hj hd hlive hst => hj (h.apart _ _ _ _ hd hc hlive hgone hst)
  refine ⟨hs.faulted.trans h.sound,?_,?_,?_,?_,?_,?_,?_,?_,hshaped⟩
  · intro j d hd hlive
    rcases hcases hd with ⟨rfl,rfl⟩ | ⟨hj,hd⟩
    · exact hs.self hlive
    · exact hs.others j d hd hlive (hne hj hd hlive) (h.live j d hd hlive)
  · intro j d hd hdead
    rcases hcases hd with ⟨rfl,rfl⟩ | ⟨hj,hd⟩
    · exact (hs.freed hdead).2
    · exact h.dead j d hd hdead
  · intro k hk
    by_cases hkc : k = c.st
    · cases hdead : c'.pc.isGone with
      | false => exact ⟨i,c',hself,hdead,hs.st.trans hkc.symm⟩
      | true =>
        rw [hkc,(hs.freed hdead).1] at hk
        cases hk
    · obtain ⟨j,d,hd,hlive,rfl⟩ := h.owned k (hs.owned k hkc hk)
      have hj : j ≠ i := by
        rintro rfl
        exact hkc (congrArg Conn.st (Option.some.inj (hd.symm.trans hc)))
      exact ⟨j,d,(hother hj).trans hd,hlive,rfl⟩
  · intro j l d e hd he hdlive helive hst
    rcases hcases hd with ⟨rfl,rfl⟩ | ⟨hj,hd⟩ <;> rcases hcases he with ⟨rfl,rfl⟩ | ⟨hl,he⟩
    · rfl
    · exact absurd (hst.symm.trans hs.st) (hne hl he helive)
    · exact absurd (hst.trans hs.st) (hne hj hd hdlive)
    · exact h.apart j l d e hd he hdlive helive hst
  · intro j d hd hpolled
    rcases hcases hd with ⟨rfl,rfl⟩ | ⟨hj,hd⟩
    · exact hs.polls hpolled
    · exact h.polls j d hd hpolled
  · intro j d hd hown hlive
    rw [hs.conns,List.length_set]
    rcases hcases hd with ⟨rfl,rfl⟩ | ⟨hj,hd⟩
    · exact h.last _ c hc (hs.own hown) hgone
    · exact h.last j d hd hown hlive
  · intro j d hd
    rcases hcases hd with ⟨rfl,rfl⟩ | ⟨hj,hd⟩
    · rcases hs.mutex with ⟨hmtx,hin⟩ | ⟨-,hmtx,hin⟩ | ⟨-,hmtx,hin⟩
      · rw [hmtx,hin]
        exact h.entered _ c hc
      · simp [hmtx,hin]
      · simp [hmtx,hin]
    · rw [h.entered j d hd]
      rcases hs.mutex with ⟨hmtx,-⟩ | ⟨hbefore,hmtx,-⟩ | ⟨hbefore,hmtx,-⟩
      · rw [hmtx]
      · simp [hmtx,hbefore,Ne.symm hj]
      · simp [hmtx,hbefore,Ne.symm hj]
  · intro j hj
    rw [hs.conns,List.length_set]
    rcases hs.mutex with ⟨hmtx,-⟩ | ⟨-,hmtx,-⟩ | ⟨-,hmtx,-⟩
    · exact h.holder j (hmtx ▸ hj)
    · cases hmtx.symm.trans hj
      exact hi
    · cases hmtx.symm.trans hj

theorem notMem_linkedOf (h : Orderly s) (hc : s.conns[i]? = some c) (hgone : c.pc.isGone = false)
    (hlinked : c.pc.linked = false) : c.st ∉ linkedOf s.conns := by
  intro hmem
  obtain ⟨j,d,hd,hdlinked,hst⟩ := mem_linkedOf hmem
  obtain rfl := h.apart j i d c hd hc (isGone_of_linked hdlinked) hgone hst
  cases hd.symm.trans hc
  cases hlinked.symm.trans hdlinked

/-- Where a linked stream is. -/
theorem heap_of_linked (h : Orderly s) {k : κ} (hk : k ∈ linkedOf s.conns) :
    ∃ x, s.heap k = some x := by
  obtain ⟨j,d,hd,hlinked,rfl⟩ := mem_linkedOf hk
  obtain ⟨x,hx,-⟩ := h.live j d hd (isGone_of_linked hlinked)
  exact ⟨x,hx⟩

/-- Apart from the stream `st`, at most the links of streams in the list are written. -/
def Spares (s s' : System κ) (st : κ) : Prop :=
  ∀ k, k ≠ st → s'.heap k = s.heap k ∨
    (k ∈ linkedOf s.conns ∧ ∃ y l, s.heap k = some y ∧ s'.heap k = some { y with links := l })

theorem Spares.lives (h : Orderly s) {st : κ} (hs : Spares s s' st) (hd : s.conns[j]? = some d)
    (hgone : d.pc.isGone = false) (hne : d.st ≠ st) (hlives : Lives s.heap d) :
    Lives s'.heap d := by
  rcases hs d.st hne with hsame | ⟨hmem,y,l,hy,hy'⟩
  · rwa [Lives,hsame]
  · obtain ⟨x,hx,hbooks,-⟩ := hlives
    cases hx.symm.trans hy
    refine ⟨_,hy',hbooks,fun hfresh => ?_⟩
    cases hlinked : d.pc.linked with
    | false => exact absurd hmem (h.notMem_linkedOf hd hgone hlinked)
    | true => cases hpc : d.pc <;> simp_all [fresh,Pc.linked]

theorem Spares.isSome {st k : κ} (hs : Spares s s' st) (hne : k ≠ st) (hk : (s'.heap k).isSome) :
    (s.heap k).isSome := by
  rcases hs k hne with hsame | ⟨-,y,l,hy,-⟩
  · rwa [← hsame]
  · rw [hy]
    rfl

/-- A step that leaves the connection with its stream. -/
theorem goes (h : Orderly s) (hc : s.conns[i]? = some c) (c' : Conn κ)
    (hgone : c.pc.isGone = false)
    (hst : c'.st = c.st) (hconns : s'.conns = s.conns.set i c') (hfaulted : s'.faulted = s.faulted)
    (hspares : Spares s s' c.st) (hgone' : c'.pc.isGone = false) (hself : Lives s'.heap c')
    (hpolls : polled c'.pc → c'.own = false) (hown : c'.own = false → c.own = false)
    (hmutex : (s'.streamMtx = s.streamMtx ∧ c'.pc.inside = c.pc.inside) ∨
      (s.streamMtx = none ∧ s'.streamMtx = some i ∧ c'.pc.inside = true) ∨
      (s.streamMtx = some i ∧ s'.streamMtx = none ∧ c'.pc.inside = false))
    (hshaped : Shaped s') : Orderly s' := by
  refine h.next hc c' hgone ⟨hst,hconns,hfaulted,fun _ => hself,fun hdead => ?_,?_,?_,hpolls,hown,
    hmutex⟩ hshaped
  · cases hgone'.symm.trans hdead
  · exact fun j d hd hdgone hne hlives => hspares.lives h hd hdgone hne hlives
  · exact fun k hne hk => hspares.isSome hne hk

/-- Inside the lock a thread has the list as its place says. -/
theorem shape (h : Orderly s) (hc : s.conns[i]? = some c) (hin : c.pc.inside = true) :
    s.streamMtx = some i ∧ Shape s.cells s.streams (linkedOf s.conns) c.st c.pc := by
  have hmtx := (h.entered i c hc).mp hin
  have hshaped := h.shaped
  unfold Shaped at hshaped
  rw [hmtx] at hshaped
  exact ⟨hmtx,hshaped c hc⟩

theorem shaped_of_holder (hmtx : s.streamMtx = some i) (hc : s.conns[i]? = some c)
    (hshape : Shape s.cells s.streams (linkedOf s.conns) c.st c.pc) : Shaped s := by
  unfold Shaped
  rw [hmtx]
  intro d hd
  cases hc.symm.trans hd
  exact hshape

/-- A step inside the lock. -/
theorem relinks (h : Orderly s) (hc : s.conns[i]? = some c) (pc : Pc κ) (hin : c.pc.inside = true)
    (hin' : pc.inside = true) (hstage : stage pc = stage c.pc) (hpolled : polled pc → polled c.pc)
    (hconns : s'.conns = s.conns.set i { c with pc }) (hfaulted : s'.faulted = s.faulted)
    (hmtx : s'.streamMtx = s.streamMtx) (hspares : Spares s s' c.st)
    (hself : ∃ x l, s.heap c.st = some x ∧ s'.heap c.st = some { x with links := l } ∧
      (fresh pc → l = ⟨none,none⟩))
    (hshape : Shape s'.cells s'.streams (linkedOf s'.conns) c.st pc) : Orderly s' := by
  have hgone := isGone_of_inside hin
  have hget : s'.conns[i]? = some { c with pc } := by
    rw [hconns,List.getElem?_set_self (List.getElem?_eq_some_iff.mp hc).1]
  refine h.goes hc { c with pc } hgone rfl hconns hfaulted hspares (isGone_of_inside hin')
    ?_ (fun hp => h.polls i c hc (hpolled hp)) id (Or.inl ⟨hmtx,hin'.trans hin.symm⟩)
    (shaped_of_holder (hmtx.trans (h.shape hc hin).1) hget hshape)
  obtain ⟨x,l,hx,hx',hfresh⟩ := hself
  obtain ⟨y,hy,hbooks,-⟩ := h.live i c hc hgone
  cases hx.symm.trans hy
  exact ⟨_,hx',hbooks.goto (Or.inl hstage),hfresh⟩

/-- A step outside the lock, which does not touch the links of a stream in the list. -/
theorem shaped_outside (h : Orderly s) (hc : s.conns[i]? = some c) (c' : Conn κ)
    (hgone : c.pc.isGone = false)
    (hin : c.pc.inside = false) (hst : c'.st = c.st) (hconns : s'.conns = s.conns.set i c')
    (hlinked : c'.pc.linked = c.pc.linked) (hmtx : s'.streamMtx = s.streamMtx)
    (hstreams : s'.streams = s.streams)
    (hcells : ∀ k, (k = c.st → c.pc.linked = true) → s'.cells k = s.cells k) : Shaped s' := by
  have hsame : linkedOf s'.conns = linkedOf s.conns := by
    rw [hconns]
    exact linkedOf_set hc hst hlinked
  have hlist : ∀ k ∈ linkedOf s.conns, s'.cells k = s.cells k := by
    refine fun k hk => hcells k fun heq => ?_
    cases hl : c.pc.linked with
    | true => rfl
    | false => exact absurd (heq ▸ hk) (h.notMem_linkedOf hc hgone hl)
  have hshaped := h.shaped
  unfold Shaped at hshaped ⊢
  rw [hmtx,hsame,hstreams]
  split at hshaped
  · exact hshaped.congr hlist
  · next j hj =>
    intro d hd
    have hji : j ≠ i := by
      rintro rfl
      cases hin.symm.trans ((h.entered j c hc).mpr hj)
    rw [hconns,List.getElem?_set_ne (Ne.symm hji)] at hd
    refine (hshaped d hd).congr fun k hk => ?_
    rcases hk with rfl | hk
    · refine hcells d.st fun heq => absurd ?_ hji
      exact h.apart j i d c hd hc (isGone_of_inside ((h.entered j d hd).mpr hj)) hgone heq
    · exact hlist k hk

/-- A step outside the lock that leaves the connection with its stream. -/
theorem outside (h : Orderly s) (hc : s.conns[i]? = some c) (c' : Conn κ)
    (hgone : c.pc.isGone = false)
    (hin : c.pc.inside = false) (hst : c'.st = c.st) (hconns : s'.conns = s.conns.set i c')
    (hfaulted : s'.faulted = s.faulted) (hmtx : s'.streamMtx = s.streamMtx)
    (hstreams : s'.streams = s.streams) (hgone' : c'.pc.isGone = false)
    (hin' : c'.pc.inside = false) (hlinked : c'.pc.linked = c.pc.linked)
    (hpolls : polled c'.pc → c'.own = false) (hown : c'.own = false → c.own = false)
    (hfresh : fresh c'.pc = false) {x x' : Stream κ} (hx : s.heap c.st = some x)
    (hx' : s'.heap c.st = some x') (hlinks : x'.links = x.links)
    (hheap : ∀ k, k ≠ c.st → s'.heap k = s.heap k) (hbooks : Books c' x'.sendFd) :
    Orderly s' := by
  refine h.goes hc c' hgone hst hconns hfaulted (fun k hk => Or.inl (hheap k hk)) hgone'
    ⟨x',hst ▸ hx',hbooks,fun hf => ?_⟩ hpolls hown (Or.inl ⟨hmtx,hin'.trans hin.symm⟩) ?_
  · cases hfresh.symm.trans hf
  · refine h.shaped_outside hc c' hgone hin hst hconns hlinked hmtx hstreams fun k _ => ?_
    unfold System.cells
    by_cases hk : k = c.st
    · rw [hk,hx,hx',Option.map_some,Option.map_some,hlinks]
    · rw [hheap k hk]

theorem locks (h : Orderly s) (hc : s.conns[i]? = some c) (pc : Pc κ) (hgone : c.pc.isGone = false)
    (hin' : pc.inside = true) (hstage : stage pc = stage c.pc) (hpolled : polled pc → polled c.pc)
    (hfresh : fresh pc → fresh c.pc) (hlinked : pc.linked = c.pc.linked)
    (hpc : ∀ cell head ks st, IsList cell head ks → Shape (κ := κ) cell head ks st pc) :
    Orderly (s.lock i c pc) := by
  unfold System.lock
  cases hmtx : s.streamMtx with
  | some j => exact h
  | none =>
    have hi := (List.getElem?_eq_some_iff.mp hc).1
    obtain ⟨x,hx,hbooks,hxfresh⟩ := h.live i c hc hgone
    have hlist := h.shaped
    unfold Shaped at hlist
    rw [hmtx] at hlist
    refine h.goes hc { c with pc } hgone rfl rfl rfl (fun k _ => Or.inl rfl)
      (isGone_of_inside hin') ⟨x,hx,hbooks.goto (Or.inl hstage),fun hf => hxfresh (hfresh hf)⟩
      (fun hp => h.polls i c hc (hpolled hp)) id (Or.inr (Or.inl ⟨hmtx,rfl,hin'⟩)) ?_
    refine shaped_of_holder (i := i) (c := { c with pc }) rfl (List.getElem?_set_self hi)
      (hpc _ _ _ _ ?_)
    have hsame : linkedOf (s.conns.set i { c with pc }) = linkedOf s.conns :=
      linkedOf_set hc rfl hlinked
    exact hsame ▸ hlist

theorem unlocks (h : Orderly s) (hc : s.conns[i]? = some c) (pc : Pc κ) (hin : c.pc.inside = true)
    (hin' : pc.inside = false) (hgone' : pc.isGone = false) (hstage : stage pc = stage c.pc)
    (hpolled : polled pc → polled c.pc) (hfresh : fresh pc = false)
    (hlinked : pc.linked = c.pc.linked)
    (hpc : ∀ cell head ks st, Shape (κ := κ) cell head ks st c.pc → IsList cell head ks) :
    Orderly (s.unlock.goto i c pc) := by
  have hgone := isGone_of_inside hin
  obtain ⟨hmtx,hshape⟩ := h.shape hc hin
  obtain ⟨x,hx,hbooks,-⟩ := h.live i c hc hgone
  refine h.goes hc { c with pc } hgone rfl rfl rfl (fun k _ => Or.inl rfl) hgone'
    ⟨x,hx,hbooks.goto (Or.inl hstage),fun hf => ?_⟩ (fun hp => h.polls i c hc (hpolled hp)) id
    (Or.inr (Or.inr ⟨hmtx,rfl,hin'⟩)) ?_
  · cases hfresh.symm.trans hf
  · have hsame : linkedOf (s.conns.set i { c with pc }) = linkedOf s.conns :=
      linkedOf_set hc rfl hlinked
    show IsList s.cells s.streams (linkedOf (s.conns.set i { c with pc }))
    rw [hsame]
    exact hpc _ _ _ _ hshape

/-- A thread inside the lock goes on without a write to a stream. -/
theorem rereads (h : Orderly s) (hc : s.conns[i]? = some c) (pc : Pc κ) (hin : c.pc.inside = true)
    (hin' : pc.inside = true) (hstage : stage pc = stage c.pc) (hpolled : polled pc → polled c.pc)
    (hfresh : fresh pc → fresh c.pc) {streams : Option κ}
    (hshape : Shape s.cells streams (linkedOf (s.conns.set i { c with pc })) c.st pc) :
    Orderly ({ s with streams }.goto i c pc) := by
  obtain ⟨x,hx,hbooks,hxfresh⟩ := h.live i c hc (isGone_of_inside hin)
  exact h.relinks hc pc hin hin' hstage hpolled rfl rfl rfl (fun k _ => Or.inl rfl)
    ⟨x,x.links,hx,hx,fun hf => hxfresh (hfresh hf)⟩ hshape

theorem cells_eq {k : κ} {x : Stream κ} (hx : s.heap k = some x) : s.cells k = some x.links := by
  rw [System.cells,hx]
  rfl

section Writes

variable [DecidableEq κ]

theorem cells_store_next {k : κ} {x : Stream κ} (hx : s.heap k = some x) (next : Option κ) :
    (s.store k { x with links := { x.links with next } }).cells = setNext s.cells k next := by
  funext k'
  unfold System.cells System.store setNext
  by_cases hk : k' = k
  · subst hk
    simp [hx]
  · simp [hk]

theorem cells_store_prev {k : κ} {x : Stream κ} (hx : s.heap k = some x) (prev : Option κ) :
    (s.store k { x with links := { x.links with prev } }).cells = setPrev s.cells k prev := by
  funext k'
  unfold System.cells System.store setPrev
  by_cases hk : k' = k
  · subst hk
    simp [hx]
  · simp [hk]

/-- A write to a stream in the list, by a thread inside the lock. -/
theorem rewrites (h : Orderly s) (hc : s.conns[i]? = some c) (pc : Pc κ) (hin : c.pc.inside = true)
    (hin' : pc.inside = true) (hstage : stage pc = stage c.pc) (hpolled : polled pc → polled c.pc)
    (hfresh : fresh pc → fresh c.pc) {k : κ} {y : Stream κ} {l : Links κ}
    (hk : k ∈ linkedOf s.conns) (hne : k ≠ c.st) (hy : s.heap k = some y)
    (hshape : Shape (s.store k { y with links := l }).cells s.streams
      (linkedOf (s.conns.set i { c with pc })) c.st pc) :
    Orderly ((s.store k { y with links := l }).goto i c pc) := by
  obtain ⟨x,hx,hbooks,hxfresh⟩ := h.live i c hc (isGone_of_inside hin)
  refine h.relinks hc pc hin hin' hstage hpolled rfl rfl rfl (fun k' hk' => ?_)
    ⟨x,x.links,hx,?_,fun hf => hxfresh (hfresh hf)⟩ hshape
  · by_cases heq : k' = k
    · subst heq
      exact Or.inr ⟨hk,y,l,hy,Function.update_self ..⟩
    · exact Or.inl (Function.update_of_ne heq _ _)
  · exact (Function.update_of_ne (Ne.symm hne) _ _).trans hx

variable {st : κ} {own : Bool} {calls : List Call}

theorem linkFirst (h : Orderly s) (hc : s.conns[i]? = some ⟨st,.linkFirst,own,calls⟩) :
    Orderly (s.sbStreamLink i ⟨st,.linkFirst,own,calls⟩) := by
  have hlist : IsList s.cells s.streams (linkedOf s.conns) := (h.shape hc rfl).2
  unfold System.sbStreamLink
  dsimp only
  split
  · next st2 hst2 =>
    refine h.rereads hc (.linkWalk st2) rfl rfl rfl id id ?_
    rw [linkedOf_goto hc (.linkWalk st2) rfl]
    exact ⟨hlist,IsList.head_mem (hst2 ▸ hlist)⟩
  · next hnone =>
    refine h.rereads hc .linkHead rfl rfl rfl id id ?_
    rw [linkedOf_goto hc .linkHead rfl]
    exact ⟨hnone,IsList.eq_nil (hnone ▸ hlist)⟩

theorem linkWalk (h : Orderly s) {st2 : κ} (hc : s.conns[i]? = some ⟨st,.linkWalk st2,own,calls⟩) :
    Orderly (s.sbStreamLink i ⟨st,.linkWalk st2,own,calls⟩) := by
  obtain ⟨hlist,hmem⟩ := (h.shape hc rfl).2
  obtain ⟨x,hx⟩ := h.heap_of_linked hmem
  simp only [System.sbStreamLink,System.access,hx]
  split
  · next st3 hnext =>
    refine h.rereads hc (.linkWalk st3) rfl rfl rfl id id ?_
    rw [linkedOf_goto hc (.linkWalk st3) rfl]
    exact ⟨hlist,hlist.segment.next_mem hmem (cells_eq hx) hnext⟩
  · next hnext =>
    refine h.rereads hc (.linkNext st2) rfl rfl rfl id id ?_
    rw [linkedOf_goto hc (.linkNext st2) rfl]
    exact ⟨hlist,hlist.segment.getLast_of_next hmem (cells_eq hx) hnext⟩

theorem linkNext (h : Orderly s) {st2 : κ} (hc : s.conns[i]? = some ⟨st,.linkNext st2,own,calls⟩) :
    Orderly (s.sbStreamLink i ⟨st,.linkNext st2,own,calls⟩) := by
  obtain ⟨hlist,hlast⟩ := (h.shape hc rfl).2
  have hmem := List.mem_of_getLast? hlast
  obtain ⟨x,hx⟩ := h.heap_of_linked hmem
  simp only [System.sbStreamLink,System.access,hx]
  refine h.rewrites hc (.linkPrev st2) rfl rfl rfl id id hmem
    (ne_of_mem_of_not_mem hmem (h.notMem_linkedOf hc rfl rfl)) hx ?_
  rw [linkedOf_goto hc (.linkPrev st2) rfl,cells_store_next hx]
  obtain ⟨hhead,hsegment⟩ := hlist.setNext_last h.nodup_linkedOf hlast st
  exact ⟨hhead,hsegment,hlast⟩

theorem linkPrev (h : Orderly s) {st2 : κ} (hc : s.conns[i]? = some ⟨st,.linkPrev st2,own,calls⟩) :
    Orderly (s.sbStreamLink i ⟨st,.linkPrev st2,own,calls⟩) := by
  obtain ⟨hhead,hsegment,hlast⟩ := (h.shape hc rfl).2
  obtain ⟨x,hx,-,hfresh⟩ := h.live i _ hc rfl
  have hcell : s.cells st = some ⟨none,none⟩ := (cells_eq hx).trans (congrArg some (hfresh rfl))
  have hset : linkedOf (s.conns.set i ⟨st,.unlockLinked,own,calls⟩) = linkedOf s.conns++[st] :=
    linkedOf_set_last hc (h.last i _ hc (h.polls i _ hc rfl) rfl) rfl rfl rfl
  simp only [System.sbStreamLink,System.access,hx]
  refine h.relinks hc .unlockLinked rfl rfl rfl id rfl rfl rfl
    (fun k hk => Or.inl (Function.update_of_ne hk _ _))
    ⟨x,_,hx,Function.update_self ..,fun hf => (by cases hf)⟩ ?_
  show IsList (s.store st _).cells s.streams (linkedOf (s.conns.set i _))
  rw [hset,cells_store_prev hx]
  exact isList_append hhead hsegment hlast (h.notMem_linkedOf hc rfl rfl) hcell

theorem linkHead (h : Orderly s) (hc : s.conns[i]? = some ⟨st,.linkHead,own,calls⟩) :
    Orderly (s.sbStreamLink i ⟨st,.linkHead,own,calls⟩) := by
  obtain ⟨-,hnil⟩ := (h.shape hc rfl).2
  obtain ⟨x,hx,-,hfresh⟩ := h.live i _ hc rfl
  have hcell : s.cells st = some ⟨none,none⟩ := (cells_eq hx).trans (congrArg some (hfresh rfl))
  have hset : linkedOf (s.conns.set i ⟨st,.unlockLinked,own,calls⟩) = linkedOf s.conns++[st] :=
    linkedOf_set_last hc (h.last i _ hc (h.polls i _ hc rfl) rfl) rfl rfl rfl
  refine h.rereads hc .unlockLinked rfl rfl rfl id (fun hf => (by cases hf)) ?_
  rw [hset,hnil]
  exact isList_singleton hcell

theorem sbStreamLink (h : Orderly s) (hc : s.conns[i]? = some c) :
    Orderly (s.sbStreamLink i c) := by
  obtain ⟨st,pc,own,calls⟩ := c
  cases pc with
  | lockToLink => exact h.locks hc .linkFirst rfl rfl rfl id id rfl fun _ _ _ _ hl => hl
  | linkFirst => exact h.linkFirst hc
  | linkWalk st2 => exact h.linkWalk hc
  | linkNext st2 => exact h.linkNext hc
  | linkPrev st2 => exact h.linkPrev hc
  | linkHead => exact h.linkHead hc
  | unlockLinked => exact h.unlocks hc .create rfl rfl rfl rfl id rfl rfl fun _ _ _ _ hl => hl
  | _ => exact h

theorem unlinkNext (h : Orderly s) (hc : s.conns[i]? = some ⟨st,.unlinkNext,own,calls⟩) :
    Orderly (s.sbStreamUnlink i ⟨st,.unlinkNext,own,calls⟩) := by
  have hlist : IsList s.cells s.streams (linkedOf s.conns) := (h.shape hc rfl).2
  obtain ⟨x,hx,-⟩ := h.live i _ hc rfl
  obtain ⟨xs,ys,hks,hset⟩ := linkedOf_set_out hc ⟨st,.unlinkPrev,own,calls⟩ rfl rfl
  have hnodup := hks ▸ h.nodup_linkedOf
  rw [hks] at hlist
  have hlinks := (cells_eq hx).symm.trans hlist.segment.cell_eq
  rw [Option.or_none,Option.or_none,Option.some.injEq] at hlinks
  simp only [System.sbStreamUnlink,System.access,hx,hlinks]
  cases ys with
  | nil =>
    refine h.rereads hc .unlinkPrev rfl rfl rfl (fun hp => (by cases hp))
      (fun hf => (by cases hf)) ?_
    rw [hset]
    exact ⟨xs,[],rfl,hlist.bypassed_end⟩
  | cons y ys =>
    have hmem : y ∈ linkedOf s.conns := by simp [hks]
    have hne : y ≠ st := fun heq =>
      (List.nodup_cons.mp (List.nodup_append.mp hnodup).2.1).1 (by simp [heq])
    obtain ⟨z,hz⟩ := h.heap_of_linked hmem
    simp only [List.head?_cons,hz]
    refine h.rewrites hc .unlinkPrev rfl rfl rfl (fun hp => (by cases hp))
      (fun hf => (by cases hf)) hmem hne hz ?_
    rw [hset,cells_store_prev hz]
    exact ⟨xs,y::ys,rfl,hlist.bypassed hnodup⟩

theorem unlinkPrev (h : Orderly s) (hc : s.conns[i]? = some ⟨st,.unlinkPrev,own,calls⟩) :
    Orderly (s.sbStreamUnlink i ⟨st,.unlinkPrev,own,calls⟩) := by
  obtain ⟨xs,ys,hks,hbypassed⟩ := (h.shape hc rfl).2
  have hout : st ∉ linkedOf s.conns := h.notMem_linkedOf hc rfl rfl
  have hnodup : (xs++st::ys).Nodup :=
    (List.perm_middle.nodup_iff).mpr (List.nodup_cons.mpr ⟨hks ▸ hout,hks ▸ h.nodup_linkedOf⟩)
  obtain ⟨x,hx,-⟩ := h.live i _ hc rfl
  have hlinks := (cells_eq hx).symm.trans hbypassed.own
  rw [Option.some.injEq] at hlinks
  simp only [System.sbStreamUnlink,System.access,hx,hlinks]
  rcases List.eq_nil_or_concat xs with rfl | ⟨front,y,rfl⟩
  · refine h.rereads hc .unlinkHead rfl rfl rfl id id ?_
    rw [linkedOf_goto hc .unlinkHead rfl]
    exact ⟨[],ys,hks,hbypassed.detached_start⟩
  · rw [List.concat_eq_append] at hks hbypassed hnodup ⊢
    have hmem : y ∈ linkedOf s.conns := by simp [hks]
    obtain ⟨z,hz⟩ := h.heap_of_linked hmem
    simp only [List.getLast?_append,List.getLast?_singleton,Option.some_or,hz]
    refine h.rewrites hc .unlinkHead rfl rfl rfl id id hmem (ne_of_mem_of_not_mem hmem hout) hz ?_
    rw [linkedOf_goto hc .unlinkHead rfl,cells_store_next hz]
    exact ⟨front++[y],ys,hks,hbypassed.detached hnodup⟩

theorem unlinkHead (h : Orderly s) (hc : s.conns[i]? = some ⟨st,.unlinkHead,own,calls⟩) :
    Orderly (s.sbStreamUnlink i ⟨st,.unlinkHead,own,calls⟩) := by
  obtain ⟨xs,ys,hks,hdetached⟩ := (h.shape hc rfl).2
  have hout : st ∉ linkedOf s.conns := h.notMem_linkedOf hc rfl rfl
  obtain ⟨x,hx,-⟩ := h.live i _ hc rfl
  have hlinks := (cells_eq hx).symm.trans hdetached.own
  rw [Option.some.injEq] at hlinks
  unfold System.sbStreamUnlink
  dsimp only
  split
  · next hhead =>
    simp only [System.access,hx,hlinks]
    refine h.rereads hc .unlockUnlinked rfl rfl rfl id id ?_
    rw [linkedOf_goto hc .unlockUnlinked rfl,hks]
    rw [hhead] at hdetached
    exact hdetached.isList_of_head fun hmem => hout (hks ▸ List.mem_append_left _ hmem)
  · next hhead =>
    refine h.rereads hc .unlockUnlinked rfl rfl rfl id id ?_
    rw [linkedOf_goto hc .unlockUnlinked rfl,hks]
    exact hdetached.isList_of_ne hhead

theorem sbStreamUnlink (h : Orderly s) (hc : s.conns[i]? = some c) :
    Orderly (s.sbStreamUnlink i c) := by
  obtain ⟨st,pc,own,calls⟩ := c
  cases pc with
  | lockToUnlink =>
    exact h.locks hc .unlinkNext rfl rfl rfl (fun hp => (by cases hp)) (fun hf => (by cases hf)) rfl
      fun _ _ _ _ hl => hl
  | unlinkNext => exact h.unlinkNext hc
  | unlinkPrev => exact h.unlinkPrev hc
  | unlinkHead => exact h.unlinkHead hc
  | unlockUnlinked => exact h.unlocks hc .emitClose rfl rfl rfl rfl id rfl rfl fun _ _ _ _ hl => hl
  | _ => exact h

/-- The stream goes, and nothing points at it. -/
theorem frees (h : Orderly s) (hc : s.conns[i]? = some ⟨st,.free,own,calls⟩) :
    Orderly (s.sbStreamDestroy i ⟨st,.free,own,calls⟩) := by
  obtain ⟨x,hx,hbooks,-⟩ := h.live i _ hc rfl
  have hheap : ∀ k, k ≠ st → Function.update s.heap st none k = s.heap k :=
    fun k hk => Function.update_of_ne hk _ _
  simp only [System.sbStreamDestroy,System.access,hx]
  refine h.next hc ⟨st,.gone,own,calls++[.free]⟩ rfl
    ⟨rfl,rfl,rfl,fun hlive => (by cases hlive),fun _ => ⟨Function.update_self ..,hbooks.free⟩,?_,?_,
      fun hp => (by cases hp),id,Or.inl ⟨rfl,rfl⟩⟩ ?_
  · intro j d _ _ hne hlives
    obtain ⟨y,hy,hrest⟩ := hlives
    exact ⟨y,(hheap _ hne).trans hy,hrest⟩
  · exact fun k hne hk => hheap k hne ▸ hk
  · refine h.shaped_outside hc ⟨st,.gone,own,calls++[.free]⟩ rfl rfl rfl rfl rfl rfl rfl
      fun k hk => ?_
    have hne : k ≠ st := fun heq => (by cases hk heq)
    exact congrArg (Option.map Stream.links) (hheap k hne)

theorem sbStreamDestroy (h : Orderly s) (hc : s.conns[i]? = some c) :
    Orderly (s.sbStreamDestroy i c) := by
  obtain ⟨st,pc,own,calls⟩ := c
  cases pc with
  | emitClose =>
    obtain ⟨x,hx,hbooks,-⟩ := h.live i _ hc rfl
    simp only [System.sbStreamDestroy,System.access,hx]
    exact h.outside hc ⟨st,.closeSocket,own,calls⟩ rfl rfl rfl rfl rfl rfl rfl rfl rfl rfl
      (fun hp => (by cases hp)) id rfl hx hx rfl (fun _ _ => rfl) (hbooks.goto (Or.inl rfl))
  | closeSocket =>
    obtain ⟨x,hx,hbooks,-⟩ := h.live i _ hc rfl
    simp only [System.sbStreamDestroy,System.access,hx]
    exact h.outside hc ⟨st,.closeFile,own,calls++[.closeSocket]⟩ rfl rfl rfl rfl rfl rfl rfl
      rfl rfl rfl (fun hp => (by cases hp)) id rfl hx hx rfl (fun _ _ => rfl) hbooks.closeSocket
  | closeFile =>
    obtain ⟨x,hx,hbooks,-⟩ := h.live i _ hc rfl
    simp only [System.sbStreamDestroy,System.access,hx]
    split
    · next hfile =>
      rw [hfile] at hbooks
      exact h.outside hc ⟨st,.free,own,calls++[.closeFile]⟩ rfl rfl rfl rfl rfl rfl rfl
        rfl rfl rfl (fun hp => (by cases hp)) id rfl hx hx rfl (fun _ _ => rfl)
        (hfile ▸ hbooks.closeFile)
    · next hfile =>
      rw [Bool.not_eq_true] at hfile
      rw [hfile] at hbooks
      exact h.outside hc ⟨st,.free,own,calls⟩ rfl rfl rfl rfl rfl rfl rfl
        rfl rfl rfl (fun hp => (by cases hp)) id rfl hx hx rfl (fun _ _ => rfl)
        (hfile ▸ hbooks.noFile)
  | free => exact h.frees hc
  | _ => exact h

/-- A stream outside the lock changes in itself, but not in its links. -/
theorem rests (h : Orderly s) (hc : s.conns[i]? = some c) (c' : Conn κ) (x' : Stream κ)
    (hgone : c.pc.isGone = false)
    (hin : c.pc.inside = false) (hst : c'.st = c.st) (hgone' : c'.pc.isGone = false)
    (hin' : c'.pc.inside = false) (hlinked : c'.pc.linked = c.pc.linked)
    (hpolls : polled c'.pc → c'.own = false) (hown : c'.own = false → c.own = false)
    (hfresh : fresh c'.pc = false) {x : Stream κ} (hx : s.heap c.st = some x)
    (hlinks : x'.links = x.links) (hbooks : Books c' x'.sendFd) :
    Orderly { s.store c.st x' with conns := s.conns.set i c' } :=
  h.outside hc c' hgone hin hst rfl rfl rfl rfl hgone' hin' hlinked hpolls hown hfresh hx
    (Function.update_self ..) hlinks (fun _ hk => Function.update_of_ne hk _ _) hbooks

theorem emitConnect (h : Orderly s) (hc : s.conns[i]? = some ⟨st,.connect,own,calls⟩)
    (answer : Answer) : Orderly (s.emitConnect i ⟨st,.connect,own,calls⟩ answer) := by
  obtain ⟨x,hx,hbooks,-⟩ := h.live i _ hc rfl
  simp only [System.emitConnect,System.access,hx]
  split_ifs
  · exact h.rests hc ⟨st,.lockToUnlink,own,calls⟩ { x with closing := _ } rfl rfl rfl rfl rfl rfl
      (fun hp => (by cases hp)) id rfl hx rfl (hbooks.goto (Or.inr ⟨rfl,rfl⟩))
  · exact h.rests hc ⟨st,.recv,own,calls⟩ { x with closing := _ } rfl rfl rfl rfl rfl rfl
      (fun hp => (by cases hp)) id rfl hx rfl (hbooks.goto (Or.inl rfl))

theorem sbStreamRecv (h : Orderly s) (hc : s.conns[i]? = some ⟨st,.recv,own,calls⟩)
    (answer : Answer) : Orderly (s.sbStreamRecv i ⟨st,.recv,own,calls⟩ answer) := by
  obtain ⟨x,hx,hbooks,-⟩ := h.live i _ hc rfl
  simp only [System.sbStreamRecv,System.access,hx]
  by_cases hfailed : answer.failed
  · rw [if_pos hfailed]
    exact h.rests hc ⟨st,.lockToUnlink,own,_⟩ { x with closing := _, sendFd := _ } rfl rfl rfl
      rfl rfl rfl
      (fun hp => (by cases hp)) id rfl hx rfl (hbooks.recv answer.file rfl)
  · rw [if_neg hfailed]
    exact h.rests hc ⟨st,.send,own,_⟩ { x with closing := _, sendFd := _ } rfl rfl rfl rfl rfl rfl
      (fun hp => (by cases hp)) id rfl hx rfl (hbooks.recv answer.file rfl)

theorem sbStreamSend (h : Orderly s) (hc : s.conns[i]? = some ⟨st,.send,own,calls⟩)
    (answer : Answer) : Orderly (s.sbStreamSend i ⟨st,.send,own,calls⟩ answer) := by
  obtain ⟨x,hx,hbooks,-⟩ := h.live i _ hc rfl
  have hstops : Orderly (s.goto i ⟨st,.send,own,calls⟩ .lockToUnlink) :=
    h.outside hc ⟨st,.lockToUnlink,own,calls⟩ rfl rfl rfl rfl rfl rfl rfl rfl rfl rfl
      (fun hp => (by cases hp)) id rfl hx hx rfl (fun _ _ => rfl) (hbooks.goto (Or.inl rfl))
  simp only [System.sbStreamSend,System.access,hx]
  split_ifs with hclosing hfailed hfile
  · exact hstops
  · exact hstops
  · rw [((Bool.and_eq_true _ _).mp hfile).1] at hbooks
    exact h.rests hc ⟨st,.send,own,calls++[.closeFile]⟩ { x with sendFd := false } rfl rfl rfl
      rfl rfl rfl
      (fun hp => (by cases hp)) id rfl hx rfl hbooks.sent
  · exact h.rests hc ⟨st,.send,own,calls⟩ { x with closing := _ } rfl rfl rfl rfl rfl rfl
      (fun hp => (by cases hp)) id rfl hx rfl hbooks

theorem create (h : Orderly s) (hc : s.conns[i]? = some ⟨st,.create,own,calls⟩)
    (answer : Answer) : Orderly (s.advance i ⟨st,.create,own,calls⟩ answer) := by
  obtain ⟨x,hx,hbooks,-⟩ := h.live i _ hc rfl
  have hown := h.polls i _ hc rfl
  simp only [System.advance]
  split_ifs
  · exact h.outside hc ⟨st,.lockToUnlink,own,calls⟩ rfl rfl rfl rfl rfl rfl rfl rfl rfl rfl
      (fun hp => (by cases hp)) id rfl hx hx rfl (fun _ _ => rfl) (hbooks.goto (Or.inr ⟨rfl,rfl⟩))
  · exact h.outside hc ⟨st,.connect,true,calls⟩ rfl rfl rfl rfl rfl rfl rfl rfl rfl rfl
      (fun hp => (by cases hp)) (fun _ => hown) rfl hx hx rfl (fun _ _ => rfl)
      (hbooks.goto (Or.inl rfl))

theorem advance (h : Orderly s) (hc : s.conns[i]? = some c) (answer : Answer) :
    Orderly (s.advance i c answer) := by
  obtain ⟨st,pc,own,calls⟩ := c
  cases pc with
  | create => exact h.create hc answer
  | connect => exact h.emitConnect hc answer
  | recv => exact h.sbStreamRecv hc answer
  | send => exact h.sbStreamSend hc answer
  | gone => exact h
  | lockToLink => exact h.sbStreamLink hc
  | linkFirst => exact h.sbStreamLink hc
  | linkWalk st2 => exact h.sbStreamLink hc
  | linkNext st2 => exact h.sbStreamLink hc
  | linkPrev st2 => exact h.sbStreamLink hc
  | linkHead => exact h.sbStreamLink hc
  | unlockLinked => exact h.sbStreamLink hc
  | lockToUnlink => exact h.sbStreamUnlink hc
  | unlinkNext => exact h.sbStreamUnlink hc
  | unlinkPrev => exact h.sbStreamUnlink hc
  | unlinkHead => exact h.sbStreamUnlink hc
  | unlockUnlinked => exact h.sbStreamUnlink hc
  | emitClose => exact h.sbStreamDestroy hc
  | closeSocket => exact h.sbStreamDestroy hc
  | closeFile => exact h.sbStreamDestroy hc
  | free => exact h.sbStreamDestroy hc

theorem accept (h : Orderly s) (hpolling : polling s.conns = false) (hst : s.heap st = none) :
    Orderly (s.accept st) := by
  have hold : ∀ {j : ℕ} {d : Conn κ}, s.conns[j]? = some d → (s.accept st).conns[j]? = some d :=
    fun hd => List.getElem?_append_left (List.getElem?_eq_some_iff.mp hd).1 ▸ hd
  have hcases : ∀ {j : ℕ} {d : Conn κ}, (s.accept st).conns[j]? = some d →
      s.conns[j]? = some d ∨ (j = s.conns.length ∧ d = ⟨st,.lockToLink,false,[]⟩) := by
    intro j d hd
    rcases Nat.lt_or_ge j s.conns.length with hj | hj
    · exact Or.inl (List.getElem?_append_left hj ▸ hd)
    · rw [System.accept,List.getElem?_append_right hj,List.getElem?_singleton] at hd
      split at hd
      · exact Or.inr ⟨by omega,(Option.some.inj hd).symm⟩
      · cases hd
  have hheap : ∀ k, k ≠ st → (s.accept st).heap k = s.heap k :=
    fun k hk => Function.update_of_ne hk _ _
  have hne : ∀ {j : ℕ} {d : Conn κ}, s.conns[j]? = some d → d.pc.isGone = false → d.st ≠ st := by
    intro j d hd hlive heq
    obtain ⟨x,hx,-⟩ := h.live j d hd hlive
    cases hst.symm.trans (heq ▸ hx)
  have hcells : ∀ k, k ≠ st → (s.accept st).cells k = s.cells k :=
    fun k hk => congrArg (Option.map Stream.links) (hheap k hk)
  refine ⟨h.sound,?_,?_,?_,?_,?_,?_,?_,?_,?_⟩
  · intro j d hd hlive
    rcases hcases hd with hd | ⟨-,rfl⟩
    · obtain ⟨x,hx,hrest⟩ := h.live j d hd hlive
      exact ⟨x,(hheap _ (hne hd hlive)).trans hx,hrest⟩
    · exact ⟨.new κ,Function.update_self ..,by constructor <;> simp [Stream.new,stage],fun _ => rfl⟩
  · intro j d hd hdead
    rcases hcases hd with hd | ⟨-,rfl⟩
    · exact h.dead j d hd hdead
    · cases hdead
  · intro k hk
    by_cases heq : k = st
    · subst heq
      exact ⟨s.conns.length,⟨k,.lockToLink,false,[]⟩,by simp [System.accept],rfl,rfl⟩
    · obtain ⟨j,d,hd,hlive,rfl⟩ := h.owned k (hheap k heq ▸ hk)
      exact ⟨j,d,hold hd,hlive,rfl⟩
  · intro j l d e hd he hdlive helive heq
    rcases hcases hd with hd | ⟨rfl,rfl⟩ <;> rcases hcases he with he | ⟨rfl,rfl⟩
    · exact h.apart j l d e hd he hdlive helive heq
    · exact absurd heq (hne hd hdlive)
    · exact absurd heq.symm (hne he helive)
    · rfl
  · intro j d hd hpolled
    rcases hcases hd with hd | ⟨-,rfl⟩
    · exact h.polls j d hd hpolled
    · rfl
  · intro j d hd hown hlive
    rcases hcases hd with hd | ⟨rfl,-⟩
    · have hbusy : polling s.conns = true := List.any_eq_true.mpr
        ⟨d,List.mem_of_getElem? hd,by rw [hown,hlive]; rfl⟩
      cases hpolling.symm.trans hbusy
    · rw [System.accept,List.length_append,List.length_singleton]
  · intro j d hd
    rcases hcases hd with hd | ⟨rfl,rfl⟩
    · exact h.entered j d hd
    · refine ⟨fun hin => (by cases hin),fun hmtx => ?_⟩
      exact absurd (h.holder _ hmtx) (Nat.lt_irrefl _)
  · intro j hj
    rw [System.accept,List.length_append]
    exact Nat.lt_add_right _ (h.holder j hj)
  · have hlinked : linkedOf (s.accept st).conns = linkedOf s.conns := by
      rw [System.accept,linkedOf_append]
      exact List.append_nil _
    have hlist : ∀ k ∈ linkedOf s.conns, (s.accept st).cells k = s.cells k := by
      intro k hk
      obtain ⟨j,d,hd,hdlinked,rfl⟩ := mem_linkedOf hk
      exact hcells _ (hne hd (isGone_of_linked hdlinked))
    have hshaped := h.shaped
    unfold Shaped at hshaped ⊢
    rw [hlinked]
    show match s.streamMtx with
      | none => IsList (s.accept st).cells s.streams (linkedOf s.conns)
      | some i => ∀ c, (s.accept st).conns[i]? = some c →
        Shape (s.accept st).cells s.streams (linkedOf s.conns) c.st c.pc
    split at hshaped
    · exact hshaped.congr hlist
    · next j hj =>
      intro d hd
      rcases hcases hd with hd | ⟨rfl,-⟩
      · refine (hshaped d hd).congr fun k hk => ?_
        rcases hk with rfl | hk
        · exact hcells _ (hne hd (isGone_of_inside ((h.entered j d hd).mpr hj)))
        · exact hlist k hk
      · exact absurd (h.holder _ hj) (Nat.lt_irrefl _)

theorem step (h : Orderly s) (move : Move κ) : Orderly (s.step move) := by
  cases move with
  | accept st =>
    rw [System.step]
    split_ifs with hbusy
    · exact h
    · rw [Bool.or_eq_true,not_or,Bool.not_eq_true,Bool.not_eq_true,Option.isSome_eq_false_iff,
        Option.isNone_iff_eq_none] at hbusy
      exact h.accept hbusy.1 hbusy.2
  | advance i answer =>
    rw [System.step]
    split
    · next c hc => exact h.advance hc answer
    · exact h

theorem run (h : Orderly s) (moves : List (Move κ)) : Orderly (s.run moves) := by
  induction moves generalizing s with
  | nil => exact h
  | cons move moves ih => exact ih (h.step move)

end Writes

/-- Once every connection is gone, nothing is left of any of them. -/
theorem of_gone (h : Orderly s) (hgone : ∀ c ∈ s.conns, c.pc.isGone = true) :
    s.streams = none ∧ s.streamMtx = none ∧ ∀ k, s.heap k = none := by
  have hdead : ∀ {i : ℕ} {c : Conn κ}, s.conns[i]? = some c → c.pc.isGone = false → False := by
    intro i c hc hlive
    cases hlive.symm.trans (hgone c (List.mem_of_getElem? hc))
  have hmtx : s.streamMtx = none := by
    cases hm : s.streamMtx with
    | none => rfl
    | some i =>
      have hi := List.getElem?_eq_getElem (h.holder i hm)
      exact (hdead hi (isGone_of_inside ((h.entered i _ hi).mpr hm))).elim
  have hnil : linkedOf s.conns = [] := by
    refine List.eq_nil_iff_forall_not_mem.mpr fun k hk => ?_
    obtain ⟨i,c,hc,hlinked,-⟩ := mem_linkedOf hk
    exact hdead hc (isGone_of_linked hlinked)
  have hshaped := h.shaped
  unfold Shaped at hshaped
  rw [hmtx,hnil] at hshaped
  refine ⟨hshaped.head,hmtx,fun k => ?_⟩
  cases hk : s.heap k with
  | none => rfl
  | some x =>
    obtain ⟨i,c,hc,hlive,-⟩ := h.owned k (by rw [hk]; rfl)
    exact (hdead hc hlive).elim

theorem list (h : Orderly s) (hmtx : s.streamMtx = none) :
    IsList s.cells s.streams (linkedOf s.conns) := by
  have hshaped := h.shaped
  unfold Shaped at hshaped
  rwa [hmtx] at hshaped

end Orderly

section Runs

variable [DecidableEq κ]

/-- However the threads take turns, none of them ever uses a pointer to a stream that is not
there, at most one is between the lock and the unlock, and whenever nobody is, the list of the
server goes through the streams that are linked and not yet unlinked, in the order in which their
connections came, from the first to the last and back. -/
theorem run_list (moves : List (Move κ)) :
    let s := (System.start κ).run moves
    s.faulted = false ∧
      (∀ (i j : ℕ) c d, s.conns[i]? = some c → s.conns[j]? = some d → c.pc.inside → d.pc.inside →
        i = j) ∧
      (s.streamMtx = none → IsList s.cells s.streams (linkedOf s.conns) ∧
        walk s.cells s.conns.length s.streams = linkedOf s.conns) := by
  intro s
  have h : Orderly s := orderly_start.run moves
  refine ⟨h.sound,fun i j c d hc hd hci hdj => ?_,fun hmtx => ?_⟩
  · have hi := (h.entered i c hc).mp hci
    have hj := (h.entered j d hd).mp hdj
    exact Option.some.inj (hi.symm.trans hj)
  · have hlist := h.list hmtx
    have hlength : (linkedOf s.conns).length ≤ s.conns.length := by
      rw [linkedOf,List.length_map]
      exact List.length_filter_le ..
    exact ⟨hlist,hlist.head ▸ hlist.segment.walk_eq hlength⟩

/-- However the threads take turns, a connection has its own stream until it is gone; by then its
socket is closed, its stream freed and the file it was sent closed, each once, and never more
than once before. -/
theorem run_calls (moves : List (Move κ)) :
    let s := (System.start κ).run moves
    (∀ c ∈ s.conns, c.calls.count .closeSocket ≤ 1 ∧ c.calls.count .free ≤ 1 ∧
      c.calls.count .closeFile ≤ c.calls.count .openFile ∧ c.calls.count .openFile ≤ 1 ∧
      (c.pc = .gone → c.calls.count .closeSocket = 1 ∧ c.calls.count .free = 1 ∧
        c.calls.count .closeFile = c.calls.count .openFile)) ∧
    (∀ k, (s.heap k).isSome ↔ ∃ c ∈ s.conns, c.pc ≠ .gone ∧ c.st = k) ∧
    ((∀ c ∈ s.conns, c.pc = .gone) → s.streams = none ∧ s.streamMtx = none ∧
      ∀ k, s.heap k = none) := by
  intro s
  have h : Orderly s := orderly_start.run moves
  have hisGone : ∀ {pc : Pc κ}, pc.isGone = true ↔ pc = .gone := fun {pc} => by
    cases pc <;> simp [Pc.isGone]
  have hnotGone : ∀ {pc : Pc κ}, pc.isGone = false ↔ pc ≠ .gone := fun {pc} => by
    cases pc <;> simp [Pc.isGone]
  refine ⟨fun c hmem => ?_,fun k => ⟨fun hk => ?_,?_⟩,fun hgone => ?_⟩
  · obtain ⟨i,hc⟩ := List.getElem?_of_mem hmem
    obtain ⟨sendFd,hbooks⟩ : ∃ sendFd, Books c sendFd := by
      cases hgone : c.pc.isGone with
      | true => exact ⟨false,h.dead i c hc hgone⟩
      | false =>
        obtain ⟨x,-,hbooks,-⟩ := h.live i c hc hgone
        exact ⟨x.sendFd,hbooks⟩
    obtain ⟨hsockets,hfrees,hfiles,-,hmost⟩ := hbooks
    refine ⟨?_,?_,?_,hmost,fun hgone => ?_⟩
    · rw [hsockets]
      split_ifs <;> decide
    · rw [hfrees]
      split_ifs <;> decide
    · rw [hfiles]
      exact Nat.le_add_right _ _
    · rw [hgone] at hsockets hfrees hfiles
      exact ⟨hsockets,hfrees,by simpa [stage] using hfiles.symm⟩
  · obtain ⟨i,c,hc,hlive,hst⟩ := h.owned k hk
    exact ⟨c,List.mem_of_getElem? hc,hnotGone.mp hlive,hst⟩
  · rintro ⟨c,hmem,hlive,rfl⟩
    obtain ⟨i,hc⟩ := List.getElem?_of_mem hmem
    obtain ⟨x,hx,-⟩ := h.live i c hc (hnotGone.mpr hlive)
    rw [hx]
    rfl
  · exact h.of_gone fun c hmem => hisGone.mpr (hgone c hmem)

end Runs

end StreamLists
end RemotePkgInstaller
