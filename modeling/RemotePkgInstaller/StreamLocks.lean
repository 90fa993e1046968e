import RemotePkgInstaller.Loops
import RemotePkgInstaller.StreamLists

/-! The lock of the list of streams: a thread that holds it lets it go again, whatever the others
do meanwhile.  And the loop of `sb_close_server`, which goes through the list under the lock. -/
namespace RemotePkgInstaller
namespace StreamLocks

open LinkedLists StreamLists StreamThreads

variable {κ : Type} {s : System κ} {i j : ℕ} {c d : Conn κ}

/-- A step for connection `j` leaves the others, the lock and the list alone. -/
structure Keeps (s s' : System κ) (j : ℕ) : Prop where
  mutex : s'.streamMtx = s.streamMtx
  conns : ∀ i, i ≠ j → s'.conns[i]? = s.conns[i]?
  linked : linkedOf s'.conns = linkedOf s.conns

theorem keeps_conns {s' : System κ} (hmtx : s'.streamMtx = s.streamMtx)
    (hconns : s'.conns = s.conns) : Keeps s s' j :=
  ⟨hmtx,fun _ _ => by rw [hconns],by rw [hconns]⟩

theorem keeps_set {s' : System κ} (hd : s.conns[j]? = some d) (d' : Conn κ)
    (hmtx : s'.streamMtx = s.streamMtx) (hconns : s'.conns = s.conns.set j d') (hst : d'.st = d.st)
    (hlinked : d'.pc.linked = d.pc.linked) : Keeps s s' j := by
  refine ⟨hmtx,fun i hi => ?_,?_⟩
  · rw [hconns,List.getElem?_set_ne (Ne.symm hi)]
  · rw [hconns]
    exact linkedOf_set hd hst hlinked

theorem keeps_access {k : κ} {f : Stream κ → System κ} (hf : ∀ x, Keeps s (f x) j) :
    Keeps s (s.access k f) j := by
  unfold System.access
  cases s.heap k with
  | none => exact keeps_conns rfl rfl
  | some x => exact hf x

theorem keeps_lock (hmtx : s.streamMtx = some i) (pc : Pc κ) : Keeps s (s.lock j d pc) j := by
  unfold System.lock
  rw [hmtx]
  exact keeps_conns rfl rfl

variable [DecidableEq κ]

/-- How much of the list lies ahead, with `k` itself. -/
def ahead (ks : List κ) (k : κ) : ℕ := (ks.dropWhile fun k' => k' ≠ k).length

theorem ahead_append {xs ys : List κ} {k : κ} (h : k ∉ xs) : ahead (xs++k::ys) k = ys.length+1 := by
  have hskip : ∀ a ∈ xs, decide (a ≠ k) = true := fun a ha =>
    decide_eq_true (ne_of_mem_of_not_mem ha h)
  rw [ahead,List.dropWhile_append_of_pos hskip,List.dropWhile_cons_of_neg (by simp)]
  rfl

/-- The steps that a thread has to take before it lets the lock go, at most. -/
def left (ks : List κ) : Pc κ → ℕ
  | .linkFirst => 4+ks.length
  | .linkWalk st2 => 3+ahead ks st2
  | .linkNext _ | .unlinkPrev => 3
  | .linkPrev _ | .linkHead | .unlinkHead => 2
  | .unlockLinked | .unlockUnlinked => 1
  | .unlinkNext => 4
  | _ => 0

theorem left_pos {ks : List κ} {pc : Pc κ} (h : pc.inside = true) : 0 < left ks pc := by
  cases pc <;> first | (simp only [left]; omega) | cases h

theorem left_le {ks : List κ} {pc : Pc κ} : left ks pc ≤ 4+ks.length := by
  have hahead : ∀ k, ahead ks k ≤ ks.length := fun k => (List.dropWhile_sublist _).length_le
  cases pc with
  | linkWalk st2 =>
    have := hahead st2
    simp only [left]
    omega
  | _ => simp only [left]; omega

/-- The thread has let the lock go, or it still has it with fewer steps left. -/
def Nearer (s s' : System κ) (i : ℕ) (c : Conn κ) : Prop :=
  s'.streamMtx = none ∨ s'.streamMtx = some i ∧ ∃ c', s'.conns[i]? = some c' ∧
    left (linkedOf s'.conns) c'.pc < left (linkedOf s.conns) c.pc

theorem nearer_goto {s' : System κ} (hc : s.conns[i]? = some c) (hconns : s'.conns = s.conns)
    (hmtx : s.streamMtx = some i) (hmtx' : s'.streamMtx = s.streamMtx) {pc : Pc κ}
    (hleft : left (linkedOf (s.conns.set i { c with pc })) pc < left (linkedOf s.conns) c.pc) :
    Nearer s (s'.goto i c pc) i c := by
  refine Or.inr ⟨hmtx'.trans hmtx,{ c with pc },?_,?_⟩
  · rw [System.goto,hconns]
    exact List.getElem?_set_self (List.getElem?_eq_some_iff.mp hc).1
  · rw [System.goto,hconns]
    exact hleft

/-- An access of an orderly system succeeds. -/
theorem nearer_access {k : κ} {f : Stream κ → System κ} (h : (s.access k f).faulted = false)
    (hf : ∀ x, s.heap k = some x → (f x).faulted = false → Nearer s (f x) i c) :
    Nearer s (s.access k f) i c := by
  unfold System.access at h ⊢
  cases hk : s.heap k with
  | none =>
    rw [hk] at h
    cases h
  | some x =>
    rw [hk] at h
    exact hf x hk h

variable {st : κ} {own : Bool} {calls : List Call}

theorem nearer_linkFirst (h : Orderly s) (hc : s.conns[i]? = some ⟨st,.linkFirst,own,calls⟩) :
    Nearer s (s.sbStreamLink i ⟨st,.linkFirst,own,calls⟩) i ⟨st,.linkFirst,own,calls⟩ := by
  obtain ⟨hmtx,hshape⟩ := h.shape hc rfl
  have hlist : IsList s.cells s.streams (linkedOf s.conns) := hshape
  unfold System.sbStreamLink
  dsimp only
  split
  · next st2 hst2 =>
    refine nearer_goto hc rfl hmtx rfl ?_
    rw [linkedOf_goto hc (.linkWalk st2) rfl]
    have hhead := hlist.head.symm.trans hst2
    obtain ⟨ks,hks⟩ := List.head?_eq_some_iff.mp hhead
    rw [hks]
    have hahead : ahead (st2::ks) st2 = ks.length+1 := ahead_append List.not_mem_nil
    simp only [left,hahead,List.length_cons]
    omega
  · refine nearer_goto hc rfl hmtx rfl ?_
    simp only [left]
    omega

theorem nearer_linkWalk (h : Orderly s) {st2 : κ}
    (hc : s.conns[i]? = some ⟨st,.linkWalk st2,own,calls⟩) :
    Nearer s (s.sbStreamLink i ⟨st,.linkWalk st2,own,calls⟩) i ⟨st,.linkWalk st2,own,calls⟩ := by
  obtain ⟨hmtx,hlist,hmem⟩ := h.shape hc rfl
  have hnodup := h.nodup_linkedOf
  obtain ⟨xs,ys,hks⟩ := List.append_of_mem hmem
  have hxs : st2 ∉ xs := fun hx =>
    (List.nodup_append.mp (hks ▸ hnodup)).2.2 st2 hx st2 List.mem_cons_self rfl
  refine nearer_access (h.sbStreamLink hc).sound fun x hx _ => ?_
  have hcell := (Orderly.cells_eq hx).symm.trans (hks ▸ hlist.segment).cell_eq
  rw [Option.some.injEq] at hcell
  rw [hcell]
  cases ys with
  | nil =>
    refine nearer_goto hc rfl hmtx rfl ?_
    simp only [left,hks,ahead_append hxs]
    omega
  | cons st3 ys =>
    refine nearer_goto hc rfl hmtx rfl ?_
    have hsplit : xs++st2::st3::ys = (xs++[st2])++st3::ys := by simp
    have hfront : st3 ∉ xs++[st2] := fun hx =>
      (List.nodup_append.mp (hsplit ▸ hks ▸ hnodup)).2.2 st3 hx st3 List.mem_cons_self rfl
    have hahead : ahead (xs++st2::st3::ys) st3 = ys.length+1 := by
      rw [hsplit]
      exact ahead_append hfront
    rw [linkedOf_goto hc (.linkWalk st3) rfl,hks]
    simp only [left,hahead,ahead_append hxs,List.length_cons]
    omega

/-- Where the steps left do not depend on the list, the next place has fewer. -/
theorem nearer_place {s' : System κ} (hc : s.conns[i]? = some c) (hconns : s'.conns = s.conns)
    (hmtx : s.streamMtx = some i) (hmtx' : s'.streamMtx = s.streamMtx) {pc : Pc κ}
    (hleft : ∀ ks ks', left ks pc < left ks' c.pc) : Nearer s (s'.goto i c pc) i c :=
  nearer_goto hc hconns hmtx hmtx' (hleft _ _)

theorem nearer_unlinkNext (h : Orderly s) (hc : s.conns[i]? = some ⟨st,.unlinkNext,own,calls⟩) :
    Nearer s (s.sbStreamUnlink i ⟨st,.unlinkNext,own,calls⟩) i ⟨st,.unlinkNext,own,calls⟩ := by
  obtain ⟨hmtx,-⟩ := h.shape hc rfl
  refine nearer_access (h.sbStreamUnlink hc).sound fun x _ hx => ?_
  cases hnext : x.links.next with
  | none =>
    exact nearer_place hc rfl hmtx rfl fun _ _ => by simp [left]
  | some next =>
    simp only [hnext] at hx ⊢
    exact nearer_access hx fun y _ _ => nearer_place hc rfl hmtx rfl fun _ _ => by simp [left]

theorem nearer_unlinkPrev (h : Orderly s) (hc : s.conns[i]? = some ⟨st,.unlinkPrev,own,calls⟩) :
    Nearer s (s.sbStreamUnlink i ⟨st,.unlinkPrev,own,calls⟩) i ⟨st,.unlinkPrev,own,calls⟩ := by
  obtain ⟨hmtx,-⟩ := h.shape hc rfl
  refine nearer_access (h.sbStreamUnlink hc).sound fun x _ hx => ?_
  cases hprev : x.links.prev with
  | none =>
    exact nearer_place hc rfl hmtx rfl fun _ _ => by simp [left]
  | some prev =>
    simp only [hprev] at hx ⊢
    exact nearer_access hx fun y _ _ => nearer_place hc rfl hmtx rfl fun _ _ => by simp [left]

theorem nearer_unlinkHead (h : Orderly s) (hc : s.conns[i]? = some ⟨st,.unlinkHead,own,calls⟩) :
    Nearer s (s.sbStreamUnlink i ⟨st,.unlinkHead,own,calls⟩) i ⟨st,.unlinkHead,own,calls⟩ := by
  obtain ⟨hmtx,-⟩ := h.shape hc rfl
  have hsound := (h.sbStreamUnlink hc).sound
  unfold System.sbStreamUnlink at hsound ⊢
  dsimp only at hsound ⊢
  split at hsound
  · next hhead =>
    rw [if_pos hhead]
    exact nearer_access hsound fun x _ _ =>
      nearer_place hc rfl hmtx rfl fun _ _ => by simp [left]
  · next hhead =>
    rw [if_neg hhead]
    exact nearer_place hc rfl hmtx rfl fun _ _ => by simp [left]

/-- Each step of the thread that holds the lock brings it nearer to letting it go. -/
theorem nearer_advance (h : Orderly s) (hc : s.conns[i]? = some c) (hin : c.pc.inside = true)
    (answer : Answer) : Nearer s (s.advance i c answer) i c := by
  obtain ⟨hmtx,-⟩ := h.shape hc hin
  obtain ⟨st,pc,own,calls⟩ := c
  cases pc with
  | linkFirst => exact nearer_linkFirst h hc
  | linkWalk st2 => exact nearer_linkWalk h hc
  | linkNext st2 =>
    exact nearer_access (h.sbStreamLink hc).sound fun x _ _ =>
      nearer_place hc rfl hmtx rfl fun _ _ => by simp [left]
  | linkPrev st2 =>
    exact nearer_access (h.sbStreamLink hc).sound fun x _ _ =>
      nearer_place hc rfl hmtx rfl fun _ _ => by simp [left]
  | linkHead => exact nearer_place hc rfl hmtx rfl fun _ _ => by simp [left]
  | unlockLinked => exact Or.inl rfl
  | unlinkNext => exact nearer_unlinkNext h hc
  | unlinkPrev => exact nearer_unlinkPrev h hc
  | unlinkHead => exact nearer_unlinkHead h hc
  | unlockUnlinked => exact Or.inl rfl
  | _ => cases hin

/-- A thread outside of the lock. -/
theorem keeps_advance (hd : s.conns[j]? = some d) (hin : d.pc.inside = false)
    (hmtx : s.streamMtx = some i) (answer : Answer) : Keeps s (s.advance j d answer) j := by
  obtain ⟨st,pc,own,calls⟩ := d
  cases pc with
  | lockToLink => exact keeps_lock hmtx .linkFirst
  | lockToUnlink => exact keeps_lock hmtx .unlinkNext
  | create =>
    simp only [System.advance]
    split_ifs
    · exact keeps_set hd ⟨st,.lockToUnlink,own,calls⟩ rfl rfl rfl rfl
    · exact keeps_set hd ⟨st,.connect,true,calls⟩ rfl rfl rfl rfl
  | connect =>
    refine keeps_access fun x => ?_
    split_ifs
    · exact keeps_set hd ⟨st,.lockToUnlink,own,calls⟩ rfl rfl rfl rfl
    · exact keeps_set hd ⟨st,.recv,own,calls⟩ rfl rfl rfl rfl
  | recv =>
    refine keeps_access fun x => ?_
    by_cases hfailed : answer.failed
    · rw [if_pos hfailed]
      exact keeps_set hd ⟨st,.lockToUnlink,own,_⟩ rfl rfl rfl rfl
    · rw [if_neg hfailed]
      exact keeps_set hd ⟨st,.send,own,_⟩ rfl rfl rfl rfl
  | send =>
    refine keeps_access fun x => ?_
    split_ifs
    · exact keeps_set hd ⟨st,.lockToUnlink,own,calls⟩ rfl rfl rfl rfl
    · exact keeps_set hd ⟨st,.lockToUnlink,own,calls⟩ rfl rfl rfl rfl
    · exact keeps_set hd ⟨st,.send,own,calls++[.closeFile]⟩ rfl rfl rfl rfl
    · exact keeps_set hd ⟨st,.send,own,calls⟩ rfl rfl rfl rfl
  | emitClose =>
    exact keeps_access fun x => keeps_set hd ⟨st,.closeSocket,own,calls⟩ rfl rfl rfl rfl
  | closeSocket =>
    exact keeps_access fun x => keeps_set hd ⟨st,.closeFile,own,_⟩ rfl rfl rfl rfl
  | closeFile =>
    refine keeps_access fun x => ?_
    split_ifs
    · exact keeps_set hd ⟨st,.free,own,_⟩ rfl rfl rfl rfl
    · exact keeps_set hd ⟨st,.free,own,calls⟩ rfl rfl rfl rfl
  | free => exact keeps_access fun x => keeps_set hd ⟨st,.gone,own,_⟩ rfl rfl rfl rfl
  | gone => exact keeps_conns rfl rfl
  | _ => cases hin

/-- A new connection is not in the list yet. -/
theorem keeps_accept (h : Orderly s) (hmtx : s.streamMtx = some i) (st : κ) :
    (s.accept st).streamMtx = some i ∧ (s.accept st).conns[i]? = s.conns[i]? ∧
      linkedOf (s.accept st).conns = linkedOf s.conns := by
  refine ⟨hmtx,List.getElem?_append_left (h.holder i hmtx),?_⟩
  rw [System.accept,linkedOf_append]
  exact List.append_nil _

def Move.isOf (i : ℕ) : Move κ → Bool
  | .accept _ => false
  | .advance j _ => i == j

/-- Whatever a move is of, the lock is free after it, or its holder has no more steps left than
before, and fewer if the move is its own. -/
theorem nearer_step (h : Orderly s) (hc : s.conns[i]? = some c) (hmtx : s.streamMtx = some i)
    (move : Move κ) : (s.step move).streamMtx = none ∨
      (s.step move).streamMtx = some i ∧ ∃ c', (s.step move).conns[i]? = some c' ∧
        left (linkedOf (s.step move).conns) c'.pc+(if Move.isOf i move then 1 else 0) ≤
          left (linkedOf s.conns) c.pc := by
  have hin : c.pc.inside = true := (h.entered i c hc).mpr hmtx
  cases move with
  | accept st =>
    rw [System.step]
    by_cases hbusy : (polling s.conns || (s.heap st).isSome) = true
    · rw [if_pos hbusy]
      exact Or.inr ⟨hmtx,c,hc,Nat.le_refl _⟩
    · rw [if_neg hbusy]
      obtain ⟨hmtx',hconns,hlinked⟩ := keeps_accept h hmtx st
      exact Or.inr ⟨hmtx',c,hconns.trans hc,by rw [hlinked]; exact Nat.le_refl _⟩
  | advance j answer =>
    by_cases hj : i = j
    · subst hj
      rw [System.step,hc]
      rcases nearer_advance h hc hin answer with hfree | ⟨hmtx',c',hc',hleft⟩
      · exact Or.inl hfree
      · refine Or.inr ⟨hmtx',c',hc',?_⟩
        simp only [Move.isOf,beq_self_eq_true,if_true]
        exact hleft
    · have hisOf : Move.isOf i (.advance j answer : Move κ) = false := by simp [Move.isOf,hj]
      rw [System.step,hisOf]
      split
      · next d hd =>
        have hout : d.pc.inside = false := by
          cases hdin : d.pc.inside with
          | false => rfl
          | true => exact absurd (Option.some.inj (hmtx.symm.trans ((h.entered j d hd).mp hdin))) hj
        have hkeeps := keeps_advance hd hout hmtx answer
        exact Or.inr ⟨hkeeps.mutex.trans hmtx,c,(hkeeps.conns i hj).trans hc,
          by rw [hkeeps.linked]; exact Nat.le_refl _⟩
      · exact Or.inr ⟨hmtx,c,hc,Nat.le_refl _⟩

theorem released (h : Orderly s) (hc : s.conns[i]? = some c) (hmtx : s.streamMtx = some i)
    {moves : List (Move κ)}
    (hmoves : left (linkedOf s.conns) c.pc ≤ moves.countP (Move.isOf i)) :
    ∃ first rest, moves = first++rest ∧ (s.run first).streamMtx = none := by
  have hin : c.pc.inside = true := (h.entered i c hc).mpr hmtx
  induction moves generalizing s c with
  | nil =>
    exact absurd hmoves (Nat.not_le.mpr (left_pos hin))
  | cons move moves ih =>
    rcases nearer_step h hc hmtx move with hfree | ⟨hmtx',c',hc',hleft⟩
    · exact ⟨[move],moves,rfl,hfree⟩
    · have hrest : left (linkedOf (s.step move).conns) c'.pc ≤ moves.countP (Move.isOf i) := by
        rw [List.countP_cons] at hmoves
        omega
      obtain ⟨first,rest,rfl,hfree⟩ := ih (h.step move) hc' hmtx' hrest
        (((h.step move).entered i c' hc').mpr hmtx')
      exact ⟨move::first,rest,rfl,hfree⟩

/-- A thread inside the lock lets it go within as many of its own steps as there are streams in
the list, and four: the lock is never held for good, however the others take turns with it. -/
theorem lock_released (moves more : List (Move κ)) (i : ℕ)
    (hmtx : ((System.start κ).run moves).streamMtx = some i)
    (hmore : 4+(linkedOf ((System.start κ).run moves).conns).length ≤
      more.countP (Move.isOf i)) :
    ∃ first rest, more = first++rest ∧
      ((System.start κ).run (moves++first)).streamMtx = none := by
  have h : Orderly ((System.start κ).run moves) := orderly_start.run moves
  have hc := List.getElem?_eq_getElem (h.holder i hmtx)
  obtain ⟨first,rest,hsplit,hfree⟩ := released h hc hmtx (Nat.le_trans left_le hmore)
  refine ⟨first,rest,hsplit,?_⟩
  rwa [System.run,List.foldl_append]

/-- A step whose calls all succeed and that keeps the stream open. -/
def plain : Answer := ⟨false,false,false⟩

theorem lock_released_first : ∃ first rest,
    List.replicate 4 (Move.advance 0 plain : Move ℕ) = first++rest ∧
      ((System.start ℕ).run ([.accept 7,.advance 0 plain]++first)).streamMtx = none :=
  lock_released [.accept 7,.advance 0 plain] (List.replicate 4 (.advance 0 plain)) 0 (by decide)
    (by decide)

/-- Moving on before it destroys, the loop is at the end of a list of one before it has
destroyed anything. -/
theorem ends_of_one {st : κ} {x : Stream κ} (hsound : s.faulted = false)
    (hx : s.heap st = some x) (hnext : x.links.next = none) :
    Loops.Ends closeRound 0 (s,some st) (s.fault,none) := by
  have hround : closeRound 0 (s,some st) = some (s.fault,none) := by
    simp [closeRound,hsound,hx,hnext,System.destroy]
  exact .more hround (.stop rfl)

/-- And in a longer list, it asks the stream that it has just destroyed for the next one. -/
theorem ends_of_two {st st2 : κ} {x y : Stream κ} (hsound : s.faulted = false)
    (hx : s.heap st = some x) (hnext : x.links.next = some st2) (hy : s.heap st2 = some y) :
    Loops.Ends closeRound 0 (s,some st)
      ({ s with heap := Function.update s.heap st2 none }.fault,none) := by
  let freed : System κ := { s with heap := Function.update s.heap st2 none }
  have hfirst : closeRound 0 (s,some st) = some (freed,some st2) := by
    simp [closeRound,hsound,hx,hnext,System.destroy,System.access,hy,freed]
  have hsecond : closeRound 1 (freed,some st2) = some (freed.fault,none) := by
    simp [closeRound,hsound,freed]
  exact .more hfirst (.more hsecond (.stop rfl))

/-- What `sb_close_server` does once it has the lock: without a stream in the list it gets
through; a single one makes it destroy the stream at `NULL`, and of more it frees the second
and then reads from it. -/
theorem sbCloseServer_ends (moves : List (Move κ))
    (hmtx : ((System.start κ).run moves).streamMtx = none) :
    let s := (System.start κ).run moves
    ∃ t, Loops.Ends closeRound 0 (s,s.streams) t ∧
      (t.1.faulted = false ↔ linkedOf s.conns = []) ∧
      t.1.heap = match linkedOf s.conns with
        | _::second::_ => Function.update s.heap second none
        | _ => s.heap := by
  intro s
  have h : Orderly s := orderly_start.run moves
  have hlist := h.list hmtx
  have hheap := fun k => h.heap_of_linked (k := k)
  generalize linkedOf s.conns = ks at hlist hheap
  match ks,hlist,hheap with
  | [],hlist,_ =>
    rw [hlist.head]
    exact ⟨_,.stop rfl,by simp [h.sound],rfl⟩
  | [st],hlist,hheap =>
    obtain ⟨x,hx⟩ := hheap st (by simp)
    have hcell := (Orderly.cells_eq hx).symm.trans hlist.segment.1
    rw [Option.some.injEq] at hcell
    rw [hlist.head]
    exact ⟨_,ends_of_one h.sound hx (by rw [hcell]; rfl),by simp [System.fault],rfl⟩
  | st::st2::ks,hlist,hheap =>
    obtain ⟨x,hx⟩ := hheap st (by simp)
    obtain ⟨y,hy⟩ := hheap st2 (by simp)
    have hcell := (Orderly.cells_eq hx).symm.trans hlist.segment.1
    rw [Option.some.injEq] at hcell
    rw [hlist.head]
    exact ⟨_,ends_of_two h.sound hx (by rw [hcell]; rfl) hy,by simp [System.fault],rfl⟩

theorem sbCloseServer_ends_linked :
    let s := (System.start ℕ).run (.accept 7::List.replicate 4 (.advance 0 plain))
    ∃ t, Loops.Ends closeRound 0 (s,s.streams) t ∧
      (t.1.faulted = false ↔ linkedOf s.conns = []) ∧
      t.1.heap = match linkedOf s.conns with
        | _::second::_ => Function.update s.heap second none
        | _ => s.heap :=
  sbCloseServer_ends (.accept 7::List.replicate 4 (.advance 0 plain)) (by decide)

end StreamLocks
end RemotePkgInstaller
