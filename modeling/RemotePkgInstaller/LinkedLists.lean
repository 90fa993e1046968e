import Mathlib.Data.List.Nodup
import Mathlib.Logic.Function.Basic

/-! Doubly linked lists in a memory of cells: what the cells of a list hold, and what it takes to
add one at the end or to take one out, write by write. -/
namespace RemotePkgInstaller
namespace LinkedLists

variable {κ : Type}

structure Links (κ : Type) where
  prev : Option κ
  next : Option κ
  deriving DecidableEq

abbrev Cells (κ : Type) := κ → Option (Links κ)

/-- The cells `ks` point at each other, the outer ones at what lies before and after. -/
def Segment (cell : Cells κ) : Option κ → List κ → Option κ → Prop
  | _,[],_ => True
  | before,k::ks,after =>
    cell k = some ⟨before,ks.head?.or after⟩ ∧ Segment cell (some k) ks after

variable {cell cell' : Cells κ} {before after : Option κ} {ks xs ys : List κ} {k : κ}

theorem Segment.congr (h : Segment cell before ks after) (heq : ∀ k ∈ ks, cell' k = cell k) :
    Segment cell' before ks after := by
  induction ks generalizing before with
  | nil => trivial
  | cons k ks ih =>
    exact ⟨(heq k List.mem_cons_self).trans h.1,
      ih h.2 fun k' hk' => heq k' (List.mem_cons_of_mem _ hk')⟩

theorem segment_append :
    Segment cell before (xs++ys) after ↔
      Segment cell before xs (ys.head?.or after) ∧
        Segment cell (xs.getLast?.or before) ys after := by
  induction xs generalizing before with
  | nil => exact (iff_of_eq (true_and _)).symm
  | cons x xs ih =>
    have hlast : (x::xs).getLast?.or before = xs.getLast?.or (some x) := by
      cases xs <;> simp [List.getLast?_cons]
    rw [List.cons_append,Segment,ih,List.head?_append,hlast,Segment,Option.or_assoc,and_assoc]

/-- What a cell of the list holds. -/
theorem Segment.cell_eq (h : Segment cell before (xs++k::ys) after) :
    cell k = some ⟨xs.getLast?.or before,ys.head?.or after⟩ := (segment_append.mp h).2.1

theorem Segment.mem (h : Segment cell before ks after) (hk : k ∈ ks) : ∃ l, cell k = some l := by
  obtain ⟨xs,ys,rfl⟩ := List.append_of_mem hk
  exact ⟨_,h.cell_eq⟩

/-- The last cell points at what lies after. -/
theorem Segment.last (h : Segment cell before (xs++[k]) after) :
    cell k = some ⟨xs.getLast?.or before,after⟩ := by
  simpa using h.cell_eq

/-- A cell whose next one is not in the list is the last. -/
theorem Segment.getLast_of_next (h : Segment cell before ks none) (hk : k ∈ ks) {l : Links κ}
    (hcell : cell k = some l) (hnext : l.next = none) : ks.getLast? = some k := by
  obtain ⟨xs,ys,rfl⟩ := List.append_of_mem hk
  cases hcell.symm.trans h.cell_eq
  cases ys with
  | nil => simp
  | cons y ys => cases hnext

theorem Segment.next_mem (h : Segment cell before ks none) (hk : k ∈ ks) {l : Links κ}
    (hcell : cell k = some l) {k' : κ} (hnext : l.next = some k') : k' ∈ ks := by
  obtain ⟨xs,ys,rfl⟩ := List.append_of_mem hk
  cases hcell.symm.trans h.cell_eq
  cases ys with
  | nil => cases hnext
  | cons y ys =>
    cases hnext
    simp

section Writes

variable [DecidableEq κ]

def setNext (cell : Cells κ) (k : κ) (next : Option κ) : Cells κ :=
  Function.update cell k ((cell k).map fun l => { l with next })

def setPrev (cell : Cells κ) (k : κ) (prev : Option κ) : Cells κ :=
  Function.update cell k ((cell k).map fun l => { l with prev })

theorem setNext_of_ne {k' : κ} (h : k' ≠ k) (next : Option κ) :
    setNext cell k next k' = cell k' := Function.update_of_ne h _ _

theorem setPrev_of_ne {k' : κ} (h : k' ≠ k) (prev : Option κ) :
    setPrev cell k prev k' = cell k' := Function.update_of_ne h _ _

theorem setNext_self (next : Option κ) :
    setNext cell k next k = (cell k).map fun l => { l with next } := Function.update_self ..

theorem setPrev_self (prev : Option κ) :
    setPrev cell k prev k = (cell k).map fun l => { l with prev } := Function.update_self ..

/-- A write outside of a list leaves the list alone. -/
theorem Segment.setNext_of_notMem (h : Segment cell before ks after) (hk : k ∉ ks)
    (next : Option κ) : Segment (setNext cell k next) before ks after :=
  h.congr fun _ hk' => setNext_of_ne (ne_of_mem_of_not_mem hk' hk) next

theorem Segment.setPrev_of_notMem (h : Segment cell before ks after) (hk : k ∉ ks)
    (prev : Option κ) : Segment (setPrev cell k prev) before ks after :=
  h.congr fun _ hk' => setPrev_of_ne (ne_of_mem_of_not_mem hk' hk) prev

/-- A write to the last cell moves the end of the list. -/
theorem Segment.setNext_last (h : Segment cell before (xs++[k]) after) (hk : k ∉ xs)
    (after' : Option κ) : Segment (setNext cell k after') before (xs++[k]) after' := by
  obtain ⟨hxs,hlast⟩ := segment_append.mp h
  refine segment_append.mpr ⟨Segment.setNext_of_notMem hxs hk after',?_,trivial⟩
  rw [setNext_self,hlast.1]
  rfl

/-- A write to the first cell moves the start of the list. -/
theorem Segment.setPrev_head (h : Segment cell before (k::ys) after) (hk : k ∉ ys)
    (before' : Option κ) : Segment (setPrev cell k before') before' (k::ys) after := by
  refine ⟨?_,h.2.setPrev_of_notMem hk before'⟩
  rw [setPrev_self,h.1]
  rfl

end Writes

/-- A whole list, from its first cell to its last. -/
structure IsList (cell : Cells κ) (head : Option κ) (ks : List κ) : Prop where
  head : head = ks.head?
  segment : Segment cell none ks none

variable {head : Option κ}

theorem IsList.congr (h : IsList cell head ks) (heq : ∀ k ∈ ks, cell' k = cell k) :
    IsList cell' head ks := ⟨h.head,h.segment.congr heq⟩

theorem isList_nil : IsList cell none [] := ⟨rfl,trivial⟩

/-- The list of one cell that points nowhere. -/
theorem isList_singleton (h : cell k = some ⟨none,none⟩) : IsList cell (some k) [k] :=
  ⟨rfl,h,trivial⟩

theorem IsList.eq_nil (h : IsList cell none ks) : ks = [] := List.head?_eq_none_iff.mp h.head.symm

theorem IsList.head_mem (h : IsList cell (some k) ks) : k ∈ ks :=
  List.mem_of_head? h.head.symm

/-- What is left of a list from which `k` is taken, once the cell after `k` points back over it:
the cell before still points at `k`. -/
structure Bypassed (cell : Cells κ) (head : Option κ) (xs : List κ) (k : κ) (ys : List κ) :
    Prop where
  head : head = (xs++[k]).head?
  front : Segment cell none xs (some k)
  own : cell k = some ⟨xs.getLast?,ys.head?⟩
  back : Segment cell xs.getLast? ys none

/-- The same, once the cell before `k` points on over it: only the head may still be `k`. -/
structure Detached (cell : Cells κ) (head : Option κ) (xs : List κ) (k : κ) (ys : List κ) :
    Prop where
  head : head = (xs++[k]).head?
  own : cell k = some ⟨xs.getLast?,ys.head?⟩
  rest : Segment cell none (xs++ys) none

theorem IsList.bypassed_end (h : IsList cell head (xs++[k])) :
    Bypassed cell head xs k [] := by
  obtain ⟨hfront,hcell⟩ := segment_append.mp h.segment
  refine ⟨h.head,hfront,?_,trivial⟩
  rw [hcell.1,Option.or_none]
  rfl

theorem Bypassed.detached_start (h : Bypassed cell head [] k ys) : Detached cell head [] k ys :=
  ⟨h.head,h.own,h.back⟩

theorem notMem_of_nodup (h : (xs++[k]).Nodup) : k ∉ xs :=
  fun hk => (List.nodup_append.mp h).2.2 k hk k List.mem_cons_self rfl

section Writes

variable [DecidableEq κ]

/-- The first write of an append lets the last cell point at the new one. -/
theorem IsList.setNext_last (h : IsList cell head ks) (hks : ks.Nodup) {k' : κ}
    (hlast : ks.getLast? = some k') (k : κ) :
    head = ks.head? ∧ Segment (setNext cell k' (some k)) none ks (some k) := by
  obtain ⟨xs,rfl⟩ := List.getLast?_eq_some_iff.mp hlast
  exact ⟨h.head,h.segment.setNext_last (notMem_of_nodup hks) _⟩

/-- The second lets the new one point back at it. -/
theorem isList_append {k' : κ} (hhead : head = ks.head?) (h : Segment cell none ks (some k))
    (hlast : ks.getLast? = some k') (hk : k ∉ ks) (hcell : cell k = some ⟨none,none⟩) :
    IsList (setPrev cell k (some k')) head (ks++[k]) := by
  have hne : ks ≠ [] := by
    rintro rfl
    cases hlast
  refine ⟨?_,segment_append.mpr ⟨h.setPrev_of_notMem hk _,?_,trivial⟩⟩
  · rw [hhead,List.head?_append_of_ne_nil _ hne]
  · rw [setPrev_self,hcell,hlast]
    rfl

/-- The first write of a removal. -/
theorem IsList.bypassed {y : κ} (h : IsList cell head (xs++k::y::ys)) (hks : (xs++k::y::ys).Nodup) :
    Bypassed (setPrev cell y xs.getLast?) head xs k (y::ys) := by
  obtain ⟨hfront,hcell,hback⟩ := segment_append.mp h.segment
  obtain ⟨-,hknodup,hdisjoint⟩ := List.nodup_append.mp hks
  have hyxs : y ∉ xs := fun hy => hdisjoint y hy y (by simp) rfl
  have hky : k ≠ y := fun heq => (List.nodup_cons.mp hknodup).1 (by simp [heq])
  have hyys : y ∉ ys := (List.nodup_cons.mp (List.nodup_cons.mp hknodup).2).1
  refine ⟨?_,hfront.setPrev_of_notMem hyxs _,?_,hback.setPrev_head hyys _⟩
  · rw [h.head]
    simp
  · rw [setPrev_of_ne hky,hcell,Option.or_none,Option.or_none]

theorem Bypassed.detached {x : κ} (h : Bypassed cell head (xs++[x]) k ys)
    (hks : (xs++[x]++k::ys).Nodup) :
    Detached (setNext cell x ys.head?) head (xs++[x]) k ys := by
  obtain ⟨hxs,hknodup,hdisjoint⟩ := List.nodup_append.mp hks
  have hxk : k ≠ x := fun heq => hdisjoint x (by simp) k (by simp) heq.symm
  have hxys : x ∉ ys := fun hx => hdisjoint x (by simp) x (by simp [hx]) rfl
  have hxxs : x ∉ xs := notMem_of_nodup hxs
  refine ⟨h.head,?_,segment_append.mpr ⟨?_,?_⟩⟩
  · rw [setNext_of_ne hxk,h.own]
  · rw [Option.or_none]
    exact h.front.setNext_last hxxs _
  · rw [Option.or_none]
    exact h.back.setNext_of_notMem hxys _

end Writes

/-- Where the head was `k`, it becomes the cell after it. -/
theorem Detached.isList_of_head (h : Detached cell (some k) xs k ys) (hk : k ∉ xs) :
    IsList cell ys.head? (xs++ys) := by
  cases xs with
  | nil => exact ⟨rfl,h.rest⟩
  | cons x xs =>
    cases h.head
    exact absurd List.mem_cons_self hk

theorem Detached.isList_of_ne (h : Detached cell head xs k ys) (hk : head ≠ some k) :
    IsList cell head (xs++ys) := by
  cases xs with
  | nil => exact absurd h.head hk
  | cons x xs => exact ⟨h.head,h.rest⟩

/-- The cells that a walk along `next` comes to. -/
def walk (cell : Cells κ) : ℕ → Option κ → List κ
  | 0,_ => []
  | _+1,none => []
  | n+1,some k => k::walk cell n ((cell k).bind Links.next)

theorem Segment.walk_eq (h : Segment cell before ks none) {n : ℕ} (hn : ks.length ≤ n) :
    walk cell n ks.head? = ks := by
  induction ks generalizing before n with
  | nil => cases n <;> rfl
  | cons k ks ih =>
    obtain ⟨n,rfl⟩ : ∃ m, n = m+1 := ⟨n-1,by simp at hn; omega⟩
    have hrest := ih h.2 (Nat.le_of_succ_le_succ hn)
    rw [List.head?_cons,walk,h.1,Option.bind_some,Option.or_none,hrest]

end LinkedLists
end RemotePkgInstaller
