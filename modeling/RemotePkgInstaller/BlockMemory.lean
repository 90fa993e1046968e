import RemotePkgInstaller.BufferAccess
import RemotePkgInstaller.LinkedLists
import Mathlib.Data.List.Perm.Basic
import Mathlib.Data.Option.Basic

/-! Blocks that `malloc` makes and `free` takes back, and in them the lists of `utlist.h`, whose
first cell points back at the last one.  A program that uses a block which is not there has no
result. -/
namespace RemotePkgInstaller
namespace BlockMemory

open BufferAccess BufferAccess.Access LinkedLists

variable {π α β κ : Type}

/-- What the blocks hold, beside the links of those that are cells of a list.  A block is known by
the number of the call of `malloc` that has made it. -/
structure Heap (π : Type) where
  payload : ℕ → Option π
  cell : Cells ℕ
  calls : ℕ
  payload_fresh : ∀ p, calls ≤ p → payload p = none
  cell_fresh : ∀ p, calls ≤ p → cell p = none

abbrev Mem (π α : Type) := StateT (Heap π) Option α

/-- The program ends with the value and leaves the memory so. -/
def Does (x : Mem π α) (h : Heap π) (a : α) (h' : Heap π) : Prop := x h = some (a,h')

/-- The program uses what is not there. -/
def Faults (x : Mem π α) (h : Heap π) : Prop := x h = none

namespace Heap

variable (h : Heap π)

/-- After a call of `malloc` that has found no room. -/
def skip : Heap π where
  payload := h.payload
  cell := h.cell
  calls := h.calls+1
  payload_fresh := fun p hp => h.payload_fresh p (by omega)
  cell_fresh := fun p hp => h.cell_fresh p (by omega)

/-- After one that has made a block. -/
def add (v : π) (links : Option (Links ℕ)) : Heap π where
  payload := Function.update h.payload h.calls (some v)
  cell := Function.update h.cell h.calls links
  calls := h.calls+1
  payload_fresh := fun p hp => by
    rw [Function.update_of_ne (by omega)]
    exact h.payload_fresh p (by omega)
  cell_fresh := fun p hp => by
    rw [Function.update_of_ne (by omega)]
    exact h.cell_fresh p (by omega)

def remove (p : ℕ) : Heap π where
  payload := Function.update h.payload p none
  cell := Function.update h.cell p none
  calls := h.calls
  payload_fresh := fun q hq => by
    rcases eq_or_ne q p with rfl | hne
    · exact Function.update_self ..
    · rw [Function.update_of_ne hne]
      exact h.payload_fresh q hq
  cell_fresh := fun q hq => by
    rcases eq_or_ne q p with rfl | hne
    · exact Function.update_self ..
    · rw [Function.update_of_ne hne]
      exact h.cell_fresh q hq

/-- With something else in a block; a block that is not there does not come to be. -/
def change (p : ℕ) (f : π → π) : Heap π where
  payload := Function.update h.payload p ((h.payload p).map f)
  cell := h.cell
  calls := h.calls
  payload_fresh := fun q hq => by
    rcases eq_or_ne q p with rfl | hne
    · rw [Function.update_self,h.payload_fresh q hq]
      rfl
    · rw [Function.update_of_ne hne]
      exact h.payload_fresh q hq
  cell_fresh := h.cell_fresh

def relink (p : ℕ) (f : Links ℕ → Links ℕ) : Heap π where
  payload := h.payload
  cell := Function.update h.cell p ((h.cell p).map f)
  calls := h.calls
  payload_fresh := h.payload_fresh
  cell_fresh := fun q hq => by
    rcases eq_or_ne q p with rfl | hne
    · rw [Function.update_self,h.cell_fresh q hq]
      rfl
    · rw [Function.update_of_ne hne]
      exact h.cell_fresh q hq

variable {h} {p q : ℕ} {v : π} {links : Option (Links ℕ)}

@[simp] theorem payload_add_self : (h.add v links).payload h.calls = some v :=
  Function.update_self ..

@[simp] theorem cell_add_self : (h.add v links).cell h.calls = links := Function.update_self ..

theorem payload_add_of_ne (hne : q ≠ h.calls) : (h.add v links).payload q = h.payload q :=
  Function.update_of_ne hne _ _

theorem cell_add_of_ne (hne : q ≠ h.calls) : (h.add v links).cell q = h.cell q :=
  Function.update_of_ne hne _ _

@[simp] theorem payload_remove_self : (h.remove p).payload p = none := Function.update_self ..
@[simp] theorem cell_remove_self : (h.remove p).cell p = none := Function.update_self ..

theorem payload_remove_of_ne (hne : q ≠ p) : (h.remove p).payload q = h.payload q :=
  Function.update_of_ne hne _ _

theorem cell_remove_of_ne (hne : q ≠ p) : (h.remove p).cell q = h.cell q :=
  Function.update_of_ne hne _ _

theorem payload_change_self {f : π → π} : (h.change p f).payload p = (h.payload p).map f :=
  Function.update_self ..

theorem payload_change_of_ne {f : π → π} (hne : q ≠ p) : (h.change p f).payload q = h.payload q :=
  Function.update_of_ne hne _ _

theorem lt_of_payload {p : ℕ} {v : π} (hp : h.payload p = some v) : p < h.calls := by
  by_contra hle
  rw [h.payload_fresh p (by omega)] at hp
  cases hp

end Heap

section Operations

variable (room : ℕ → Bool)

/-- `room` tells which calls of `malloc` succeed. -/
def malloc (v : π) (links : Option (Links ℕ)) : Mem π (Option ℕ) := fun h =>
  if room h.calls then some (some h.calls,h.add v links) else some (none,h.skip)

def free (p : ℕ) : Mem π Unit := fun h => (h.payload p).map fun _ => ((),h.remove p)

/-- `free` of a pointer that may be NULL. -/
def freeIfSet : Option ℕ → Mem π Unit
  | none => pure ()
  | some p => free p

/-- A use of a pointer, which must not be NULL. -/
def deref (p : Option κ) : Mem π κ := fun h => p.map fun k => (k,h)

def load (p : ℕ) : Mem π π := fun h => (h.payload p).map fun v => (v,h)

def store (p : ℕ) (f : π → π) : Mem π Unit := fun h =>
  (h.payload p).map fun _ => ((),h.change p f)

def loadLinks (p : ℕ) : Mem π (Links ℕ) := fun h => (h.cell p).map fun l => (l,h)

def storeLinks (p : ℕ) (f : Links ℕ → Links ℕ) : Mem π Unit := fun h =>
  (h.cell p).map fun _ => ((),h.relink p f)

def storePrev (p : ℕ) (prev : Option ℕ) : Mem π Unit := storeLinks p fun l => { l with prev }
def storeNext (p : ℕ) (next : Option ℕ) : Mem π Unit := storeLinks p fun l => { l with next }

/-- `DL_APPEND`, with the head it leaves. -/
def dlAppend (head : Option ℕ) (add : ℕ) : Mem π (Option ℕ) :=
  match head with
  | some first => do
    let l ← loadLinks first
    storePrev add l.prev
    let last ← deref l.prev
    storeNext last (some add)
    storePrev first (some add)
    storeNext add none
    pure (some first)
  | none => do
    storePrev add (some add)
    storeNext add none
    pure (some add)

/-- `DL_DELETE`, with the head it leaves. -/
def dlDelete (head : Option ℕ) (del : ℕ) : Mem π (Option ℕ) := do
  let first ← deref head
  let l ← loadLinks del
  let prev ← deref l.prev
  if prev = del then pure none
  else if del = first then do
    let next ← deref l.next
    storePrev next l.prev
    pure l.next
  else do
    storeNext prev l.next
    storePrev (l.next.getD first) l.prev
    pure head

end Operations

section Results

variable {x : Mem π α} {f : α → Mem π β} {h h' h'' : Heap π} {a : α} {b : β}

theorem does_pure (a : α) (h : Heap π) : Does (pure a : Mem π α) h a h := rfl

theorem Does.bind (hx : Does x h a h') (hf : Does (f a) h' b h'') : Does (x >>= f) h b h'' := by
  rw [Does] at hx
  change (x h).bind _ = _
  rw [hx]
  exact hf

theorem Faults.bind (hx : Faults x h) (f : α → Mem π β) : Faults (x >>= f) h := by
  rw [Faults] at hx
  change (x h).bind _ = _
  rw [hx]
  rfl

theorem Does.faults (hx : Does x h a h') (hf : Faults (f a) h') : Faults (x >>= f) h := by
  rw [Does] at hx
  change (x h).bind _ = _
  rw [hx]
  exact hf

theorem does_malloc {room : ℕ → Bool} (hroom : room h.calls = true) (v : π)
    (links : Option (Links ℕ)) : Does (malloc room v links) h (some h.calls) (h.add v links) :=
  if_pos hroom

theorem does_malloc_full {room : ℕ → Bool} (hroom : room h.calls = false) (v : π)
    (links : Option (Links ℕ)) : Does (malloc room v links) h none h.skip := by
  rw [Does,malloc,hroom]
  rfl

variable {p : ℕ} {v : π} {l : Links ℕ}

theorem does_free (hp : h.payload p = some v) : Does (free p) h () (h.remove p) := by
  rw [Does,free,hp]
  rfl

theorem does_load (hp : h.payload p = some v) : Does (load p) h v h := by
  rw [Does,load,hp]
  rfl

theorem does_store (hp : h.payload p = some v) (f : π → π) :
    Does (store p f) h () (h.change p f) := by
  rw [Does,store,hp]
  rfl

theorem does_deref (k : κ) (h : Heap π) : Does (deref (some k)) h k h := rfl

theorem does_loadLinks (hp : h.cell p = some l) : Does (loadLinks p) h l h := by
  rw [Does,loadLinks,hp]
  rfl

theorem does_storeLinks (hp : h.cell p = some l) (f : Links ℕ → Links ℕ) :
    Does (storeLinks p f) h () (h.relink p f) := by
  rw [Does,storeLinks,hp]
  rfl

end Results

section Lists

/-- A list of `utlist.h`: the first cell points back at the last one, the last one nowhere. -/
structure IsDlist (cell : Cells κ) (head : Option κ) (ks : List κ) : Prop where
  head : head = ks.head?
  segment : Segment cell ks.getLast? ks none

variable {cell cell' : Cells κ} {head : Option κ} {ks xs ys : List κ} {k : κ}

theorem isDlist_nil : IsDlist cell none [] := ⟨rfl,trivial⟩

theorem IsDlist.congr (h : IsDlist cell head ks) (heq : ∀ k ∈ ks, cell' k = cell k) :
    IsDlist cell' head ks := ⟨h.head,h.segment.congr heq⟩

/-- What the first cell holds. -/
theorem IsDlist.first (h : IsDlist cell (some k) ks) :
    ∃ rest, ks = k::rest ∧ cell k = some ⟨ks.getLast?,rest.head?⟩ := by
  cases ks with
  | nil => cases h.head
  | cons k' rest =>
    cases h.head
    refine ⟨rest,rfl,?_⟩
    rw [h.segment.1,Option.or_none]

variable [DecidableEq κ]

/-- The writes of `DL_APPEND` to a list that is not empty. -/
theorem IsDlist.append {first last : κ} {l : Links κ} (h : IsDlist cell (some first) ks)
    (hlast : ks.getLast? = some last) (hks : ks.Nodup) (hk : k ∉ ks) (hcell : cell k = some l) :
    IsDlist (setNext (setPrev (setNext (setPrev cell k (some last)) last (some k)) first (some k))
      k none) (some first) (ks++[k]) := by
  obtain ⟨xs,rfl⟩ := List.getLast?_eq_some_iff.mp hlast
  obtain ⟨rest,hrest,_⟩ := h.first
  have hmemfirst : first ∈ xs++[last] := hrest ▸ List.mem_cons_self
  have hne : k ≠ first := fun heq => hk (heq ▸ hmemfirst)
  have hnelast : k ≠ last := fun heq => hk (heq ▸ List.mem_append_right _ List.mem_cons_self)
  -- The cell before the list is its last one, until the first is told otherwise.
  have hone : Segment (setNext (setPrev cell k (some last)) last (some k)) (some last)
      (xs++[last]) (some k) := by
    have hseg := h.segment
    rw [hlast] at hseg
    exact (hseg.setPrev_of_notMem hk _).setNext_last (notMem_of_nodup hks) _
  have htwo : Segment (setPrev (setNext (setPrev cell k (some last)) last (some k)) first (some k))
      (some k) (xs++[last]) (some k) := by
    rw [hrest] at hone hks ⊢
    exact hone.setPrev_head (List.nodup_cons.mp hks).1 _
  have hthree := htwo.setNext_of_notMem hk none
  have hown : setNext (setPrev (setNext (setPrev cell k (some last)) last (some k)) first (some k))
      k none k = some ⟨some last,none⟩ := by
    rw [setNext_self,setPrev_of_ne hne,setNext_of_ne hnelast,setPrev_self,hcell]
    rfl
  refine ⟨?_,?_⟩
  · rw [hrest]
    rfl
  · rw [List.getLast?_append]
    refine segment_append.mpr ⟨hthree,?_,trivial⟩
    rw [hown]
    simp

/-- The list of one cell. -/
theorem isDlist_singleton {l : Links κ} (hcell : cell k = some l) :
    IsDlist (setNext (setPrev cell k (some k)) k none) (some k) [k] := by
  refine ⟨rfl,?_,trivial⟩
  rw [setNext_self,setPrev_self,hcell]
  rfl

/-- The write of `DL_DELETE` to a list of more than one cell from which the first is taken. -/
theorem IsDlist.tail {next : κ} (h : IsDlist cell head (k::next::ys)) (hks : (k::next::ys).Nodup) :
    IsDlist (setPrev cell next (k::next::ys).getLast?) (some next) (next::ys) := by
  have hnext : next ∉ ys := (List.nodup_cons.mp (List.nodup_cons.mp hks).2).1
  have hback := h.segment.2.setPrev_head hnext (k::next::ys).getLast?
  refine ⟨rfl,?_⟩
  rw [List.getLast?_cons_cons] at hback ⊢
  exact hback

end Lists

/-- Only links of these cells have changed. -/
structure Relinked (ks : List ℕ) (h h' : Heap π) : Prop where
  payload : h'.payload = h.payload
  calls : h'.calls = h.calls
  others : ∀ p, p ∉ ks → h'.cell p = h.cell p

section Changes

variable {h h' h'' : Heap π} {ks ks' : List ℕ} {p : ℕ} {f : Links ℕ → Links ℕ}

theorem Relinked.refl (ks : List ℕ) (h : Heap π) : Relinked ks h h := ⟨rfl,rfl,fun _ _ => rfl⟩

theorem Relinked.relink (hr : Relinked ks h h') (hp : p ∈ ks) (f : Links ℕ → Links ℕ) :
    Relinked ks h (h'.relink p f) := by
  refine ⟨hr.payload,hr.calls,fun q hq => ?_⟩
  have hne : q ≠ p := fun heq => hq (heq ▸ hp)
  exact (Function.update_of_ne hne _ _).trans (hr.others q hq)

/-- `DL_APPEND` adds a cell at the end. -/
theorem does_dlAppend {head : Option ℕ} {add : ℕ} {l : Links ℕ} (hlist : IsDlist h.cell head ks)
    (hks : ks.Nodup) (hadd : add ∉ ks) (hcell : h.cell add = some l) :
    ∃ h', Does (dlAppend head add) h (some (head.getD add)) h' ∧
      IsDlist h'.cell (some (head.getD add)) (ks++[add]) ∧ Relinked (ks++[add]) h h' := by
  have hmem : add ∈ ks++[add] := List.mem_append_right _ List.mem_cons_self
  have hrefl := Relinked.refl (ks++[add]) h
  cases head with
  | none =>
    obtain rfl : ks = [] := List.head?_eq_none_iff.mp hlist.head.symm
    have hown : setPrev h.cell add (some add) add = some { l with prev := some add } := by
      rw [setPrev_self,hcell]
      rfl
    exact ⟨_,(does_storeLinks hcell _).bind ((does_storeLinks hown _).bind (does_pure _ _)),
      isDlist_singleton hcell,(hrefl.relink hmem _).relink hmem _⟩
  | some first =>
    obtain ⟨rest,hrest,hfirst⟩ := hlist.first
    obtain ⟨last,hlast⟩ : ∃ last, ks.getLast? = some last :=
      ⟨_,List.getLast?_eq_some_getLast (hrest ▸ List.cons_ne_nil _ _)⟩
    rw [hlast] at hfirst
    have hmemfirst : first ∈ ks := hrest ▸ List.mem_cons_self
    have hmemlast : last ∈ ks := List.mem_of_getLast? hlast
    have hnelast : last ≠ add := fun heq => hadd (heq ▸ hmemlast)
    have hnefirst : first ≠ add := fun heq => hadd (heq ▸ hmemfirst)
    obtain ⟨llast,hcelllast⟩ := hlist.segment.mem hmemlast
    obtain ⟨lfirst,hlfirst⟩ : ∃ l', setNext (setPrev h.cell add (some last)) last (some add)
        first = some l' := by
      rcases eq_or_ne first last with rfl | hne
      · exact ⟨_,by rw [setNext_self,setPrev_of_ne hnelast,hcelllast]; rfl⟩
      · exact ⟨_,by rw [setNext_of_ne hne,setPrev_of_ne hnefirst,hfirst]⟩
    have hlastcell : setPrev h.cell add (some last) last = some llast := by
      rw [setPrev_of_ne hnelast,hcelllast]
    have hown : setPrev (setNext (setPrev h.cell add (some last)) last (some add)) first (some add)
        add = some { l with prev := some last } := by
      rw [setPrev_of_ne (Ne.symm hnefirst),setNext_of_ne (Ne.symm hnelast),setPrev_self,hcell]
      rfl
    have hks' : ∀ q ∈ ks, q ∈ ks++[add] := fun q hq => List.mem_append_left _ hq
    exact ⟨_,(does_loadLinks hfirst).bind ((does_storeLinks hcell _).bind
      ((does_deref _ _).bind ((does_storeLinks hlastcell _).bind ((does_storeLinks hlfirst _).bind
        ((does_storeLinks hown _).bind (does_pure _ _)))))),
      hlist.append hlast hks hadd hcell,
      (((hrefl.relink hmem _).relink (hks' _ hmemlast) _).relink (hks' _ hmemfirst) _).relink
        hmem _⟩

/-- `DL_DELETE` of the first cell. -/
theorem does_dlDelete {head : Option ℕ} {del : ℕ} (hlist : IsDlist h.cell head (del::ks))
    (hks : (del::ks).Nodup) :
    ∃ h', Does (dlDelete head del) h ks.head? h' ∧ IsDlist h'.cell ks.head? ks ∧
      Relinked ks h h' ∧ h'.cell del = h.cell del := by
  obtain rfl : head = some del := hlist.head
  obtain ⟨rest,hrest,hdel⟩ := hlist.first
  obtain rfl : ks = rest := (List.cons.inj hrest).2
  cases ks with
  | nil =>
    refine ⟨h,(does_deref _ _).bind ((does_loadLinks hdel).bind ((does_deref _ _).bind ?_)),
      isDlist_nil,.refl _ _,rfl⟩
    rw [if_pos (by exact rfl)]
    exact does_pure _ _
  | cons next ks =>
    have hlast : (del::next::ks).getLast? = some ((next::ks).getLast (List.cons_ne_nil _ _)) := by
      rw [List.getLast?_cons_cons,List.getLast?_eq_some_getLast (List.cons_ne_nil _ _)]
    have hne : (next::ks).getLast (List.cons_ne_nil _ _) ≠ del := fun heq =>
      (List.nodup_cons.mp hks).1 (heq ▸ List.getLast_mem _)
    have htail := hlist.tail hks
    rw [hlast] at hdel htail
    obtain ⟨lnext,hnext⟩ := hlist.segment.mem (List.mem_cons_of_mem del List.mem_cons_self)
    refine ⟨_,(does_deref _ _).bind ((does_loadLinks hdel).bind ((does_deref _ _).bind ?_)),
      htail,(Relinked.refl _ _).relink List.mem_cons_self _,?_⟩
    · rw [if_neg hne,if_pos rfl]
      exact (does_deref _ _).bind ((does_storeLinks hnext _).bind (does_pure _ _))
    · exact Function.update_of_ne (fun heq : del = next =>
        (List.nodup_cons.mp hks).1 (heq ▸ List.mem_cons_self)) _ _

end Changes

/-- Only these blocks have changed, or have come or gone. -/
structure OnlyIn (ps : List ℕ) (h h' : Heap π) : Prop where
  payload : ∀ p, p ∉ ps → h'.payload p = h.payload p
  cell : ∀ p, p ∉ ps → h'.cell p = h.cell p

/-- The second memory has the blocks of the first, and besides them these, which have been made
since. -/
structure Extends (h : Heap π) (ps : List ℕ) (h' : Heap π) : Prop extends OnlyIn ps h h' where
  distinct : ps.Nodup
  made : ∀ p ∈ ps, h.calls ≤ p
  live : ∀ p ∈ ps, (h'.payload p).isSome = true
  calls : h.calls ≤ h'.calls

section Extensions

variable {h h' h'' : Heap π} {ps qs : List ℕ} {p : ℕ}

theorem OnlyIn.refl (ps : List ℕ) (h : Heap π) : OnlyIn ps h h := ⟨fun _ _ => rfl,fun _ _ => rfl⟩

theorem OnlyIn.trans (ho : OnlyIn ps h h') (ho' : OnlyIn ps h' h'') : OnlyIn ps h h'' :=
  ⟨fun p hp => (ho'.payload p hp).trans (ho.payload p hp),
    fun p hp => (ho'.cell p hp).trans (ho.cell p hp)⟩

theorem OnlyIn.mono (ho : OnlyIn ps h h') (hsub : ∀ p ∈ ps, p ∈ qs) : OnlyIn qs h h' :=
  ⟨fun p hp => ho.payload p fun hmem => hp (hsub p hmem),
    fun p hp => ho.cell p fun hmem => hp (hsub p hmem)⟩

theorem onlyIn_skip (ps : List ℕ) (h : Heap π) : OnlyIn ps h h.skip :=
  ⟨fun _ _ => rfl,fun _ _ => rfl⟩

theorem onlyIn_add (hp : h.calls ∈ ps) (v : π) (links : Option (Links ℕ)) :
    OnlyIn ps h (h.add v links) :=
  ⟨fun _ hq => Heap.payload_add_of_ne (ne_of_mem_of_not_mem hp hq).symm,
    fun _ hq => Heap.cell_add_of_ne (ne_of_mem_of_not_mem hp hq).symm⟩

theorem onlyIn_remove (hp : p ∈ ps) (h : Heap π) : OnlyIn ps h (h.remove p) :=
  ⟨fun _ hq => Heap.payload_remove_of_ne (ne_of_mem_of_not_mem hp hq).symm,
    fun _ hq => Heap.cell_remove_of_ne (ne_of_mem_of_not_mem hp hq).symm⟩

theorem onlyIn_change (hp : p ∈ ps) (h : Heap π) (f : π → π) : OnlyIn ps h (h.change p f) :=
  ⟨fun _ hq => Heap.payload_change_of_ne (ne_of_mem_of_not_mem hp hq).symm,fun _ _ => rfl⟩

theorem Relinked.onlyIn (hr : Relinked ps h h') : OnlyIn ps h h' :=
  ⟨fun p _ => congrFun hr.payload p,hr.others⟩

theorem Extends.refl (h : Heap π) : Extends h [] h :=
  ⟨.refl _ _,List.nodup_nil,by simp,by simp,le_rfl⟩

theorem Extends.perm (he : Extends h ps h') (hperm : ps.Perm qs) : Extends h qs h' :=
  ⟨he.toOnlyIn.mono fun _ hp => hperm.mem_iff.mp hp,hperm.nodup_iff.mp he.distinct,
    fun p hp => he.made p (hperm.mem_iff.mpr hp),fun p hp => he.live p (hperm.mem_iff.mpr hp),
    he.calls⟩

/-- What lies in a memory has been made already. -/
theorem Extends.lt (he : Extends h ps h') (hp : p ∈ ps) : p < h'.calls := by
  obtain ⟨v,hv⟩ := Option.isSome_iff_exists.mp (he.live p hp)
  exact Heap.lt_of_payload hv

theorem Extends.calls_notMem (he : Extends h ps h') : h'.calls ∉ ps :=
  fun hp => lt_irrefl _ (he.lt hp)

theorem Extends.skip (he : Extends h ps h') : Extends h ps h'.skip :=
  ⟨he.toOnlyIn.trans (onlyIn_skip _ _),he.distinct,he.made,he.live,Nat.le_succ_of_le he.calls⟩

theorem Extends.add (he : Extends h ps h') (v : π) (links : Option (Links ℕ)) :
    Extends h (h'.calls::ps) (h'.add v links) := by
  refine ⟨?_,List.nodup_cons.mpr ⟨he.calls_notMem,he.distinct⟩,?_,?_,Nat.le_succ_of_le he.calls⟩
  · exact (he.toOnlyIn.mono fun _ hp => List.mem_cons_of_mem _ hp).trans
      (onlyIn_add List.mem_cons_self _ _)
  · intro p hp
    rcases List.mem_cons.mp hp with rfl | hp
    · exact he.calls
    · exact he.made p hp
  · intro p hp
    rcases List.mem_cons.mp hp with rfl | hp
    · rw [Heap.payload_add_self]
      rfl
    · rw [Heap.payload_add_of_ne (ne_of_lt (he.lt hp))]
      exact he.live p hp

theorem Extends.remove (he : Extends h (p::ps) h') : Extends h ps (h'.remove p) := by
  obtain ⟨hp,hps⟩ := List.nodup_cons.mp he.distinct
  have hmade := he.made p List.mem_cons_self
  refine ⟨⟨?_,?_⟩,hps,fun q hq => he.made q (List.mem_cons_of_mem _ hq),?_,he.calls⟩
  · intro q hq
    rcases eq_or_ne q p with rfl | hne
    · rw [Heap.payload_remove_self,h.payload_fresh q hmade]
    · rw [Heap.payload_remove_of_ne hne]
      exact he.payload q (List.not_mem_cons_of_ne_of_not_mem hne hq)
  · intro q hq
    rcases eq_or_ne q p with rfl | hne
    · rw [Heap.cell_remove_self,h.cell_fresh q hmade]
    · rw [Heap.cell_remove_of_ne hne]
      exact he.cell q (List.not_mem_cons_of_ne_of_not_mem hne hq)
  · intro q hq
    rw [Heap.payload_remove_of_ne (ne_of_mem_of_not_mem hq hp)]
    exact he.live q (List.mem_cons_of_mem _ hq)

theorem Extends.change (he : Extends h ps h') (hp : p ∈ ps) (f : π → π) :
    Extends h ps (h'.change p f) := by
  refine ⟨he.toOnlyIn.trans (onlyIn_change hp _ f),he.distinct,he.made,fun q hq => ?_,he.calls⟩
  rcases eq_or_ne q p with rfl | hne
  · rw [Heap.payload_change_self,Option.isSome_map]
    exact he.live q hq
  · rw [Heap.payload_change_of_ne hne]
    exact he.live q hq

theorem Extends.relinked (he : Extends h ps h') (hr : Relinked qs h' h'')
    (hqs : ∀ q ∈ qs, q ∈ ps) : Extends h ps h'' := by
  refine ⟨he.toOnlyIn.trans (hr.onlyIn.mono hqs),he.distinct,he.made,fun p hp => ?_,?_⟩
  · rw [hr.payload]
    exact he.live p hp
  · rw [hr.calls]
    exact he.calls

theorem Extends.trans (he : Extends h ps h') (he' : Extends h' qs h'') :
    Extends h (qs++ps) h'' := by
  have hdisjoint : ∀ p ∈ ps, p ∉ qs := fun p hp hq => absurd (he'.made p hq) (not_le.mpr (he.lt hp))
  refine ⟨?_,List.nodup_append.mpr ⟨he'.distinct,he.distinct,?_⟩,?_,?_,he.calls.trans he'.calls⟩
  · exact (he.toOnlyIn.mono fun _ hp => List.mem_append_right _ hp).trans
      (he'.toOnlyIn.mono fun _ hp => List.mem_append_left _ hp)
  · rintro q hq p hp rfl
    exact hdisjoint q hp hq
  · intro p hp
    rcases List.mem_append.mp hp with hp | hp
    · exact he.calls.trans (he'.made p hp)
    · exact he.made p hp
  · intro p hp
    rcases List.mem_append.mp hp with hp | hp
    · exact he'.live p hp
    · rw [he'.payload p (hdisjoint p hp)]
      exact he.live p hp

/-- A block that has been made since can be freed. -/
theorem Extends.does_free (he : Extends h (p::ps) h') : Does (free p) h' () (h'.remove p) := by
  obtain ⟨v,hv⟩ := Option.isSome_iff_exists.mp (he.live p List.mem_cons_self)
  exact BlockMemory.does_free hv

/-- A block that has been made since is freed, if there is one. -/
theorem does_freeIfSet {p : Option ℕ} (he : Extends h (p.toList++ps) h') :
    ∃ h'', Does (freeIfSet p) h' () h'' ∧ Extends h ps h'' ∧ OnlyIn p.toList h' h'' ∧
      h''.calls = h'.calls := by
  cases p with
  | none => exact ⟨h',does_pure () h',he,.refl _ _,rfl⟩
  | some p =>
    exact ⟨_,he.does_free,he.remove,onlyIn_remove List.mem_cons_self _,rfl⟩

end Extensions

/-- A look at a buffer, which must not leave it. -/
def examine (x : Access α) : Mem π α := fun h =>
  match x.outcome with
  | .ok a => some (a,h)
  | _ => none

/-- The program over the memory ends as the one over the buffer does: past the buffer it has no
result either. -/
def Refines (x : Access α) (m : Mem π β) (h : Heap π) (Good : α → β → Heap π → Prop)
    (Bad : β → Heap π → Prop) : Prop :=
  match x.outcome with
  | .ok a => ∃ b h', Does m h b h' ∧ Good a b h'
  | .failed => ∃ b h', Does m h b h' ∧ Bad b h'
  | .fault => Faults m h

section Refinement

variable {γ δ : Type} {x : Access α} {f : α → Access β} {m : Mem π γ} {g : γ → Mem π δ}
  {h h' : Heap π} {Good : β → δ → Heap π → Prop} {Bad : δ → Heap π → Prop}

theorem refines_pure {b : β} {d : δ} {m : Mem π δ} (hm : Does m h d h') (hgood : Good b d h') :
    Refines (pure b) m h Good Bad := ⟨d,h',hm,hgood⟩

theorem refines_failed {x : Access β} {d : δ} {m : Mem π δ} (hx : x.outcome = .failed)
    (hm : Does m h d h') (hbad : Bad d h') : Refines x m h Good Bad := by
  rw [Refines,hx]
  exact ⟨d,h',hm,hbad⟩

/-- A step of the one over the memory alone. -/
theorem refines_does {x : Access β} {c : γ} (hm : Does m h c h')
    (hg : Refines x (g c) h' Good Bad) : Refines x (m >>= g) h Good Bad := by
  unfold Refines at hg ⊢
  cases hx : x.outcome with
  | ok b =>
    rw [hx] at hg
    obtain ⟨d,h'',hd,hgood⟩ := hg
    exact ⟨d,h'',hm.bind hd,hgood⟩
  | failed =>
    rw [hx] at hg
    obtain ⟨d,h'',hd,hbad⟩ := hg
    exact ⟨d,h'',hm.bind hd,hbad⟩
  | fault =>
    rw [hx] at hg
    exact hm.faults hg

/-- A part of the one refines a part of the other, and then the rest does, or what is left of
the one over the memory is as bad. -/
theorem refines_bind {Good' : α → γ → Heap π → Prop} {Bad' : γ → Heap π → Prop}
    (hm : Refines x m h Good' Bad')
    (hgood : ∀ a c h', x.outcome = .ok a → Good' a c h' → Refines (f a) (g c) h' Good Bad)
    (hbad : ∀ c h', x.outcome = .failed → Bad' c h' → ∃ d h'', Does (g c) h' d h'' ∧ Bad d h'') :
    Refines (x >>= f) (m >>= g) h Good Bad := by
  unfold Refines at hm
  cases hx : x.outcome with
  | ok a =>
    rw [hx] at hm
    obtain ⟨c,h',hc,hc'⟩ := hm
    have hrest := refines_does hc (hgood a c h' hx hc')
    rwa [Refines,← bind_outcome_of_ok hx f] at hrest
  | failed =>
    rw [hx] at hm
    obtain ⟨c,h',hc,hc'⟩ := hm
    obtain ⟨d,h'',hd,hd'⟩ := hbad c h' hx hc'
    rw [Refines,bind_outcome,hx]
    exact ⟨d,h'',hc.bind hd,hd'⟩
  | fault =>
    rw [hx] at hm
    rw [Refines,bind_outcome,hx]
    exact hm.bind g

/-- The one over the memory goes on alone. -/
theorem refines_after {x : Access β} {Good' : β → γ → Heap π → Prop} {Bad' : γ → Heap π → Prop}
    (hm : Refines x m h Good' Bad')
    (hgood : ∀ b c h', x.outcome = .ok b → Good' b c h' →
      ∃ d h'', Does (g c) h' d h'' ∧ Good b d h'')
    (hbad : ∀ c h', x.outcome = .failed → Bad' c h' → ∃ d h'', Does (g c) h' d h'' ∧ Bad d h'') :
    Refines x (m >>= g) h Good Bad := by
  unfold Refines at hm
  cases hx : x.outcome with
  | ok b =>
    rw [hx] at hm
    obtain ⟨c,h',hc,hc'⟩ := hm
    obtain ⟨d,h'',hd,hd'⟩ := hgood b c h' hx hc'
    rw [Refines,hx]
    exact ⟨d,h'',hc.bind hd,hd'⟩
  | failed =>
    rw [hx] at hm
    obtain ⟨c,h',hc,hc'⟩ := hm
    obtain ⟨d,h'',hd,hd'⟩ := hbad c h' hx hc'
    rw [Refines,hx]
    exact ⟨d,h'',hc.bind hd,hd'⟩
  | fault =>
    rw [hx] at hm
    rw [Refines,hx]
    exact hm.bind g

/-- The result of the one is changed at the end. -/
theorem refines_map {F : α → β} {m : Mem π δ} {Good' : α → δ → Heap π → Prop}
    {Bad' : δ → Heap π → Prop} (hm : Refines x m h Good' Bad')
    (hgood : ∀ a d h', x.outcome = .ok a → Good' a d h' → Good (F a) d h')
    (hbad : ∀ d h', x.outcome = .failed → Bad' d h' → Bad d h') :
    Refines (x >>= fun a => pure (F a)) m h Good Bad := by
  unfold Refines at hm
  cases hx : x.outcome with
  | ok a =>
    rw [hx] at hm
    obtain ⟨d,h',hd,hd'⟩ := hm
    rw [Refines,bind_outcome_of_ok hx]
    exact ⟨d,h',hd,hgood a d h' hx hd'⟩
  | failed =>
    rw [hx] at hm
    obtain ⟨d,h',hd,hd'⟩ := hm
    rw [Refines,bind_outcome,hx]
    exact ⟨d,h',hd,hbad d h' hx hd'⟩
  | fault =>
    rw [hx] at hm
    rwa [Refines,bind_outcome,hx]

/-- Both look at the same place of the buffer. -/
theorem refines_examine {g : α → Mem π δ} (hx : x.outcome ≠ .failed)
    (hf : ∀ a, x.outcome = .ok a → Refines (f a) (g a) h Good Bad) :
    Refines (x >>= f) (examine x >>= g) h Good Bad := by
  have hlook : Refines x (examine x : Mem π α) h (fun a c h' => a = c ∧ h' = h)
      fun _ _ => False := by
    unfold Refines
    cases hout : x.outcome with
    | ok a => exact ⟨a,h,by rw [Does,examine,hout],rfl,rfl⟩
    | failed => exact absurd hout hx
    | fault =>
      change Faults _ _
      rw [Faults,examine,hout]
  refine refines_bind hlook ?_ fun _ _ _ hfalse => hfalse.elim
  rintro a c h' hout ⟨rfl,rfl⟩
  exact hf a hout

end Refinement

end BlockMemory
end RemotePkgInstaller
