import RemotePkgInstaller.JsonValues
import Mathlib.Data.List.Basic

/-! What a parse guarantees about its nodes: each value is what the parser reads at
the node's own place in the text, and the links stay inside and lead forward.  The
nodes of a parsed text form a `Document`, which carries both. -/
namespace RemotePkgInstaller
namespace TinyJson

open JsonText Decimal

section Steps

/-- A value read by the parser is where it stands in the text. -/
def PlacedIn (str : Bytes) (u : Payload) : Prop := ∀ ptr s, u = .value ptr s → ptr <:+ str

/-- A property as the loop takes it from the pool: read from the text ahead, without
children, and closed unless it is an object or array. -/
structure Fresh (obj : ℕ) (str : Bytes) (property : Node) (opened : Bool) : Prop where
  reads : Reads property.type property.u
  placed : PlacedIn str property.u
  sibling : property.sibling = if opened then some obj else none
  childless : (∃ ptr s, property.u = .value ptr s) ∨ property.u = .container none none

theorem newProperty_spec {obj : ℕ} {name : Option Bytes} {ptr next : Bytes} {property : Node}
    {opened : Bool} (h : newProperty obj name ptr = some (property,opened,next)) :
    Fresh obj ptr property opened ∧ property.name = name ∧ next <:+ ptr ∧
      next.length < ptr.length := by
  unfold newProperty at h
  split at h
  · simp only [Option.some.injEq,Prod.mk.injEq] at h
    obtain ⟨rfl,rfl,rfl⟩ := h
    exact ⟨⟨trivial,by simp [PlacedIn],rfl,Or.inr rfl⟩,rfl,List.suffix_cons _ _,by simp⟩
  · simp only [Option.some.injEq,Prod.mk.injEq] at h
    obtain ⟨rfl,rfl,rfl⟩ := h
    exact ⟨⟨trivial,by simp [PlacedIn],rfl,Or.inr rfl⟩,rfl,List.suffix_cons _ _,by simp⟩
  · obtain ⟨⟨type,u,t⟩,hr,he⟩ := Option.map_eq_some_iff.mp h
    simp only [Prod.mk.injEq] at he
    obtain ⟨rfl,rfl,rfl⟩ := he
    obtain ⟨hread,⟨p,s,rfl,hp⟩,ht⟩ := scalarValue_spec hr
    refine ⟨⟨hread,?_,rfl,Or.inl ⟨p,s,rfl⟩⟩,rfl,ht⟩
    rintro q x he
    injection he with h1 h2
    exact h1 ▸ hp

theorem nameAndValue_suffix {obj : Node} {ptr t : Bytes} {name : Option Bytes}
    (h : nameAndValue obj ptr = some (name,t)) : t <:+ ptr := by
  unfold nameAndValue at h
  split_ifs at h
  · injection h with h
    injection h with _ h
    exact h ▸ List.suffix_rfl
  · obtain ⟨r,hr,he⟩ := Option.map_eq_some_iff.mp h
    injection he with _ he
    exact he ▸ (propertyName_suffix hr).1

/-- What one round of the loop can do to its state. -/
inductive Advances (qty : ℕ) (st st' : State) : Prop
  | skip (hobj : st'.obj = st.obj) (hnodes : st'.nodes = st.nodes)
  | close (obj : Node) (hobj : st.nodes[st.obj]? = some obj) (hpar : obj.sibling = some st'.obj)
      (hnodes : st'.nodes = st.nodes.modify st.obj (setSibling none))
  | push (property : Node) (opened : Bool) (hroom : st.nodes.length < qty)
      (hobj : st'.obj = if opened then st.nodes.length else st.obj)
      (hfresh : Fresh st.obj st.ptr property opened)
      (hnodes : st'.nodes = add st.nodes st.obj property)

theorem objStep_more {qty : ℕ} {st st' : State} (h : objStep qty st = .more st') :
    Advances qty st st' ∧ st'.ptr <:+ st.ptr ∧ st'.ptr.length < st.ptr.length := by
  unfold objStep at h
  split at h
  · rename_i c s obj hb hobj
    have hs := goBlank_suffix hb
    have hlen := hs.length_le
    simp only [List.length_cons] at hlen
    split_ifs at h with hcomma hend hroom
    · injection h with h
      subst h
      exact ⟨.skip rfl rfl,(List.suffix_cons _ _).trans hs,by simp only; omega⟩
    · split at h
      · cases h
      · rename_i parent hpar
        injection h with h
        subst h
        exact ⟨.close obj hobj hpar rfl,(List.suffix_cons _ _).trans hs,by simp only; omega⟩
    · split at h
      · cases h
      · rename_i name ptr hname
        split at h
        · cases h
        · rename_i property opened next hprop
          injection h with h
          subst h
          obtain ⟨hfresh,_,hns,hnl⟩ := newProperty_spec hprop
          have hp := nameAndValue_suffix hname
          have hpl := hp.length_le
          simp only [List.length_cons] at hpl
          have hps := hp.trans hs
          refine ⟨.push property opened (by omega) rfl ?_ rfl,hns.trans hps,by simp only; omega⟩
          exact ⟨hfresh.reads,fun q x he => (hfresh.placed q x he).trans hps,hfresh.sibling,
            hfresh.childless⟩
  · cases h

/-- The loop ends with the nodes it has when it closes the root. -/
theorem objStep_done {qty : ℕ} {st : State} {nodes : List Node} (h : objStep qty st = .done nodes) :
    nodes = st.nodes ∧ ∃ obj, st.nodes[st.obj]? = some obj ∧ obj.sibling = none := by
  unfold objStep at h
  split at h
  · rename_i c s obj hb hobj
    split_ifs at h
    · split at h
      · rename_i hsib
        injection h with h
        exact ⟨h.symm,obj,hobj,hsib⟩
      · cases h
    · split at h
      · cases h
      · split at h <;> cases h
  · cases h

/-- What every round keeps, the loop keeps. -/
theorem objValue_invariant {qty : ℕ} {P : State → Prop}
    (hstep : ∀ st st', P st → objStep qty st = .more st' → P st') {fuel : ℕ} {st : State}
    {nodes : List Node} (hP : P st) (h : objValue qty fuel st = some nodes) :
    ∃ last, P last ∧ objStep qty last = .done nodes := by
  induction fuel generalizing st with
  | zero => cases h
  | succ fuel ih =>
    rw [objValue] at h
    split at h
    · rename_i st' hs
      exact ih (hstep st st' hP hs) h
    · rename_i hs
      injection h with h
      exact ⟨st,hP,h ▸ hs⟩
    · cases h

/-- More fuel than text changes nothing. -/
theorem objValue_fuel {qty : ℕ} {fuel fuel' : ℕ} {st : State} (h : st.ptr.length < fuel)
    (h' : st.ptr.length < fuel') : objValue qty fuel st = objValue qty fuel' st := by
  induction fuel generalizing st fuel' with
  | zero => omega
  | succ fuel ih =>
    cases fuel' with
    | zero => omega
    | succ fuel' =>
      rw [objValue,objValue]
      split
      · rename_i st' hs
        have hl := (objStep_more hs).2.2
        exact ih (by omega) (by omega)
      · rfl
      · rfl

end Steps

section Links

def siblingAt (nodes : List Node) (i : ℕ) : Option (Option ℕ) := (nodes[i]?).map Node.sibling

/-- The objects and arrays around an open one, the root last, as `sibling` finds them. -/
inductive Enclosing (nodes : List Node) : ℕ → List ℕ → Prop
  | root (h : siblingAt nodes 0 = some none) : Enclosing nodes 0 []
  | inner {i j : ℕ} {outer : List ℕ} (h : siblingAt nodes i = some (some j)) (hlt : j < i)
      (hout : Enclosing nodes j outer) : Enclosing nodes i (j::outer)

theorem Enclosing.lt {nodes : List Node} {i : ℕ} {outer : List ℕ} (h : Enclosing nodes i outer) :
    ∀ j ∈ outer, j < i := by
  induction h with
  | root h => simp
  | inner h hlt hout ih =>
    intro k hk
    rcases List.mem_cons.mp hk with rfl | hk
    · exact hlt
    · exact (ih k hk).trans hlt

theorem siblingAt_lt {nodes : List Node} {i : ℕ} {s : Option ℕ} (h : siblingAt nodes i = some s) :
    i < nodes.length := by
  obtain ⟨node,hnode,_⟩ := Option.map_eq_some_iff.mp h
  exact (List.getElem?_eq_some_iff.mp hnode).1

theorem Enclosing.lt_length {nodes : List Node} {i : ℕ} {outer : List ℕ}
    (h : Enclosing nodes i outer) : i < nodes.length := by
  cases h with
  | root h => exact siblingAt_lt h
  | inner h _ _ => exact siblingAt_lt h

theorem Enclosing.congr {nodes nodes' : List Node} {i : ℕ} {outer : List ℕ}
    (h : Enclosing nodes i outer)
    (hs : ∀ j ∈ i::outer, siblingAt nodes' j = siblingAt nodes j) : Enclosing nodes' i outer := by
  induction h with
  | root h => exact .root ((hs 0 (by simp)).trans h)
  | inner h hlt hout ih =>
    exact .inner ((hs _ (by simp)).trans h) hlt (ih fun k hk => hs k (List.mem_cons_of_mem _ hk))

/-- A node that leads nowhere is the root, and one that leads somewhere is inside it. -/
theorem Enclosing.cases_sibling {nodes : List Node} {i : ℕ} {outer : List ℕ} {s : Option ℕ}
    (h : Enclosing nodes i outer) (hs : siblingAt nodes i = some s) :
    (s = none ∧ i = 0 ∧ outer = []) ∨
      ∃ j outer', s = some j ∧ outer = j::outer' ∧ j < i ∧ Enclosing nodes j outer' := by
  cases h with
  | root h =>
    rw [h] at hs
    injection hs with hs
    exact Or.inl ⟨hs.symm,rfl,rfl⟩
  | inner h hlt hout =>
    rw [h] at hs
    injection hs with hs
    exact Or.inr ⟨_,_,hs.symm,rfl,hlt,hout⟩

theorem addLink_sibling (n : ℕ) (node : Node) : (addLink n node).sibling = node.sibling := by
  unfold addLink
  split <;> rfl

theorem addLink_type (n : ℕ) (node : Node) : (addLink n node).type = node.type := by
  unfold addLink
  split <;> rfl

/-- Linking a new child changes no value, and leads only to the new child. -/
theorem addLink_u (n : ℕ) (node : Node) :
    (∀ ptr s, (addLink n node).u = .value ptr s ↔ node.u = .value ptr s) ∧
      (∀ type, Reads type (addLink n node).u ↔ Reads type node.u) ∧
      ∀ j, jsonGetChild (addLink n node) = some j ∨ lastChild? (addLink n node) = some j →
        j = n ∨ jsonGetChild node = some j := by
  unfold addLink
  split
  · rename_i hu
    refine ⟨by simp [hu],fun type => by cases type <;> simp [Reads,hu],?_⟩
    simp only [jsonGetChild,lastChild?]
    grind
  · rename_i hu
    refine ⟨by simp [hu],fun type => by cases type <;> simp [Reads,hu],?_⟩
    simp only [jsonGetChild,lastChild?,hu]
    grind
  · rename_i hu
    refine ⟨by simp,fun type => Iff.rfl,?_⟩
    simp only [jsonGetChild,lastChild?,hu]
    grind

/-- What `add` makes of the node at index `i`, when `last` was the last child of `obj`
and the new one is at index `n`. -/
def relink (n : ℕ) (last : Option ℕ) (obj i : ℕ) (node : Node) : Node :=
  let linked := if last = some i then setSibling (some n) node else node
  if i = obj then addLink n linked else linked

theorem getElem?_add (nodes : List Node) (obj : ℕ) (property : Node) (i : ℕ) :
    (add nodes obj property)[i]? = if i = nodes.length then some property
      else (nodes[i]?).map (relink nodes.length ((nodes[obj]?).bind lastChild?) obj i) := by
  unfold add
  generalize (nodes[obj]?).bind lastChild? = last
  by_cases hi : i = nodes.length
  · subst hi
    cases last <;> simp
  · rw [if_neg hi]
    rcases Nat.lt_or_gt_of_ne hi with hlt | hgt
    · cases last with
      | none =>
        rw [List.getElem?_append_left (by simpa using hlt)]
        cases hn : nodes[i]? <;> simp [List.getElem?_modify,relink,hn,eq_comm]
      | some last =>
        rw [List.getElem?_append_left (by simpa using hlt)]
        cases hn : nodes[i]? with
        | none => simp [List.getElem?_modify,hn]
        | some node =>
          simp only [List.getElem?_modify,hn,relink,Option.map_some,Option.some.injEq,
            Option.map_eq_map]
          by_cases h1 : obj = i <;> by_cases h2 : last = i <;> simp [h1,h2,Ne.symm]
    · rw [List.getElem?_eq_none (l := nodes) hgt.le,Option.map_none]
      apply List.getElem?_eq_none
      cases last <;> simp <;> omega

theorem relink_sibling {n obj i : ℕ} {last : Option ℕ} (h : last ≠ some i) (node : Node) :
    (relink n last obj i node).sibling = node.sibling := by
  simp only [relink,if_neg h]
  split_ifs
  · exact addLink_sibling _ _
  · rfl

/-- A node keeps its value and gains no link but to the new one. -/
theorem relink_cases (n : ℕ) (last : Option ℕ) (obj i : ℕ) (node : Node) :
    (∀ j, (relink n last obj i node).sibling = some j → j = n ∨ node.sibling = some j) ∧
    (∀ j, jsonGetChild (relink n last obj i node) = some j ∨
      lastChild? (relink n last obj i node) = some j →
      j = n ∨ jsonGetChild node = some j ∨ lastChild? node = some j) ∧
    (relink n last obj i node).type = node.type ∧
    (Reads (relink n last obj i node).type (relink n last obj i node).u ↔ Reads node.type node.u) ∧
    ∀ ptr s, (relink n last obj i node).u = .value ptr s ↔ node.u = .value ptr s := by
  obtain ⟨linked,hlink⟩ : ∃ linked, linked = if last = some i then
    setSibling (some n) node else node := ⟨_,rfl⟩
  have hsib : ∀ j, linked.sibling = some j → j = n ∨ node.sibling = some j := by
    intro j hj
    rw [hlink] at hj
    split_ifs at hj
    · exact Or.inl (Option.some.inj hj).symm
    · exact Or.inr hj
  have hu : linked.u = node.u ∧ linked.type = node.type := by
    rw [hlink]
    split_ifs <;> exact ⟨rfl,rfl⟩
  have hchild : jsonGetChild linked = jsonGetChild node ∧ lastChild? linked = lastChild? node := by
    simp [jsonGetChild,lastChild?,hu.1]
  simp only [relink,← hlink]
  by_cases hobj : i = obj
  · obtain ⟨h1,h2,h3⟩ := addLink_u n linked
    simp only [if_pos hobj]
    refine ⟨fun j hj => hsib j (addLink_sibling n linked ▸ hj),?_,?_,?_,?_⟩
    · intro j hj
      rw [← hchild.1]
      exact (h3 j hj).imp_right Or.inl
    · rw [addLink_type,hu.2]
    · rw [h2,hu.1,addLink_type,hu.2]
    · intro ptr s
      rw [h1,hu.1]
  · simp only [if_neg hobj]
    exact ⟨hsib,fun j hj => Or.inr (by rwa [hchild.1,hchild.2] at hj),hu.2,by rw [hu.1,hu.2],
      fun ptr s => by rw [hu.1]⟩

/-- A node after `add` is the new one or an old one relinked. -/
theorem add_cases {nodes : List Node} {obj i : ℕ} {property node' : Node}
    (h : (add nodes obj property)[i]? = some node') :
    (i = nodes.length ∧ node' = property) ∨
      ∃ node, nodes[i]? = some node ∧
        node' = relink nodes.length ((nodes[obj]?).bind lastChild?) obj i node := by
  rw [getElem?_add] at h
  split_ifs at h with hi
  · injection h with h
    exact Or.inl ⟨hi,h.symm⟩
  · obtain ⟨node,hnode,he⟩ := Option.map_eq_some_iff.mp h
    exact Or.inr ⟨node,hnode,he.symm⟩

/-- The loop's invariant: the open node and those around it are a chain of parents,
every other link leads forward, and each value is read from its own place. -/
structure Linked (str : Bytes) (qty : ℕ) (st : State) (outer : List ℕ) : Prop where
  ahead : st.ptr <:+ str
  enclosing : Enclosing st.nodes st.obj outer
  siblings : ∀ i node, st.nodes[i]? = some node → i ∉ st.obj::outer → ∀ j,
    node.sibling = some j → i < j ∧ j < st.nodes.length
  children : ∀ i node, st.nodes[i]? = some node → ∀ j,
    jsonGetChild node = some j ∨ lastChild? node = some j → i < j ∧ j < st.nodes.length
  reads : ∀ node ∈ st.nodes, Reads node.type node.u ∧ PlacedIn str node.u
  root : ∃ node, st.nodes[0]? = some node ∧ node.type = .obj
  room : st.nodes.length ≤ max qty 1

theorem siblingAt_eq {nodes : List Node} {i : ℕ} {node : Node} (h : nodes[i]? = some node) :
    siblingAt nodes i = some node.sibling := by rw [siblingAt,h]; rfl

theorem Linked.close {str : Bytes} {qty : ℕ} {st st' : State} {outer : List ℕ} (h : Linked str qty st outer)
    (hptr : st'.ptr <:+ str) {obj : Node} (hobj : st.nodes[st.obj]? = some obj)
    (hpar : obj.sibling = some st'.obj)
    (hnodes : st'.nodes = st.nodes.modify st.obj (setSibling none)) :
    ∃ outer', Linked str qty st' outer' := by
  have hlen : st'.nodes.length = st.nodes.length := by rw [hnodes]; simp
  have hget : ∀ i, st'.nodes[i]? = (st.nodes[i]?).map fun node =>
      if st.obj = i then setSibling none node else node := by
    intro i
    rw [hnodes,List.getElem?_modify]
    rfl
  obtain ⟨hn,_⟩ | ⟨j,outer',hj,rfl,hjlt,hout⟩ :=
    h.enclosing.cases_sibling (siblingAt_eq hobj)
  · rw [hpar] at hn; cases hn
  rw [hpar] at hj
  injection hj with hj
  subst hj
  refine ⟨outer',⟨hptr,hout.congr ?_,?_,?_,?_,?_,?_⟩⟩
  · intro k hk
    have hk' : st.obj ≠ k := by
      have := h.enclosing.lt k hk
      omega
    simp [siblingAt,hget,hk']
  · intro i node' hi hmem k hk
    rw [hget] at hi
    obtain ⟨node,hnode,rfl⟩ := Option.map_eq_some_iff.mp hi
    rw [hlen]
    split_ifs at hk with hoi
    · cases hk
    · refine h.siblings i node hnode ?_ k hk
      intro hmem'
      rcases List.mem_cons.mp hmem' with hm | hm
      · exact hoi hm.symm
      · exact hmem hm
  · intro i node' hi k hk
    rw [hget] at hi
    obtain ⟨node,hnode,rfl⟩ := Option.map_eq_some_iff.mp hi
    rw [hlen]
    refine h.children i node hnode k ?_
    split_ifs at hk <;> exact hk
  · intro node' hn
    obtain ⟨i,hi⟩ := List.mem_iff_getElem?.mp hn
    rw [hget] at hi
    obtain ⟨node,hnode,rfl⟩ := Option.map_eq_some_iff.mp hi
    have := h.reads node (List.mem_of_getElem? hnode)
    split_ifs <;> exact this
  · obtain ⟨node,hnode,htype⟩ := h.root
    refine ⟨_,(hget 0).trans (congrArg _ hnode),?_⟩
    split_ifs <;> exact htype
  · exact hlen ▸ h.room

section Push

variable {str : Bytes} {qty : ℕ} {st : State} {outer : List ℕ} {property : Node} {opened : Bool}

theorem Linked.lt_length (h : Linked str qty st outer) : ∀ k ∈ st.obj::outer, k < st.nodes.length := by
  intro k hk
  have hin := h.enclosing.lt_length
  rcases List.mem_cons.mp hk with rfl | hk
  · exact hin
  · exact (h.enclosing.lt k hk).trans hin

/-- The last child comes after the open node, and so after everything around it. -/
theorem Linked.lastChild_ne (h : Linked str qty st outer) :
    ∀ k ∈ st.obj::outer, (st.nodes[st.obj]?).bind lastChild? ≠ some k := by
  intro k hk hl
  obtain ⟨node,hnode,hl⟩ := Option.bind_eq_some_iff.mp hl
  have h1 := (h.children st.obj node hnode k (Or.inr hl)).1
  rcases List.mem_cons.mp hk with rfl | hk
  · omega
  · have := h.enclosing.lt k hk
    omega

theorem Linked.push_enclosing (h : Linked str qty st outer)
    (hfresh : Fresh st.obj st.ptr property opened) :
    Enclosing (add st.nodes st.obj property) (if opened then st.nodes.length else st.obj)
      (if opened then st.obj::outer else outer) := by
  have hget := getElem?_add st.nodes st.obj property
  have hold : Enclosing (add st.nodes st.obj property) st.obj outer := by
    refine h.enclosing.congr fun k hk => ?_
    have h1 : k ≠ st.nodes.length := (h.lt_length k hk).ne
    simp only [siblingAt,hget,if_neg h1,Option.map_map]
    congr 1
    funext node
    exact relink_sibling (h.lastChild_ne k hk) node
  have hnew : (add st.nodes st.obj property)[st.nodes.length]? = some property := by
    rw [hget,if_pos rfl]
  cases opened with
  | true =>
    exact .inner ((siblingAt_eq hnew).trans (congrArg some hfresh.sibling)) h.enclosing.lt_length hold
  | false => exact hold

theorem Linked.push_siblings (h : Linked str qty st outer)
    (hfresh : Fresh st.obj st.ptr property opened) {i : ℕ} {node' : Node}
    (hi : (add st.nodes st.obj property)[i]? = some node')
    (hmem : i ∉ (if opened then st.nodes.length else st.obj)::(if opened then st.obj::outer else outer))
    {k : ℕ} (hk : node'.sibling = some k) : i < k ∧ k < st.nodes.length+1 := by
  have hmem' : i ∉ st.obj::outer := by
    cases opened with
    | true => exact fun hm => hmem (List.mem_cons_of_mem _ hm)
    | false => exact hmem
  rcases add_cases hi with ⟨rfl,rfl⟩ | ⟨node,hnode,rfl⟩
  · rw [hfresh.sibling] at hk
    split_ifs at hk with ho
    rw [if_pos ho] at hmem
    exact absurd List.mem_cons_self hmem
  · have hlt := (List.getElem?_eq_some_iff.mp hnode).1
    rcases (relink_cases st.nodes.length _ st.obj i node).1 k hk with rfl | hk
    · omega
    · have := h.siblings i node hnode hmem' k hk
      omega

theorem Linked.push_children (h : Linked str qty st outer)
    (hfresh : Fresh st.obj st.ptr property opened) {i : ℕ} {node' : Node}
    (hi : (add st.nodes st.obj property)[i]? = some node') {k : ℕ}
    (hk : jsonGetChild node' = some k ∨ lastChild? node' = some k) :
    i < k ∧ k < st.nodes.length+1 := by
  rcases add_cases hi with ⟨rfl,rfl⟩ | ⟨node,hnode,rfl⟩
  · rcases hfresh.childless with ⟨ptr,x,hu⟩ | hu <;> simp [jsonGetChild,lastChild?,hu] at hk
  · have hlt := (List.getElem?_eq_some_iff.mp hnode).1
    rcases (relink_cases st.nodes.length _ st.obj i node).2.1 k hk with rfl | hk
    · omega
    · have := h.children i node hnode k hk
      omega

theorem Linked.push_reads (h : Linked str qty st outer)
    (hfresh : Fresh st.obj st.ptr property opened) {node' : Node}
    (hn : node' ∈ add st.nodes st.obj property) :
    Reads node'.type node'.u ∧ PlacedIn str node'.u := by
  obtain ⟨i,hi⟩ := List.mem_iff_getElem?.mp hn
  rcases add_cases hi with ⟨_,rfl⟩ | ⟨node,hnode,rfl⟩
  · exact ⟨hfresh.reads,fun ptr x he => (hfresh.placed ptr x he).trans h.ahead⟩
  · have hold := h.reads node (List.mem_of_getElem? hnode)
    obtain ⟨_,_,_,hreads,hu⟩ := relink_cases st.nodes.length _ st.obj i node
    exact ⟨hreads.mpr hold.1,fun ptr x he => hold.2 ptr x ((hu ptr x).mp he)⟩

theorem Linked.push_root (h : Linked str qty st outer) :
    ∃ node, (add st.nodes st.obj property)[0]? = some node ∧ node.type = .obj := by
  obtain ⟨node,hnode,htype⟩ := h.root
  have h0 : (0 : ℕ) ≠ st.nodes.length := by
    have := h.enclosing.lt_length
    omega
  refine ⟨_,(getElem?_add _ _ _ 0).trans (by rw [if_neg h0,hnode,Option.map_some]),?_⟩
  rw [(relink_cases st.nodes.length _ st.obj 0 node).2.2.1,htype]

theorem Linked.push (h : Linked str qty st outer) {st' : State} (hptr : st'.ptr <:+ str)
    (hobj : st'.obj = if opened then st.nodes.length else st.obj)
    (hroom : st.nodes.length < qty)
    (hfresh : Fresh st.obj st.ptr property opened)
    (hnodes : st'.nodes = add st.nodes st.obj property) : ∃ outer', Linked str qty st' outer' := by
  have hlen : st'.nodes.length = st.nodes.length+1 := by
    rw [hnodes,add]
    split <;> simp
  refine ⟨if opened then st.obj::outer else outer,⟨hptr,?_,?_,?_,?_,?_,?_⟩⟩
  · rw [hnodes,hobj]
    exact h.push_enclosing hfresh
  · intro i node' hi hmem k hk
    rw [hnodes] at hi
    rw [hobj] at hmem
    rw [hlen]
    exact h.push_siblings hfresh hi hmem hk
  · intro i node' hi k hk
    rw [hnodes] at hi
    rw [hlen]
    exact h.push_children hfresh hi hk
  · intro node' hn
    rw [hnodes] at hn
    exact h.push_reads hfresh hn
  · rw [hnodes]
    exact h.push_root
  · omega

end Push

theorem Linked.step {str : Bytes} {qty : ℕ} {st st' : State} {outer : List ℕ}
    (h : Linked str qty st outer) (hs : objStep qty st = .more st') :
    ∃ outer', Linked str qty st' outer' := by
  obtain ⟨hadv,hptr,_⟩ := objStep_more hs
  have hptr' := hptr.trans h.ahead
  obtain ⟨hobj,hnodes⟩ | ⟨obj,hobj,hpar,hnodes⟩ | ⟨property,opened,hroom,hobj,hfresh,hnodes⟩ := hadv
  · have henc := h.enclosing
    have hsib := h.siblings
    rw [← hobj] at henc hsib
    rw [← hnodes] at henc hsib
    exact ⟨outer,⟨hptr',henc,hsib,hnodes ▸ h.children,hnodes ▸ h.reads,hnodes ▸ h.root,
      hnodes ▸ h.room⟩⟩
  · exact h.close hptr' hobj hpar hnodes
  · exact h.push hptr' hobj hroom hfresh hnodes

theorem Linked.start (str ptr : Bytes) (qty : ℕ) (hptr : ptr <:+ str) :
    Linked str qty ⟨ptr,0,[rootNode]⟩ [] := by
  have hget : ∀ (i : ℕ) (node : Node), [rootNode][i]? = some node → node = rootNode := by
    intro i node h
    simpa using List.mem_of_getElem? h
  refine ⟨hptr,.root rfl,?_,?_,?_,⟨rootNode,rfl,rfl⟩,by simp⟩
  · intro i node h _ j hj
    rw [hget i node h] at hj
    cases hj
  · intro i node h j hj
    rw [hget i node h] at hj
    simp [rootNode,jsonGetChild,lastChild?] at hj
  · intro node h
    simp only [List.mem_singleton] at h
    subst h
    exact ⟨trivial,by simp [PlacedIn,rootNode]⟩

end Links

section Documents

/-- The nodes of a parsed text, with what the parser guarantees about them. -/
structure Document (str : Bytes) (qty : ℕ) where
  nodes : List Node
  root : ∃ node, nodes[0]? = some node ∧ node.type = .obj
  siblings : ∀ i node, nodes[i]? = some node → ∀ j, node.sibling = some j →
    i < j ∧ j < nodes.length
  children : ∀ i node, nodes[i]? = some node → ∀ j, jsonGetChild node = some j →
    i < j ∧ j < nodes.length
  reads : ∀ node ∈ nodes, Reads node.type node.u ∧ PlacedIn (cstr str) node.u
  room : nodes.length ≤ max qty 1

theorem jsonCreate_linked {str : Bytes} {qty : ℕ} {nodes : List Node}
    (h : jsonCreate str qty = some nodes) :
    ∃ st, Linked (cstr str) qty st [] ∧ st.obj = 0 ∧ st.nodes = nodes := by
  unfold jsonCreate at h
  split at h
  · rename_i s hb
    have hptr := (List.suffix_cons _ _).trans (goBlank_suffix hb)
    obtain ⟨last,⟨outer,hlast⟩,hdone⟩ := objValue_invariant
      (P := fun st => ∃ outer, Linked (cstr str) qty st outer)
      (fun st st' ⟨outer,hl⟩ hs => hl.step hs) ⟨[],Linked.start _ s qty hptr⟩ h
    obtain ⟨hnodes,obj,hobj,hsib⟩ := objStep_done hdone
    obtain ⟨_,h0,rfl⟩ | ⟨j,_,hj,_⟩ := hlast.enclosing.cases_sibling (siblingAt_eq hobj)
    · exact ⟨last,hlast,h0,hnodes.symm⟩
    · rw [hsib] at hj; cases hj
  · cases h

/-- The document in a text, when it parses. -/
def document {str : Bytes} {qty : ℕ} {nodes : List Node} (h : jsonCreate str qty = some nodes) :
    Document str qty where
  nodes := nodes
  root := by
    obtain ⟨st,hl,_,rfl⟩ := jsonCreate_linked h
    exact hl.root
  siblings := by
    obtain ⟨st,hl,h0,rfl⟩ := jsonCreate_linked h
    intro i node hnode j hj
    by_cases hi : i = 0
    · subst hi
      obtain ⟨hn,_⟩ | ⟨_,_,_,hc,_⟩ := hl.enclosing.cases_sibling (h0 ▸ siblingAt_eq hnode)
      · rw [hj] at hn; cases hn
      · cases hc
    · exact hl.siblings i node hnode (by simpa [h0] using hi) j hj
  children := by
    obtain ⟨st,hl,_,rfl⟩ := jsonCreate_linked h
    exact fun i node hnode j hj => hl.children i node hnode j (Or.inl hj)
  reads := by
    obtain ⟨st,hl,_,rfl⟩ := jsonCreate_linked h
    exact hl.reads
  room := by
    obtain ⟨st,hl,_,rfl⟩ := jsonCreate_linked h
    exact hl.room

@[simp] theorem siblings_none (nodes : List Node) (fuel : ℕ) :
    TinyJson.siblings nodes fuel none = [] := by cases fuel <;> rfl

theorem siblings_succ (nodes : List Node) (fuel i : ℕ) :
    TinyJson.siblings nodes (fuel+1) (some i) =
      match nodes[i]? with
      | some node => i::TinyJson.siblings nodes fuel node.sibling
      | none => [] := rfl

theorem siblings_of_length_le {nodes : List Node} {i : ℕ} (h : nodes.length ≤ i) (fuel : ℕ) :
    TinyJson.siblings nodes fuel (some i) = [] := by
  cases fuel with
  | zero => rfl
  | succ fuel => rw [siblings_succ,List.getElem?_eq_none h]

theorem lt_of_mem_siblings {nodes : List Node} {fuel : ℕ} {start : Option ℕ} {i : ℕ}
    (h : i ∈ TinyJson.siblings nodes fuel start) : i < nodes.length := by
  fun_induction TinyJson.siblings nodes fuel start with
  | case1 fuel j first hj ih =>
    rcases List.mem_cons.mp h with rfl | h
    · exact (List.getElem?_eq_some_iff.mp hj).1
    · exact ih h
  | case2 => cases h
  | case3 => cases h

variable {str : Bytes} {qty : ℕ} (doc : Document str qty)

/-- A walk needs no more fuel than there are nodes ahead. -/
theorem Document.siblings_fuel {fuel fuel' : ℕ} {start : Option ℕ}
    (h : ∀ i, start = some i → doc.nodes.length ≤ i+fuel)
    (h' : ∀ i, start = some i → doc.nodes.length ≤ i+fuel') :
    TinyJson.siblings doc.nodes fuel start = TinyJson.siblings doc.nodes fuel' start := by
  induction fuel generalizing start fuel' with
  | zero =>
    cases start with
    | none => simp
    | some i =>
      rw [siblings_of_length_le (by simpa using h i rfl),
        siblings_of_length_le (by simpa using h i rfl)]
  | succ fuel ih =>
    cases start with
    | none => simp
    | some i =>
      cases fuel' with
      | zero =>
        rw [siblings_of_length_le (by simpa using h' i rfl),
          siblings_of_length_le (by simpa using h' i rfl)]
      | succ fuel' =>
        rw [siblings_succ,siblings_succ]
        have h1 := h i rfl
        have h2 := h' i rfl
        cases hn : doc.nodes[i]? with
        | none => rfl
        | some node =>
          have hfwd := doc.siblings i node hn
          have := @ih fuel' node.sibling
            (fun j hj => by have := hfwd j hj; omega) (fun j hj => by have := hfwd j hj; omega)
          simp only [this]

/-- What lies behind the nodes in the pool is not visited. -/
theorem Document.siblings_append (rest : List Node) {fuel : ℕ} {start : Option ℕ}
    (h : ∀ i, start = some i → i < doc.nodes.length) :
    TinyJson.siblings (doc.nodes++rest) fuel start = TinyJson.siblings doc.nodes fuel start := by
  induction fuel generalizing start with
  | zero => rfl
  | succ fuel ih =>
    cases start with
    | none => rfl
    | some i =>
      have hi := h i rfl
      rw [siblings_succ,siblings_succ,List.getElem?_append_left hi]
      cases hn : doc.nodes[i]? with
      | none => rfl
      | some node =>
        simp only [@ih node.sibling fun j hj => (doc.siblings i node hn j hj).2]

theorem Document.childIndices_append (rest : List Node) {obj : Node} (hobj : obj ∈ doc.nodes) :
    childIndices (doc.nodes++rest) obj = childIndices doc.nodes obj := by
  obtain ⟨i,hi⟩ := List.mem_iff_getElem?.mp hobj
  have hlink := doc.children i obj hi
  unfold childIndices
  rw [doc.siblings_append rest fun j hj => (hlink j hj).2]
  refine doc.siblings_fuel (fun j hj => ?_) (fun j _ => by omega)
  rw [List.length_append]
  omega

theorem Document.children_append (rest : List Node) {obj : Node} (hobj : obj ∈ doc.nodes) :
    TinyJson.children (doc.nodes++rest) obj = TinyJson.children doc.nodes obj := by
  unfold TinyJson.children
  rw [doc.childIndices_append rest hobj]
  refine List.filterMap_congr fun i hi => ?_
  exact List.getElem?_append_left (lt_of_mem_siblings hi)

theorem mem_of_mem_children {nodes : List Node} {obj node : Node}
    (h : node ∈ TinyJson.children nodes obj) : node ∈ nodes := by
  obtain ⟨i,_,hi⟩ := List.mem_filterMap.mp h
  exact List.mem_of_getElem? hi

theorem mem_of_jsonGetProperty {nodes : List Node} {obj node : Node} {name : Bytes}
    (h : jsonGetProperty nodes obj name = some node) : node ∈ nodes :=
  mem_of_mem_children (List.mem_of_find?_eq_some h)

/-- A text value is the flattened literal at its place in the text. -/
theorem Document.text_value {node : Node} (h : node ∈ doc.nodes) (ht : node.type = .text) :
    ∃ ptr items rest, ptr <:+ cstr str ∧ literal? ptr = some (items,rest) ∧
      node.u = .value ptr (flatten 0x3f items) := by
  obtain ⟨hread,hplace⟩ := doc.reads node h
  rw [ht] at hread
  cases hu : node.u with
  | container c l => simp [hu,Reads] at hread
  | value ptr s =>
    rw [hu] at hread
    obtain ⟨rest,hr⟩ := hread
    rw [parseString_eq] at hr
    obtain ⟨⟨items,rest'⟩,hl,he⟩ := Option.map_eq_some_iff.mp hr
    injection he with he1 he2
    exact ⟨ptr,items,rest',hplace ptr s hu,hl,by rw [← he1]⟩

/-- An integer value is a numeral of the signed 64-bit range. -/
theorem Document.integer_value {node : Node} (h : node ∈ doc.nodes) (ht : node.type = .integer) :
    ∃ ptr s, ptr <:+ cstr str ∧ node.u = .value ptr s ∧ IsInteger s ∧
      jsonGetInteger node = integer s ∧ -2^63 ≤ integer s ∧ integer s < 2^63 := by
  obtain ⟨hread,hplace⟩ := doc.reads node h
  rw [ht] at hread
  cases hu : node.u with
  | container c l => simp [hu,Reads] at hread
  | value ptr s =>
    rw [hu] at hread
    obtain ⟨hint,hb⟩ := hread
    refine ⟨ptr,s,hplace ptr s hu,rfl,hint,?_,hb⟩
    rw [jsonGetInteger,jsonGetValue,hu]
    exact atoll_eq_integer hint

end Documents

end TinyJson
end RemotePkgInstaller
