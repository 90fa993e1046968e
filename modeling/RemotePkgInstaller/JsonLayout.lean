import RemotePkgInstaller.JsonSteps

/-! How the nodes of a document lie in the pool: every node is followed by everything below
it, and linked to the next child of the object or array that it is in.  What the parser adds
to such a layout is described here, and what the walks over it find. -/
namespace RemotePkgInstaller
namespace TinyJson

open JsonText

/-- A node and everything below it. -/
structure Subtree where
  head : Node
  below : List Node

def Subtree.size (t : Subtree) : ℕ := t.below.length+1

def Subtree.nodes (next : Option ℕ) (t : Subtree) : List Node := setSibling next t.head::t.below

def leaf (node : Node) : Subtree := ⟨node,[]⟩

def extent (ts : List Subtree) : ℕ := (ts.map Subtree.size).sum

/-- Children that lie in the pool from `i` on, when there is another one behind them. -/
def linked : ℕ → List Subtree → List Node
  | _,[] => []
  | i,t::ts => t.nodes (some (i+t.size))++linked (i+t.size) ts

def nextIndex (i : ℕ) (t : Subtree) (ts : List Subtree) : Option ℕ :=
  if ts = [] then none else some (i+t.size)

/-- All children of an object or array. -/
def chain : ℕ → List Subtree → List Node
  | _,[] => []
  | i,t::ts => t.nodes (nextIndex i t ts)++chain (i+t.size) ts

/-- The links of an object or array at index `b`. -/
def links (b : ℕ) (ts : List Subtree) : Payload :=
  if ts = [] then .container none none
  else .container (some (b+1)) (some (b+1+extent ts.dropLast))

def withLinks (b : ℕ) (node : Node) (ts : List Subtree) : Node := { node with u := links b ts }

/-- An object or array at index `b` with its children. -/
def family (b : ℕ) (node : Node) (ts : List Subtree) : List Node :=
  withLinks b node ts::chain (b+1) ts

/-- The same as a child, after it has been read. -/
def closed (b : ℕ) (node : Node) (ts : List Subtree) : Subtree :=
  ⟨withLinks b node ts,chain (b+1) ts⟩

/-- The children as the walks find them. -/
def heads : ℕ → List Subtree → List Node
  | _,[] => []
  | i,t::ts => setSibling (nextIndex i t ts) t.head::heads (i+t.size) ts

def indices : ℕ → List Subtree → List ℕ
  | _,[] => []
  | i,t::ts => i::indices (i+t.size) ts

section Layout

theorem length_nodes (next : Option ℕ) (t : Subtree) : (t.nodes next).length = t.size := rfl

@[simp] theorem extent_nil : extent [] = 0 := rfl
@[simp] theorem extent_cons (t : Subtree) (ts : List Subtree) :
    extent (t::ts) = t.size+extent ts := by simp [extent]
@[simp] theorem extent_append (ts us : List Subtree) : extent (ts++us) = extent ts+extent us := by
  simp [extent]

theorem length_linked (i : ℕ) (ts : List Subtree) : (linked i ts).length = extent ts := by
  induction ts generalizing i with
  | nil => rfl
  | cons t ts ih => rw [linked,List.length_append,length_nodes,ih,extent_cons]

theorem length_chain (i : ℕ) (ts : List Subtree) : (chain i ts).length = extent ts := by
  induction ts generalizing i with
  | nil => rfl
  | cons t ts ih => rw [chain,List.length_append,length_nodes,ih,extent_cons]

theorem length_family (b : ℕ) (node : Node) (ts : List Subtree) :
    (family b node ts).length = extent ts+1 := by
  rw [family,List.length_cons,length_chain]

theorem chain_concat (i : ℕ) (ts : List Subtree) (t : Subtree) :
    chain i (ts++[t]) = linked i ts++t.nodes none := by
  induction ts generalizing i with
  | nil => simp [chain,linked,nextIndex]
  | cons u ts ih =>
    have hnext : nextIndex i u (ts++[t]) = some (i+u.size) := if_neg (by simp)
    rw [List.cons_append,chain,ih,linked,hnext,List.append_assoc]

theorem linked_concat (i : ℕ) (ts : List Subtree) (t : Subtree) :
    linked i (ts++[t]) = linked i ts++t.nodes (some (i+extent ts+t.size)) := by
  induction ts generalizing i with
  | nil => simp [linked]
  | cons u ts ih =>
    rw [List.cons_append,linked,ih,linked,List.append_assoc,extent_cons,← Nat.add_assoc]

theorem links_concat (b : ℕ) (ts : List Subtree) (t : Subtree) :
    links b (ts++[t]) = .container (some (b+1)) (some (b+1+extent ts)) := by
  rw [links,if_neg (by simp),List.dropLast_concat]

end Layout

section Adding

theorem modify_length (front back : List Node) (node : Node) (f : Node → Node) :
    (front++node::back).modify front.length f = front++f node::back := by
  induction front with
  | nil => rfl
  | cons c front ih => exact congrArg (c::·) ih

/-- The first child of an object or array. -/
theorem add_first (front back : List Node) {obj : Node} (h : lastChild? obj = none)
    (property : Node) :
    add (front++obj::back) front.length property =
      front++addLink (front.length+back.length+1) obj::(back++[property]) := by
  have hget : (front++obj::back)[front.length]? = some obj := by simp
  have hlen : (front++obj::back).length = front.length+back.length+1 := by simp; omega
  simp only [add,hget,Option.bind_some,h,modify_length,hlen,List.append_assoc,List.cons_append]

/-- Another child: the one before it is linked to it. -/
theorem add_next {front middle : List Node} (back : List Node) {obj : Node} (last : Node)
    (h : lastChild? obj = some (front.length+middle.length+1)) (property : Node) :
    add (front++obj::(middle++last::back)) front.length property =
      front++addLink (front.length+middle.length+back.length+2) obj::(middle++
        setSibling (some (front.length+middle.length+back.length+2)) last::(back++[property])) := by
  have hget : (front++obj::(middle++last::back))[front.length]? = some obj := by simp
  have hlen : (front++obj::(middle++last::back)).length =
      front.length+middle.length+back.length+2 := by simp; omega
  have hlast : ∀ f, (front++obj::(middle++last::back)).modify (front.length+middle.length+1) f =
      front++obj::(middle++f last::back) := by
    intro f
    have hm := modify_length (front++obj::middle) back last f
    simpa [Nat.add_assoc] using hm
  simp only [add,hget,Option.bind_some,h,hlast,modify_length,hlen,List.append_assoc,
    List.cons_append]

/-- A new child comes after all the others, which are linked by then. -/
theorem add_family (front : List Node) (node : Node) (ts : List Subtree) (property : Node) :
    add (front++family front.length node ts) front.length property =
      (front++withLinks front.length node (ts++[leaf property])::linked (front.length+1) ts)++
        [property] := by
  rcases List.eq_nil_or_concat' ts with rfl | ⟨us,u,rfl⟩
  · have hadd := add_first front []
      (show lastChild? (withLinks front.length node []) = none from rfl) property
    simpa [family,chain,linked,withLinks,links,addLink] using hadd
  · have hlast : lastChild? (withLinks front.length node (us++[u])) =
        some (front.length+(linked (front.length+1) us).length+1) := by
      rw [withLinks,links_concat,length_linked]
      exact congrArg some (by omega)
    have hadd := add_next u.below (setSibling none u.head) hlast property
    have hn : front.length+(linked (front.length+1) us).length+u.below.length+2 =
        front.length+1+extent us+u.size := by
      rw [length_linked,Subtree.size]
      omega
    have hlinks : addLink (front.length+1+extent us+u.size)
        (withLinks front.length node (us++[u])) =
        withLinks front.length node (us++[u]++[leaf property]) := by
      simp only [withLinks,links_concat,addLink,extent_append,extent_cons,extent_nil,Nat.add_zero,
        Nat.add_assoc]
    rw [hn,hlinks] at hadd
    rw [family,chain_concat,linked_concat,Subtree.nodes,hadd]
    simp only [Subtree.nodes,setSibling,List.append_assoc,List.cons_append]

/-- A child without children of its own. -/
theorem add_leaf {front : List Node} {node property : Node} (h : property.sibling = none)
    (ts : List Subtree) :
    add (front++family front.length node ts) front.length property =
      front++family front.length node (ts++[leaf property]) := by
  have hnodes : (leaf property).nodes none = [property] := by
    rw [Subtree.nodes,leaf,setSibling,← h]
  rw [add_family,family,chain_concat,hnodes,List.append_assoc,List.cons_append]

/-- At its end an object or array becomes a child of the one around it. -/
theorem leave_family (front : List Node) (b : ℕ) (node outer : Node) (ts us : List Subtree)
    (hb : b = front.length+1+extent us) :
    ((front++withLinks front.length outer (us++[leaf node])::linked (front.length+1) us)++
        family b node ts).modify b (setSibling none) =
      front++family front.length outer (us++[closed b node ts]) := by
  have hlen : b = (front++withLinks front.length outer (us++[leaf node])::
      linked (front.length+1) us).length := by
    rw [hb,List.length_append,List.length_cons,length_linked]
    omega
  have hlinks : withLinks front.length outer (us++[leaf node]) =
      withLinks front.length outer (us++[closed b node ts]) := by
    simp only [withLinks,links_concat]
  rw [family,hlen,modify_length,← hlen,hlinks,family,chain_concat,Subtree.nodes,closed,
    List.append_assoc,List.cons_append]

end Adding

section Walking

variable {front back : List Node}

theorem siblings_chain (i : ℕ) (hi : i = front.length) (t : Subtree) (ts : List Subtree)
    {fuel : ℕ} (hfuel : ts.length < fuel) :
    siblings (front++chain i (t::ts)++back) fuel (some i) = indices i (t::ts) := by
  induction ts generalizing i t front fuel with
  | nil =>
    obtain ⟨fuel,rfl⟩ := Nat.exists_eq_add_one.mpr (Nat.zero_lt_of_lt hfuel)
    subst hi
    simp [siblings_succ,chain,Subtree.nodes,nextIndex,setSibling,indices]
  | cons u us ih =>
    obtain ⟨fuel,rfl⟩ := Nat.exists_eq_add_one.mpr (Nat.zero_lt_of_lt hfuel)
    subst hi
    have hnext : nextIndex front.length t (u::us) = some (front.length+t.size) := if_neg (by simp)
    have hsplit : front++chain front.length (t::u::us)++back =
        (front++t.nodes (some (front.length+t.size)))++chain (front.length+t.size) (u::us)++back := by
      rw [chain,hnext]
      simp only [List.append_assoc]
    have hget : (front++chain front.length (t::u::us)++back)[front.length]? =
        some (setSibling (some (front.length+t.size)) t.head) := by
      rw [hsplit]
      simp [Subtree.nodes]
    have hrest := @ih (front++t.nodes (some (front.length+t.size)))
      (front.length+t.size) (by simp [length_nodes]) u _
      (show us.length < fuel by simpa using hfuel)
    rw [siblings_succ,hget]
    simp only [setSibling]
    rw [hsplit,hrest]
    rfl

theorem filterMap_indices (i : ℕ) (hi : i = front.length) (ts : List Subtree) :
    (indices i ts).filterMap ((front++chain i ts++back)[·]?) = heads i ts := by
  induction ts generalizing i front with
  | nil => rfl
  | cons t ts ih =>
    subst hi
    have hget : (front++chain front.length (t::ts)++back)[front.length]? =
        some (setSibling (nextIndex front.length t ts) t.head) := by
      simp [chain,Subtree.nodes]
    have hsplit : front++chain front.length (t::ts)++back =
        (front++t.nodes (nextIndex front.length t ts))++chain (front.length+t.size) ts++back := by
      rw [chain]
      simp only [List.append_assoc]
    have hrest := @ih (front++t.nodes (nextIndex front.length t ts))
      (front.length+t.size) (by simp [length_nodes])
    rw [indices,List.filterMap_cons,hget,heads]
    simp only
    rw [hsplit,hrest]

theorem length_le_extent (ts : List Subtree) : ts.length ≤ extent ts := by
  induction ts with
  | nil => exact le_rfl
  | cons t ts ih =>
    rw [List.length_cons,extent_cons,Subtree.size]
    omega

theorem childIndices_family (node : Node) (ts : List Subtree) :
    childIndices (front++family front.length node ts++back) (withLinks front.length node ts) =
      indices (front.length+1) ts := by
  cases ts with
  | nil => simp [childIndices,jsonGetChild,withLinks,links,indices]
  | cons t ts =>
    have hsplit : front++family front.length node (t::ts)++back =
        (front++[withLinks front.length node (t::ts)])++chain (front.length+1) (t::ts)++back := by
      simp [family]
    have hfuel : ts.length < (front++family front.length node (t::ts)++back).length := by
      have hle := length_le_extent ts
      simp only [List.length_append,length_family,extent_cons,Subtree.size]
      omega
    have hchild : jsonGetChild (withLinks front.length node (t::ts)) = some (front.length+1) := rfl
    rw [childIndices,hchild]
    rw [hsplit] at hfuel ⊢
    exact siblings_chain (front.length+1) (by simp) t ts hfuel

/-- The walk over the children of an object or array finds them, and in order. -/
theorem children_family (node : Node) (ts : List Subtree) :
    children (front++family front.length node ts++back) (withLinks front.length node ts) =
      heads (front.length+1) ts := by
  have hsplit : front++family front.length node ts++back =
      (front++[withLinks front.length node ts])++chain (front.length+1) ts++back := by
    simp [family]
  rw [children,childIndices_family,hsplit]
  exact filterMap_indices (front.length+1) (by simp) ts

end Walking

end TinyJson
end RemotePkgInstaller
