import RemotePkgInstaller.InstallUrl
import RemotePkgInstaller.Interleaving
import RemotePkgInstaller.JsonDocument
import Mathlib.Data.List.Find

/-! The piece URLs of a reference package json.  Every call of the reader allocates a
node pool and stores it in one static variable, from which it takes the pool again
to clear it and to parse into it. -/
namespace RemotePkgInstaller
namespace PieceUrls

open HttpText InstallUrl Interleaving TinyJson Util

def poolSize : ℕ := 256

/-- One call: its downloaded json, what the pool it is given holds, what a failed parse
leaves in a pool, and how its allocations and conversions end. -/
structure Call where
  text : Bytes
  poolAllocated : Bool
  malloced : List Node
  leftBehind : List Node → List Node
  checkSdk : TextSdk
  listAllocated : Bool
  fillSdk : TextSdk
  encodeAllocated : ℕ → Bool

/-- A node of zero bytes. -/
def zeroNode : Node := ⟨none,none,.container none none,.obj⟩

/-- The array that is returned, with the entries that are filled. -/
abbrev Result := Option (List (Option Bytes))

/-- Where a call stands; `pool` is where its root is. -/
inductive Phase
  | start
  | allocated
  | cleared
  | parsed (pool : ℕ)
  | validated (pool field count : ℕ)
  | done (result : Result)
  | fault
  deriving DecidableEq

/-- The pools allocated so far and the static variable. -/
structure Shared where
  heap : ℕ → List Node
  allocatedPools : ℕ
  pool : Option ℕ

def Shared.store (s : Shared) (pool : ℕ) (nodes : List Node) : Shared :=
  { s with heap := Function.update s.heap pool nodes }

@[simp] theorem Shared.store_pool (s : Shared) (pool : ℕ) (nodes : List Node) :
    (s.store pool nodes).pool = s.pool := rfl
@[simp] theorem Shared.store_allocatedPools (s : Shared) (pool : ℕ) (nodes : List Node) :
    (s.store pool nodes).allocatedPools = s.allocatedPools := rfl
@[simp] theorem Shared.store_heap_self (s : Shared) (pool : ℕ) (nodes : List Node) :
    (s.store pool nodes).heap pool = nodes := by simp [Shared.store]
theorem Shared.store_heap_of_ne {pool p : ℕ} (h : p ≠ pool) (s : Shared) (nodes : List Node) :
    (s.store pool nodes).heap p = s.heap p := by simp [Shared.store,h]

def checkPiece (sdk : TextSdk) (nodes : List Node) (piece : Node) : Bool :=
  jsonGetType piece = .obj &&
    match jsonGetPropertyValue nodes piece (bytes "url") with
    | none => false
    | some propVal =>
      propVal ≠ [] &&
        match httpUnescapeUri sdk propVal with
        | none => false
        | some url => startsWith url (bytes "http://") || startsWith url (bytes "https://")

/-- The validating walk: the index of the `pieces` field and the number of pieces. -/
def validate (sdk : TextSdk) (nodes : List Node) : Option (ℕ × ℕ) := do
  let root ← nodes[0]?
  let i ← (childIndices nodes root).find? fun i =>
    (nodes[i]?).any fun node => node.name = some (bytes "pieces")
  let field ← nodes[i]?
  let pieces := children nodes field
  if jsonGetType field = .array && pieces.all (checkPiece sdk nodes) && pieces.length ≠ 0 then
    some (i,pieces.length)
  else none

/-- The URL for one entry of the array. -/
def pieceUrl (sdk : TextSdk) (nodes : List Node) (alloc : ℕ → Bool) (piece : Node × ℕ) :
    Option Bytes := do
  let propVal ← jsonGetPropertyValue nodes piece.1 (bytes "url")
  let url ← installUrl sdk propVal
  if alloc piece.2 then some url else none

/-- The filling walk over the children of the field; more of them than the array has
entries are written past its end. -/
def fill (call : Call) (nodes : List Node) (i count : ℕ) : Phase :=
  let pieces := ((nodes[i]?).map (children nodes)).getD []
  if count < pieces.length then .fault
  else
    let urls := (pieces.zipIdx.map (pieceUrl call.fillSdk nodes call.encodeAllocated)).mapM id
    .done (urls.map fun urls => urls.map some++List.replicate (count-pieces.length) none)

/-- One step of a call of `pkg_extract_piece_urls_from_ref_pkg_json`. -/
def step (call : Call) (s : Shared) : Phase → Shared × Phase
  | .start =>
    if call.poolAllocated then
      (⟨Function.update s.heap s.allocatedPools call.malloced,s.allocatedPools+1,
        some s.allocatedPools⟩,.allocated)
    else ({ s with pool := none },.done none)
  | .allocated =>
    match s.pool with
    | none => (s,.fault)
    | some pool => (s.store pool (List.replicate poolSize zeroNode),.cleared)
  | .cleared =>
    match s.pool with
    | none => (s,.fault)
    | some pool =>
      match jsonCreate call.text poolSize with
      | none => (s.store pool (call.leftBehind (s.heap pool)),.done none)
      | some nodes => (s.store pool (nodes++(s.heap pool).drop nodes.length),.parsed pool)
  | .parsed pool =>
    match validate call.checkSdk (s.heap pool) with
    | none => (s,.done none)
    | some (field,count) =>
      if call.listAllocated then (s,.validated pool field count) else (s,.done none)
  | .validated pool field count => (s,fill call (s.heap pool) field count)
  | .done result => (s,.done result)
  | .fault => (s,.fault)

/-- The walks of a call are still ahead of it, and read this pool. -/
def WalksIn : Phase → ℕ → Prop
  | .parsed pool,p => pool = p
  | .validated pool _ _,p => pool = p
  | _,_ => False

/-- The static variable holds a pool that no other call is about to walk through. -/
def OwnsPool {ι : Type} (i : ι) (g : Global ι Shared Phase) : Prop :=
  ∃ pool, g.shared.pool = some pool ∧ ∀ j, j ≠ i → ¬ WalksIn (g.locals j) pool

/-- The steps that go through the static variable find a pool there that is theirs. -/
def MayStep {ι : Type} (i : ι) (g : Global ι Shared Phase) : Prop :=
  g.locals i = .allocated ∨ g.locals i = .cleared → OwnsPool i g

/-- What a call makes of its own json. -/
def ownResult (call : Call) : Phase :=
  if call.poolAllocated = false then .done none
  else
    match jsonCreate call.text poolSize with
    | none => .done none
    | some nodes =>
      match validate call.checkSdk nodes with
      | none => .done none
      | some (field,count) =>
        if call.listAllocated then fill call nodes field count else .done none

section Walks

variable {str : Bytes} {qty : ℕ} (doc : Document str qty) (rest : List Node)

theorem jsonGetPropertyValue_append {obj : Node} (hobj : obj ∈ doc.nodes) (name : Bytes) :
    jsonGetPropertyValue (doc.nodes++rest) obj name = jsonGetPropertyValue doc.nodes obj name := by
  simp only [jsonGetPropertyValue,jsonGetProperty,doc.children_append rest hobj]

theorem checkPiece_append (sdk : TextSdk) {piece : Node} (hp : piece ∈ doc.nodes) :
    checkPiece sdk (doc.nodes++rest) piece = checkPiece sdk doc.nodes piece := by
  simp only [checkPiece,jsonGetPropertyValue_append doc rest hp]

/-- What lies behind the nodes of a document does not change what the walks read. -/
theorem validate_append (sdk : TextSdk) :
    validate sdk (doc.nodes++rest) = validate sdk doc.nodes := by
  obtain ⟨root,hroot,_⟩ := doc.root
  have hroot' : (doc.nodes++rest)[0]? = some root := by
    rw [List.getElem?_append_left (List.getElem?_eq_some_iff.mp hroot).1,hroot]
  have hfind : ∀ i ∈ childIndices doc.nodes root, (doc.nodes++rest)[i]? = doc.nodes[i]? :=
    fun i hi => List.getElem?_append_left (lt_of_mem_siblings hi)
  simp only [validate,hroot,hroot',Option.bind_eq_bind,Option.bind_some,
    doc.childIndices_append rest (List.mem_of_getElem? hroot)]
  rw [List.find?_congr fun i hi => by rw [hfind i hi]]
  cases hi : (childIndices doc.nodes root).find? _ with
  | none => rfl
  | some i =>
    simp only [Option.bind_some,hfind i (List.mem_of_find?_eq_some hi)]
    cases hfield : doc.nodes[i]? with
    | none => rfl
    | some field =>
      have hall : (children doc.nodes field).all (checkPiece sdk (doc.nodes++rest)) =
          (children doc.nodes field).all (checkPiece sdk doc.nodes) := by
        rw [Bool.eq_iff_iff]
        simp only [List.all_eq_true]
        exact forall₂_congr fun p hp => by
          rw [checkPiece_append doc rest sdk (mem_of_mem_children hp)]
      simp only [Option.bind_some,doc.children_append rest (List.mem_of_getElem? hfield),hall]

theorem fill_append (call : Call) {i count : ℕ} (hi : i < doc.nodes.length) :
    fill call (doc.nodes++rest) i count = fill call doc.nodes i count := by
  have hget : (doc.nodes++rest)[i]? = doc.nodes[i]? := List.getElem?_append_left hi
  obtain ⟨field,hfield⟩ : ∃ field, doc.nodes[i]? = some field :=
    ⟨_,List.getElem?_eq_getElem hi⟩
  have hmap : (children doc.nodes field).zipIdx.map
        (pieceUrl call.fillSdk (doc.nodes++rest) call.encodeAllocated) =
      (children doc.nodes field).zipIdx.map
        (pieceUrl call.fillSdk doc.nodes call.encodeAllocated) := by
    refine List.map_congr_left fun piece hpiece => ?_
    have hp := mem_of_mem_children (List.fst_mem_of_mem_zipIdx hpiece)
    simp only [pieceUrl,jsonGetPropertyValue_append doc rest hp]
  simp only [fill,hget,hfield,Option.map_some,Option.getD_some,
    doc.children_append rest (List.mem_of_getElem? hfield),hmap]

/-- A validated field lies among the nodes, and the filling walk finds as many pieces
as have been counted. -/
theorem fill_of_validate {sdk : TextSdk} {nodes : List Node} {i count : ℕ}
    (h : validate sdk nodes = some (i,count)) :
    i < nodes.length ∧ ∀ call, ∃ result, fill call nodes i count = .done result := by
  simp only [validate,Option.bind_eq_bind,Option.bind_eq_some_iff] at h
  obtain ⟨root,_,j,_,field,hfield,h⟩ := h
  split_ifs at h
  simp only [Option.some.injEq,Prod.mk.injEq] at h
  obtain ⟨rfl,rfl⟩ := h
  refine ⟨(List.getElem?_eq_some_iff.mp hfield).1,fun call => ?_⟩
  simp [fill,hfield]

end Walks

/-- What a call at some phase is sure of: it will make of its json what it makes of it
alone, and so will the nodes in the pool that it walks through. -/
def Assertion (call : Call) (s : Shared) (phase : Phase) : Prop :=
  (∀ pool, s.pool = some pool → pool < s.allocatedPools) ∧
  match phase with
  | .start => True
  | .allocated | .cleared => call.poolAllocated = true
  | .parsed pool => call.poolAllocated = true ∧ pool < s.allocatedPools ∧
      ∃ nodes rest, jsonCreate call.text poolSize = some nodes ∧ s.heap pool = nodes++rest
  | .validated pool field count => call.poolAllocated = true ∧ pool < s.allocatedPools ∧
      ∃ nodes rest, jsonCreate call.text poolSize = some nodes ∧ s.heap pool = nodes++rest ∧
        validate call.checkSdk nodes = some (field,count) ∧ call.listAllocated = true
  | .done result => ownResult call = .done result
  | .fault => False

section Steps

variable {ι : Type} (calls : ι → Call)

/-- The validating walk sees only the call's own nodes. -/
theorem assertion_validate {call : Call} {s : Shared} {pool : ℕ}
    (hA : Assertion call s (.parsed pool)) :
    Assertion call (step call s (.parsed pool)).1 (step call s (.parsed pool)).2 := by
  obtain ⟨hpools,halloc,hlt,nodes,rest,hc,hheap⟩ := hA
  have hv : validate call.checkSdk (s.heap pool) = validate call.checkSdk nodes := by
    rw [hheap]
    exact validate_append (document hc) rest _
  simp only [step,hv]
  cases hval : validate call.checkSdk nodes with
  | none => exact ⟨hpools,by simp [ownResult,halloc,hc,hval]⟩
  | some fc =>
    obtain ⟨field,count⟩ := fc
    simp only
    split_ifs with hlist
    · exact ⟨hpools,halloc,hlt,nodes,rest,hc,hheap,hval,hlist⟩
    · exact ⟨hpools,by simp [ownResult,halloc,hc,hval,hlist]⟩

/-- The filling walk finds as many pieces as the validating walk has counted. -/
theorem assertion_fill {call : Call} {s : Shared} {pool field count : ℕ}
    (hA : Assertion call s (.validated pool field count)) :
    Assertion call (step call s (.validated pool field count)).1
      (step call s (.validated pool field count)).2 := by
  obtain ⟨hpools,halloc,hlt,nodes,rest,hc,hheap,hval,hlist⟩ := hA
  obtain ⟨hfield,hdone⟩ := fill_of_validate hval
  obtain ⟨result,hr⟩ := hdone call
  have hf : fill call (s.heap pool) field count = fill call nodes field count := by
    rw [hheap]
    exact fill_append (document hc) rest _ hfield
  have hown : ownResult call = fill call nodes field count := by
    simp [ownResult,halloc,hc,hval,hlist]
  simp only [step,hf,hr]
  exact ⟨hpools,hown.trans hr⟩

theorem assertion_own (i : ι) (g : Global ι Shared Phase)
    (hA : Assertion (calls i) g.shared (g.locals i)) (hP : MayStep i g) :
    Assertion (calls i) (step (calls i) g.shared (g.locals i)).1
      (step (calls i) g.shared (g.locals i)).2 := by
  obtain ⟨hpools,hphase⟩ := hA
  cases hl : g.locals i with
  | start =>
    simp only [step]
    split_ifs with hpool
    · refine ⟨?_,hpool⟩
      rintro p hp
      injection hp with hp
      exact hp ▸ Nat.lt_succ_self _
    · exact ⟨by simp,by simp [ownResult,hpool]⟩
  | allocated =>
    rw [hl] at hphase
    obtain ⟨pool,hpool,_⟩ := hP (Or.inl hl)
    simp only [step,hpool]
    exact ⟨hpools,hphase⟩
  | cleared =>
    rw [hl] at hphase
    obtain ⟨pool,hpool,_⟩ := hP (Or.inr hl)
    simp only [step,hpool]
    cases hc : jsonCreate (calls i).text poolSize with
    | none => exact ⟨hpools,by simp [ownResult,hphase,hc]⟩
    | some nodes =>
      exact ⟨hpools,hphase,hpools pool hpool,nodes,(g.shared.heap pool).drop nodes.length,hc,
        Shared.store_heap_self _ _ _⟩
  | parsed pool => exact assertion_validate ⟨hpools,hl ▸ hphase⟩
  | validated pool field count => exact assertion_fill ⟨hpools,hl ▸ hphase⟩
  | done result =>
    rw [hl] at hphase
    exact ⟨hpools,hphase⟩
  | fault =>
    rw [hl] at hphase
    exact hphase.elim

/-- An assertion depends on the pool its call is about to walk through. -/
theorem Assertion.frame {call : Call} {s s' : Shared} {phase : Phase}
    (h : Assertion call s phase) (hheap : ∀ p, WalksIn phase p → s'.heap p = s.heap p)
    (hle : s.allocatedPools ≤ s'.allocatedPools)
    (hpools : ∀ pool, s'.pool = some pool → pool < s'.allocatedPools) :
    Assertion call s' phase := by
  refine ⟨hpools,?_⟩
  obtain ⟨_,hphase⟩ := h
  cases phase with
  | parsed pool =>
    obtain ⟨halloc,hlt,nodes,rest,hc,hh⟩ := hphase
    exact ⟨halloc,hlt.trans_le hle,nodes,rest,hc,(hheap pool rfl).trans hh⟩
  | validated pool field count =>
    obtain ⟨halloc,hlt,nodes,rest,hc,hh,hv⟩ := hphase
    exact ⟨halloc,hlt.trans_le hle,nodes,rest,hc,(hheap pool rfl).trans hh,hv⟩
  | start => exact hphase
  | allocated => exact hphase
  | cleared => exact hphase
  | done result => exact hphase
  | fault => exact hphase

theorem Assertion.walksIn_lt {call : Call} {s : Shared} {phase : Phase} {p : ℕ}
    (h : Assertion call s phase) (hw : WalksIn phase p) : p < s.allocatedPools := by
  obtain ⟨_,hphase⟩ := h
  cases phase with
  | parsed pool => exact hw ▸ hphase.2.1
  | validated pool field count => exact hw ▸ hphase.2.1
  | start => exact hw.elim
  | allocated => exact hw.elim
  | cleared => exact hw.elim
  | done result => exact hw.elim
  | fault => exact hw.elim

/-- A step of one call leaves the assertion of every other call true. -/
theorem assertion_other (i j : ι) (g : Global ι Shared Phase) (hj : j ≠ i)
    (hA : Assertion (calls j) g.shared (g.locals j)) (hP : MayStep i g) :
    Assertion (calls j) (step (calls i) g.shared (g.locals i)).1 (g.locals j) := by
  have hstore : ∀ pool, g.shared.pool = some pool → ¬ WalksIn (g.locals j) pool → ∀ nodes,
      Assertion (calls j) (g.shared.store pool nodes) (g.locals j) := by
    intro pool _ hfree nodes
    refine hA.frame (fun p hp => ?_) le_rfl hA.1
    have hne : p ≠ pool := by
      rintro rfl
      exact hfree hp
    exact Shared.store_heap_of_ne hne _ _
  cases hl : g.locals i with
  | start =>
    simp only [step]
    split_ifs with hpool
    · refine hA.frame (fun p hp => ?_) (Nat.le_succ _) ?_
      · have hne : p ≠ g.shared.allocatedPools := (hA.walksIn_lt hp).ne
        simp [hne]
      · rintro p hp
        injection hp with hp
        exact hp ▸ Nat.lt_succ_self _
    · exact hA.frame (fun _ _ => rfl) le_rfl (by simp)
  | allocated =>
    obtain ⟨pool,hpool,hfree⟩ := hP (Or.inl hl)
    simp only [step,hpool]
    exact hstore pool hpool (hfree j hj) _
  | cleared =>
    obtain ⟨pool,hpool,hfree⟩ := hP (Or.inr hl)
    simp only [step,hpool]
    cases jsonCreate (calls i).text poolSize with
    | none => exact hstore pool hpool (hfree j hj) _
    | some nodes => exact hstore pool hpool (hfree j hj) _
  | parsed pool =>
    simp only [step]
    split
    · exact hA
    · split_ifs <;> exact hA
  | validated pool field count => exact hA
  | done result => exact hA
  | fault => exact hA

/-- How far a call has come. -/
def rank : Phase → ℕ
  | .start => 0
  | .allocated => 1
  | .cleared => 2
  | .parsed _ => 3
  | .validated _ _ _ => 4
  | .done _ | .fault => 5

theorem rank_step (call : Call) (s : Shared) (phase : Phase) :
    min (rank phase+1) 5 ≤ rank (step call s phase).2 := by
  cases phase with
  | start => simp only [step]; split_ifs <;> simp [rank]
  | allocated => simp only [step]; split <;> simp [rank]
  | cleared =>
    simp only [step]
    split
    · simp [rank]
    · split <;> simp [rank]
  | parsed pool =>
    simp only [step]
    split
    · simp [rank]
    · split_ifs <;> simp [rank]
  | validated pool field count =>
    simp only [step,fill]
    split_ifs <;> simp [rank]
  | done result => simp [step,rank]
  | fault => simp [step,rank]

end Steps

section Runs

def firstShared (heap : ℕ → List Node) : Shared := ⟨heap,0,none⟩

/-- Where a call stands after five steps with nothing else running. -/
def alone (heap : ℕ → List Node) (call : Call) : Phase :=
  ((fun g : Shared × Phase => step call g.1 g.2)^[5] (firstShared heap,.start)).2

theorem alone_eq (heap : ℕ → List Node) (call : Call) : alone heap call = ownResult call := by
  simp only [alone,Function.iterate_succ,Function.iterate_zero,Function.comp,id,firstShared]
  by_cases hpool : call.poolAllocated = true
  · cases hc : jsonCreate call.text poolSize with
    | none => simp [step,hpool,hc,ownResult]
    | some nodes =>
      have hv := validate_append (document hc)
        (List.replicate (poolSize-nodes.length) zeroNode) call.checkSdk
      cases hval : validate call.checkSdk nodes with
      | none =>
        rw [show (document hc).nodes = nodes from rfl,hval] at hv
        simp [step,hpool,hc,ownResult,hv,hval]
      | some fc =>
        obtain ⟨field,count⟩ := fc
        rw [show (document hc).nodes = nodes from rfl,hval] at hv
        obtain ⟨hlt,hdone⟩ := fill_of_validate hval
        have hf : fill call (nodes++List.replicate (poolSize-nodes.length) zeroNode) field count =
            fill call nodes field count := fill_append (document hc) _ call hlt
        obtain ⟨result,hr⟩ := hdone call
        rw [hr] at hf
        by_cases hlist : call.listAllocated = true
        · simp [step,hpool,hc,ownResult,hv,hval,hlist,hf,hr]
        · simp [step,hpool,hc,ownResult,hv,hval,hlist]
  · simp [step,hpool,ownResult]

variable {ι : Type} [DecidableEq ι] (calls : ι → Call)

/-- Calls on any number of threads, all before their first step. -/
def start (heap : ℕ → List Node) : Global ι Shared Phase := ⟨firstShared heap,fun _ => .start⟩

/-- In a run in which every clear and every parse finds a pool that is its own, a call
that has returned has returned what it returns alone, and five steps make it return. -/
theorem run_eq_alone (heap : ℕ → List Node) {schedule : List ι}
    (h : Allowed (fun i => step (calls i)) MayStep schedule (start heap)) (i : ι) :
    (∀ result, (run (fun i => step (calls i)) schedule (start heap)).locals i = .done result →
      alone heap (calls i) = .done result) ∧
    (5 ≤ schedule.count i →
      (run (fun i => step (calls i)) schedule (start heap)).locals i = alone heap (calls i)) := by
  have hA : Assertion (calls i) (run (fun i => step (calls i)) schedule (start heap)).shared
      ((run (fun i => step (calls i)) schedule (start heap)).locals i) := by
    refine @run_assertions _ _ _ _ _ _ _ (fun i => Assertion (calls i)) ?_ ?_ _ h ?_ i
    · intro i g hA hP
      rw [act_locals_self]
      exact assertion_own calls i g (hA i) hP
    · intro i j g hj hA hP
      exact assertion_other calls i j g hj (hA j) hP
    · exact fun i => ⟨by simp [start,firstShared],trivial⟩
  have hdone : ∀ result, (run (fun i => step (calls i)) schedule (start heap)).locals i =
      .done result → alone heap (calls i) = .done result := by
    intro result hr
    rw [hr] at hA
    rw [alone_eq]
    exact hA.2
  refine ⟨hdone,fun hcount => ?_⟩
  have hrank : min (rank .start+schedule.count i) 5 ≤
      rank ((run (fun i => step (calls i)) schedule (start heap)).locals i) :=
    run_progress (fun i => rank_step (calls i)) schedule (start heap) i
  cases hl : (run (fun i => step (calls i)) schedule (start heap)).locals i with
  | done result => exact (hdone result hl).symm
  | fault =>
    rw [hl] at hA
    exact hA.2.elim
  | start => rw [hl] at hrank; simp [rank] at hrank; omega
  | allocated => rw [hl] at hrank; simp [rank] at hrank; omega
  | cleared => rw [hl] at hrank; simp [rank] at hrank; omega
  | parsed pool => rw [hl] at hrank; simp [rank] at hrank; omega
  | validated pool field count => rw [hl] at hrank; simp [rank] at hrank; omega

instance (phase : Phase) (p : ℕ) : Decidable (WalksIn phase p) := by
  cases phase <;> unfold WalksIn <;> infer_instance

instance (i : Bool) (g : Global Bool Shared Phase) : Decidable (OwnsPool i g) :=
  match h : g.shared.pool with
  | none => isFalse (by simp [OwnsPool,h])
  | some pool => decidable_of_iff (∀ j, j ≠ i → ¬ WalksIn (g.locals j) pool)
      (by simp [OwnsPool,h])

instance (i : Bool) (g : Global Bool Shared Phase) : Decidable (MayStep i g) :=
  inferInstanceAs (Decidable (_ → _))

/-- A call for which every allocation and conversion succeeds. -/
def plainCall (text : Bytes) : Call where
  text := text
  poolAllocated := true
  malloced := []
  leftBehind := id
  checkSdk := plainSdk
  listAllocated := true
  fillSdk := plainSdk
  encodeAllocated := fun _ => true

/-- Two clients, each with a reference json of one piece. -/
def twoClients (second : Bool) : Call :=
  plainCall (if second then bytes "\x7b\"pieces\":[\x7b\"url\":\"http://b/2\"\x7d]\x7d"
    else bytes "\x7b\"pieces\":[\x7b\"url\":\"http://a/1\"\x7d]\x7d")

theorem run_eq_alone_example :
    (∀ result, (run (fun i => step (twoClients i))
        [false,false,false,true,false,false,true,true,true,true] (start fun _ => [])).locals false =
          .done result →
      alone (fun _ => []) (twoClients false) = .done result) ∧
    (5 ≤ [false,false,false,true,false,false,true,true,true,true].count false →
      (run (fun i => step (twoClients i))
        [false,false,false,true,false,false,true,true,true,true] (start fun _ => [])).locals false =
          alone (fun _ => []) (twoClients false)) :=
  run_eq_alone twoClients (fun _ => []) (by simp only [Allowed]; decide +kernel) false

/-- The first client's call parses into the second one's pool and walks through it after
the second one has parsed its own json there. -/
theorem run_mixes :
    (run (fun i => step (twoClients i)) [false,true,false,false,true,true,false,false]
      (start fun _ => [])).locals false = .done (some [some (bytes "http://b/2")]) ∧
    alone (fun _ => []) (twoClients false) = .done (some [some (bytes "http://a/1")]) := by
  decide +kernel

end Runs

end PieceUrls
end RemotePkgInstaller
