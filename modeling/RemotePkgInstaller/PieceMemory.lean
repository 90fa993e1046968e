import RemotePkgInstaller.BlockMemory
import RemotePkgInstaller.InstallHandlers

/-! The URLs of an install in memory that may run out: the texts that are decoded, the array with
what is encoded from them, and what a reference json needs. -/
namespace RemotePkgInstaller
namespace PieceMemory

open BlockMemory HttpText InstallHandlers InstallUrl PieceUrls Requests TinyJson Util

/-- What a block holds: a text, the array of the URLs, or the pool of a parse. -/
inductive Content
  | text (b : Bytes)
  | urls (ps : List (Option ℕ))
  | pool

section Programs

/-- A block that comes from a call. -/
def received (v : Content) : Mem Content ℕ := fun h => some (h.calls,h.add v none)

def loadUrls (p : ℕ) : Mem Content (List (Option ℕ)) := do
  match ← load p with
  | .urls ps => pure ps
  | _ => failure

def loadText (p : ℕ) : Mem Content Bytes := do
  match ← load p with
  | .text b => pure b
  | _ => failure

/-- The text that `http_unescape_uri` hands out. -/
def unescaped (sdk : TextSdk) (value : Bytes) : Mem Content (Option ℕ) :=
  match httpUnescapeUri sdk value with
  | none => pure none
  | some url => do
    let p ← received (.text url)
    pure (some p)

/-- The validating walk of both flavours.  `value` is what the element has to be decoded, or what
is wrong with it; the other two errors are those of a text that cannot be decoded and of one
without a scheme. -/
def checkLoop {α ε : Type} (sdk : TextSdk) (value : α → Except ε Bytes) (undecoded unexpected : ε) :
    List α → Mem Content (Except ε Unit)
  | [] => pure (.ok ())
  | a::as =>
    match value a with
    | .error e => pure (.error e)
    | .ok v => do
      match ← unescaped sdk v with
      | none => pure (.error undecoded)
      | some p => do
        let url ← loadText p
        free p
        if hasWebScheme url then checkLoop sdk value undecoded unexpected as
        else pure (.error unexpected)

/-- How the filling walk can end. -/
inductive FillEnd
  | filled
  | undecoded
  | outOfMem
  deriving DecidableEq

/-- One entry of the array is made of a text that has been decoded, which is then freed. -/
def putEncoded (allocated : Bool) (list i : ℕ) (url : Bytes) : Mem Content (Option ℕ) := do
  let p ← received (.text url)
  let encoded ← malloc (fun _ => allocated) (.text (urlEncode url)) none
  let ps ← loadUrls list
  store list fun _ => .urls (ps.set i encoded)
  free p
  pure encoded

/-- The filling walk of both flavours, from the entry `i` of the array on. -/
def fillLoop {α : Type} (decoded : α → Option Bytes) (encodeAllocated : ℕ → Bool) (list : ℕ) :
    ℕ → List α → Mem Content FillEnd
  | _,[] => pure .filled
  | i,a::as =>
    match decoded a with
    | none => pure .undecoded
    | some url => do
      let encoded ← putEncoded (encodeAllocated i) list i url
      if encoded.isNone then pure .outOfMem
      else fillLoop decoded encodeAllocated list (i+1) as

def freeEach : List (Option ℕ) → Mem Content Unit
  | [] => pure ()
  | p::ps => do
    freeIfSet p
    freeEach ps

def freePieceUrls (list : ℕ) : Mem Content Unit := do
  let ps ← loadUrls list
  freeEach ps
  free list

/-- What `install_pieces` reads of the array. -/
def readEach : List (Option ℕ) → Mem Content (List Bytes)
  | [] => pure []
  | p::ps => do
    let url ← loadText (← deref p)
    let urls ← readEach ps
    pure (url::urls)

/-- The value of an element of a direct install. -/
def packageValue (element : Node) : Except Bytes Bytes :=
  if jsonGetType element ≠ .text then
    .error (aboutParameter (bytes "Invalid type for element of parameter ") packages)
  else if jsonGetValue element = [] then
    .error (aboutParameter (bytes "Empty element value of parameter ") packages)
  else .ok (jsonGetValue element)

/-- `handle_api_install_direct` behind its request: the URLs that it hands to `install_pieces`, or
its error. -/
def directUrls (calls : Call) (elements : List Node) : Mem Content (Except Bytes (List Bytes)) := do
  let checked ← checkLoop calls.checkSdk packageValue
    (aboutParameter (bytes "Unable to unescape element value of parameter ") packages)
    (aboutParameter (bytes "Unexpected element value of parameter ") packages) elements
  match checked with
  | .error text => pure (.error text)
  | .ok () =>
    if elements = [] then pure (.error (bytes "No packages."))
    else do
      let list ← malloc (fun _ => calls.listAllocated)
        (.urls (List.replicate elements.length none)) none
      match list with
      | none => pure (.error (bytes "No memory."))
      | some list => do
        let ended ← fillLoop (fun element => httpUnescapeUri calls.fillSdk (jsonGetValue element))
          calls.encodeAllocated list 0 elements
        match ended with
        | .undecoded => do
          freePieceUrls list
          pure (.error
            (aboutParameter (bytes "Unable to unescape element value of parameter ") packages))
        | .outOfMem => do
          freePieceUrls list
          pure (.error (bytes "No memory."))
        | .filled => do
          let ps ← loadUrls list
          let urls ← readEach ps
          freePieceUrls list
          pure (.ok urls)

/-- The pieces of a reference json, if it has an array of them. -/
def findPieces (nodes : List Node) : Option (List Node) := do
  let root ← nodes[0]?
  let i ← (childIndices nodes root).find? fun i =>
    (nodes[i]?).any fun node => node.name = some (bytes "pieces")
  let field ← nodes[i]?
  if jsonGetType field = .array then some (children nodes field) else none

/-- The value of a piece; what is wrong with it is not told. -/
def pieceValue (nodes : List Node) (piece : Node) : Except Unit Bytes :=
  if jsonGetType piece ≠ .obj then .error ()
  else
    match jsonGetPropertyValue nodes piece (bytes "url") with
    | none => .error ()
    | some propVal => if propVal = [] then .error () else .ok propVal

def pieceDecoded (sdk : TextSdk) (nodes : List Node) (piece : Node) : Option Bytes :=
  (jsonGetPropertyValue nodes piece (bytes "url")).bind (httpUnescapeUri sdk)

/-- `pkg_extract_piece_urls_from_ref_pkg_json` once it has its pool. -/
def listPieces (call : Call) : Mem Content (Option ℕ) :=
  match jsonCreate call.text poolSize with
  | none => pure none
  | some nodes =>
    match findPieces nodes with
    | none => pure none
    | some pieces => do
      let checked ← checkLoop call.checkSdk (pieceValue nodes) () () pieces
      match checked with
      | .error () => pure none
      | .ok () =>
        if pieces = [] then pure none
        else do
          let list ← malloc (fun _ => call.listAllocated)
            (.urls (List.replicate pieces.length none)) none
          match list with
          | none => pure none
          | some list => do
            let ended ← fillLoop (pieceDecoded call.fillSdk nodes) call.encodeAllocated list 0
              pieces
            if ended = .filled then pure (some list)
            else do
              freePieceUrls list
              pure none

/-- The whole of it, with the answer of the transfer.  The pool stays behind: the pointer to it is
static, and the next call overwrites it. -/
def extractUrls (call : Call) (answer : Option HttpTransfer.Downloaded) :
    Mem Content (Option ℕ) :=
  match answer with
  | none => pure none
  | some downloaded => do
    let data ← received (.text downloaded.data)
    if downloaded.totalSize = 0 then do
      free data
      pure none
    else do
      match ← malloc (fun _ => call.poolAllocated) .pool none with
      | none => do
        free data
        pure none
      | some _ => do
        let list ← listPieces { call with text := downloaded.data }
        free data
        pure list

/-- `handle_api_install_ref_pkg_url` behind its request: the URLs that it hands to
`install_pieces`, or its error. -/
def refUrls (sdk : TextSdk) (call : Call) (answer : Option HttpTransfer.Downloaded)
    (value : Bytes) : Mem Content (Except Bytes (List Bytes)) :=
  if value = [] then
    pure (.error (aboutParameter (bytes "Empty element value of parameter ") (bytes "url")))
  else do
    match ← unescaped sdk value with
    | none => pure (.error
        (aboutParameter (bytes "Unable to unescape element value of parameter ") (bytes "url")))
    | some p => do
      let url ← loadText p
      if hasWebScheme url then do
        match ← extractUrls call answer with
        | none => do
          free p
          pure (.error
            (quoted (bytes "Unable to extract pieces URLs for ") (cstr url) (bytes ".")))
        | some list => do
          let ps ← loadUrls list
          let urls ← readEach ps
          freePieceUrls list
          free p
          pure (.ok urls)
      else do
        free p
        pure (.error
          (aboutParameter (bytes "Unexpected element value of parameter ") (bytes "url")))

end Programs

section Check

variable {α ε : Type} (sdk : TextSdk) (value : α → Except ε Bytes) (undecoded unexpected : ε)

/-- What the validating walk asks of an element. -/
def checkElement (a : α) : Except ε Unit := do
  let v ← value a
  match httpUnescapeUri sdk v with
  | none => .error undecoded
  | some url => if hasWebScheme url then .ok () else .error unexpected

theorem does_received (v : Content) (h : Heap Content) :
    Does (received v) h h.calls (h.add v none) := rfl

variable {sdk} in
theorem does_unescaped {v url : Bytes} (hurl : httpUnescapeUri sdk v = some url)
    (h : Heap Content) :
    Does (unescaped sdk v) h (some h.calls) (h.add (.text url) none) := by
  rw [unescaped,hurl]
  exact (does_received (.text url) h).bind (does_pure _ _)

variable {sdk} in
theorem does_unescaped_none {v : Bytes} (hurl : httpUnescapeUri sdk v = none) (h : Heap Content) :
    Does (unescaped sdk v) h none h := by
  rw [unescaped,hurl]
  exact does_pure _ _

theorem does_loadText {h : Heap Content} {p : ℕ} {b : Bytes} (hp : h.payload p = some (.text b)) :
    Does (loadText p) h b h := (does_load hp).bind (does_pure _ _)

/-- The walk leaves no text behind, wherever it stops. -/
theorem does_checkLoop (as : List α) (h : Heap Content) :
    ∃ h', Does (checkLoop sdk value undecoded unexpected as) h
        (as.forM (checkElement sdk value undecoded unexpected)) h' ∧ Extends h [] h' := by
  induction as generalizing h with
  | nil => exact ⟨h,does_pure _ _,.refl h⟩
  | cons a as ih =>
    have hcons : (a::as).forM (checkElement sdk value undecoded unexpected) =
        (checkElement sdk value undecoded unexpected a >>= fun _ =>
          as.forM (checkElement sdk value undecoded unexpected)) := rfl
    rw [hcons,checkLoop]
    cases hvalue : value a with
    | error e =>
      rw [show checkElement sdk value undecoded unexpected a = .error e by
        rw [checkElement,hvalue]; rfl]
      exact ⟨h,does_pure _ _,.refl h⟩
    | ok v =>
      have hcheck : checkElement sdk value undecoded unexpected a =
          match httpUnescapeUri sdk v with
          | none => .error undecoded
          | some url => if hasWebScheme url then .ok () else .error unexpected := by
        rw [checkElement,hvalue]
        rfl
      rw [hcheck]
      cases hurl : httpUnescapeUri sdk v with
      | none => exact ⟨h,(does_unescaped_none hurl h).bind (does_pure _ _),.refl h⟩
      | some url =>
        have hload : Does (loadText h.calls) (h.add (.text url) none) url _ :=
          does_loadText Heap.payload_add_self
        have hfree : Does (free h.calls) (h.add (.text url) none) () _ :=
          does_free Heap.payload_add_self
        have hleft := ((Extends.refl h).add (.text url) none).remove
        have hdone := does_unescaped hurl h
        dsimp only
        cases hscheme : hasWebScheme url with
        | false =>
          refine ⟨_,hdone.bind (hload.bind (hfree.bind ?_)),hleft⟩
          rw [hscheme]
          exact does_pure _ _
        | true =>
          obtain ⟨h',hrest,hleft'⟩ := ih ((h.add (.text url) none).remove h.calls)
          refine ⟨h',hdone.bind (hload.bind (hfree.bind ?_)),hleft.trans hleft'⟩
          rw [hscheme]
          exact hrest

end Check

/-- The array with what has been put into it, and as many entries more.  Beside them there are
the blocks `kept`. -/
structure Filling (h₀ : Heap Content) (kept : List ℕ) (list : ℕ) (qs : List ℕ)
    (urls : List Bytes) (n : ℕ) (h : Heap Content) : Prop where
  blocks : Extends h₀ (list::(qs++kept)) h
  array : h.payload list = some (.urls (qs.map some++List.replicate n none))
  texts : List.Forall₂ (fun q url => h.payload q = some (.text url)) qs urls

section Fill

variable {α : Type} (decoded : α → Option Bytes) (encodeAllocated : ℕ → Bool)

/-- The URL for an entry of the array, or why there is none. -/
def fillElement (element : α × ℕ) : Except FillEnd Bytes :=
  match decoded element.1 with
  | none => .error .undecoded
  | some url => if encodeAllocated element.2 then .ok (urlEncode url) else .error .outOfMem

variable {decoded encodeAllocated} {h₀ h : Heap Content} {list n : ℕ}
  {kept qs : List ℕ} {urls : List Bytes}

theorem does_loadUrls {p : ℕ} {ps : List (Option ℕ)} (hp : h.payload p = some (.urls ps)) :
    Does (loadUrls p) h ps h := (does_load hp).bind (does_pure _ _)

theorem texts_congr {h' : Heap Content} {ps : List ℕ}
    (ht : List.Forall₂ (fun q url => h.payload q = some (.text url)) qs urls)
    (ho : OnlyIn ps h h') (hdisjoint : ∀ q ∈ qs, q ∉ ps) :
    List.Forall₂ (fun q url => h'.payload q = some (.text url)) qs urls := by
  induction ht with
  | nil => exact .nil
  | @cons q url qs urls hq _ ih =>
    refine .cons ((ho.payload q (hdisjoint q List.mem_cons_self)).trans hq) (ih fun q hq => ?_)
    exact hdisjoint q (List.mem_cons_of_mem _ hq)

/-- Setting the first entry that is still empty. -/
theorem set_filled (qs : List ℕ) (n : ℕ) (p : Option ℕ) :
    (qs.map some++List.replicate (n+1) none).set qs.length p =
      qs.map some++p::List.replicate n none := by
  rw [List.set_append_right _ _ (by rw [List.length_map])]
  rw [List.length_map,Nat.sub_self,List.replicate_succ,List.set_cons_zero]

/-- An entry whose text cannot be encoded stays empty. -/
theorem Filling.outOfMem (hf : Filling h₀ kept list qs urls (n+1) h) (url : Bytes) :
    ∃ h', Does (putEncoded false list qs.length url) h none h' ∧
      Filling h₀ kept list qs urls (n+1) h' := by
  have hlt : list < h.calls := Heap.lt_of_payload hf.array
  have hadded : (h.add (.text url) none).payload h.calls = some (.text url) :=
    Heap.payload_add_self
  have hkept : (h.add (.text url) none).payload list =
      some (.urls (qs.map some++List.replicate (n+1) none)) :=
    (Heap.payload_add_of_ne (ne_of_lt hlt)).trans hf.array
  have harray : (h.add (.text url) none).skip.payload list =
      some (.urls (qs.map some++List.replicate (n+1) none)) := hkept
  have htext : ((h.add (.text url) none).skip.change list fun _ =>
      .urls ((qs.map some++List.replicate (n+1) none).set qs.length none)).payload h.calls =
      some (.text url) := by
    rw [Heap.payload_change_of_ne (ne_of_gt hlt)]
    exact hadded
  refine ⟨_,(does_received _ _).bind ((does_malloc_full rfl _ _).bind
    ((does_loadUrls harray).bind ((does_store harray _).bind ((does_free htext).bind
      (does_pure _ _))))),?_,?_,?_⟩
  · exact ((hf.blocks.add _ _).skip.change (List.mem_cons_of_mem _ List.mem_cons_self) _).remove
  · rw [Heap.payload_remove_of_ne (ne_of_lt hlt),Heap.payload_change_self,harray,set_filled]
    rfl
  · have honly : OnlyIn [h.calls,list] h (h.add (.text url) none) := onlyIn_add (by simp) _ _
    refine texts_congr hf.texts (((honly.trans (onlyIn_skip _ _)).trans
      (onlyIn_change (by simp) _ _)).trans (onlyIn_remove (by simp) _)) fun q hq hmem => ?_
    simp only [List.mem_cons,List.not_mem_nil,or_false] at hmem
    rcases hmem with rfl | rfl
    · exact hf.blocks.calls_notMem (List.mem_cons_of_mem _ (List.mem_append_left _ hq))
    · exact (List.nodup_cons.mp hf.blocks.distinct).1 (List.mem_append_left _ hq)

/-- One that can be gets a block of its own. -/
theorem Filling.next (hf : Filling h₀ kept list qs urls (n+1) h) (url : Bytes) :
    ∃ q h', Does (putEncoded true list qs.length url) h (some q) h' ∧
      Filling h₀ kept list (qs++[q]) (urls++[urlEncode url]) n h' := by
  have hlt : list < h.calls := Heap.lt_of_payload hf.array
  have harray : ((h.add (.text url) none).add (.text (urlEncode url)) none).payload list =
      some (.urls (qs.map some++List.replicate (n+1) none)) :=
    (Heap.payload_add_of_ne (ne_of_lt (Nat.lt_succ_of_lt hlt))).trans
      ((Heap.payload_add_of_ne (ne_of_lt hlt)).trans hf.array)
  have htext : (((h.add (.text url) none).add (.text (urlEncode url)) none).change list fun _ =>
      .urls ((qs.map some++List.replicate (n+1) none).set qs.length (some (h.calls+1)))).payload
        h.calls = some (.text url) := by
    rw [Heap.payload_change_of_ne (ne_of_gt hlt)]
    exact (Heap.payload_add_of_ne (Nat.ne_of_lt (Nat.lt_succ_self _))).trans Heap.payload_add_self
  refine ⟨h.calls+1,_,(does_received _ _).bind ((does_malloc rfl _ _).bind
    ((does_loadUrls harray).bind ((does_store harray _).bind ((does_free htext).bind
      (does_pure _ _))))),?_,?_,?_⟩
  · have he := ((hf.blocks.add (.text url) none).add (.text (urlEncode url)) none).change
      (List.mem_cons_of_mem _ (List.mem_cons_of_mem _ List.mem_cons_self)) fun _ =>
        .urls ((qs.map some++List.replicate (n+1) none).set qs.length (some (h.calls+1)))
    refine (he.perm (List.Perm.swap _ _ _)).remove.perm ?_
    rw [List.append_assoc]
    exact (List.Perm.swap _ _ _).trans (List.perm_middle.symm.cons list)
  · rw [Heap.payload_remove_of_ne (ne_of_lt hlt),Heap.payload_change_self,harray,set_filled,
      List.map_append,List.append_assoc]
    rfl
  · have honly : OnlyIn [h.calls,h.calls+1,list] h (h.add (.text url) none) :=
      onlyIn_add (by simp) _ _
    have honly' : OnlyIn [h.calls,h.calls+1,list] (h.add (.text url) none)
        ((h.add (.text url) none).add (.text (urlEncode url)) none) :=
      onlyIn_add (by simp [Heap.add]) _ _
    refine List.rel_append (texts_congr hf.texts (((honly.trans honly').trans
      (onlyIn_change (by simp) _ _)).trans (onlyIn_remove (by simp) _)) fun q hq hmem => ?_)
      (.cons ?_ .nil)
    · have hqlt := hf.blocks.lt (List.mem_cons_of_mem _ (List.mem_append_left _ hq))
      simp only [List.mem_cons,List.not_mem_nil,or_false] at hmem
      rcases hmem with rfl | rfl | rfl
      · exact absurd hqlt (lt_irrefl _)
      · exact absurd hqlt (by omega)
      · exact (List.nodup_cons.mp hf.blocks.distinct).1 (List.mem_append_left _ hq)
    · rw [Heap.payload_remove_of_ne (Nat.succ_ne_self _),
        Heap.payload_change_of_ne (Nat.ne_of_gt (Nat.lt_succ_of_lt hlt))]
      exact Heap.payload_add_self

variable (decoded encodeAllocated) in
/-- How the walk ends, and what it leaves in the array.  The induction is on the elements that
are left. -/
theorem does_fillLoop (as : List α) (hf : Filling h₀ kept list qs urls as.length h) :
    ∃ ended h', Does (fillLoop decoded encodeAllocated list qs.length as) h ended h' ∧
      match (as.zipIdx qs.length).mapM (fillElement decoded encodeAllocated) with
      | .ok rest => ended = .filled ∧ ∃ qs', Filling h₀ kept list qs' (urls++rest) 0 h'
      | .error e =>
        ended = e ∧ e ≠ .filled ∧ ∃ qs' urls' n, Filling h₀ kept list qs' urls' n h' := by
  induction as generalizing qs urls h with
  | nil =>
    refine ⟨.filled,h,does_pure _ _,rfl,qs,?_⟩
    rw [List.reverse_nil,List.append_nil]
    exact hf
  | cons a as ih =>
    rw [List.zipIdx_cons,List.mapM_cons]
    cases hdecoded : decoded a with
    | none =>
      have hfill : fillElement decoded encodeAllocated (a,qs.length) = .error .undecoded := by
        rw [fillElement,hdecoded]
      rw [hfill,fillLoop,hdecoded]
      exact ⟨_,h,does_pure _ _,rfl,by decide,qs,urls,_,hf⟩
    | some url =>
      rw [fillLoop,hdecoded]
      cases halloc : encodeAllocated qs.length with
      | false =>
        have hfill : fillElement decoded encodeAllocated (a,qs.length) = .error .outOfMem := by
          rw [fillElement,hdecoded]
          exact if_neg (by rw [halloc]; exact Bool.false_ne_true)
        obtain ⟨h',hput,hf'⟩ := hf.outOfMem url
        rw [hfill]
        exact ⟨_,h',hput.bind (does_pure _ _),rfl,by decide,qs,urls,_,hf'⟩
      | true =>
        have hfill : fillElement decoded encodeAllocated (a,qs.length) = .ok (urlEncode url) := by
          rw [fillElement,hdecoded]
          exact if_pos halloc
        obtain ⟨q,h1,hput,hf1⟩ := hf.next url
        obtain ⟨ended,h2,hrest,hended⟩ := ih hf1
        rw [List.length_append,List.length_singleton] at hrest hended
        refine ⟨ended,h2,hput.bind hrest,?_⟩
        rw [hfill]
        cases hmap : (as.zipIdx (qs.length+1)).mapM (fillElement decoded encodeAllocated) with
        | error e =>
          rw [hmap] at hended
          exact hended
        | ok rest =>
          rw [hmap] at hended
          obtain ⟨rfl,qs',hf2⟩ := hended
          refine ⟨rfl,qs',?_⟩
          rwa [List.append_assoc] at hf2

variable (decoded encodeAllocated) in
/-- The walk over an array that has just been made for the elements. -/
theorem does_fill (as : List α) (he : Extends h₀ kept h) :
    ∃ ended h', Does (fillLoop decoded encodeAllocated h.calls 0 as)
        (h.add (.urls (List.replicate as.length none)) none) ended h' ∧
      match as.zipIdx.mapM (fillElement decoded encodeAllocated) with
      | .ok urls => ended = .filled ∧ ∃ qs, Filling h₀ kept h.calls qs urls 0 h'
      | .error e => ended = e ∧ e ≠ .filled ∧ ∃ qs urls n, Filling h₀ kept h.calls qs urls n h' :=
  does_fillLoop decoded encodeAllocated as ⟨he.add _ _,Heap.payload_add_self,.nil⟩

theorem does_freeEach (ps : List (Option ℕ)) {rest : List ℕ}
    (he : Extends h₀ (ps.flatMap Option.toList++rest) h) :
    ∃ h', Does (freeEach ps) h () h' ∧ Extends h₀ rest h' ∧
      OnlyIn (ps.flatMap Option.toList) h h' := by
  induction ps generalizing h with
  | nil => exact ⟨h,does_pure _ _,he,.refl _ _⟩
  | cons p ps ih =>
    rw [List.flatMap_cons,List.append_assoc] at he
    obtain ⟨h1,hdoes1,he1,ho1,_⟩ := does_freeIfSet he
    obtain ⟨h2,hdoes2,he2,ho2⟩ := ih he1
    rw [List.flatMap_cons]
    exact ⟨h2,hdoes1.bind hdoes2,he2,(ho1.mono fun _ hp => List.mem_append_left _ hp).trans
      (ho2.mono fun _ hp => List.mem_append_right _ hp)⟩

theorem flatMap_filled (qs : List ℕ) (n : ℕ) :
    (qs.map some++List.replicate n none).flatMap Option.toList = qs := by
  rw [List.flatMap_append,List.flatMap_map]
  simp

/-- `free_piece_urls` frees the array and all that has been put into it. -/
theorem Filling.freePieceUrls (hf : Filling h₀ kept list qs urls n h) :
    ∃ h', Does (freePieceUrls list) h () h' ∧ Extends h₀ kept h' := by
  have he := hf.blocks.perm List.perm_middle.symm
  have hall : Extends h₀
      ((qs.map some++List.replicate n none).flatMap Option.toList++list::kept) h := by
    rwa [flatMap_filled]
  obtain ⟨h1,hdoes,he1,ho⟩ := does_freeEach _ hall
  rw [flatMap_filled] at ho
  have hlist : list ∉ qs := fun hq =>
    (List.nodup_cons.mp hf.blocks.distinct).1 (List.mem_append_left _ hq)
  have harray := (ho.payload list hlist).trans hf.array
  exact ⟨_,(does_loadUrls hf.array).bind (hdoes.bind (does_free harray)),he1.remove⟩

/-- A block beside the array is freed. -/
theorem Filling.free {p : ℕ} (hf : Filling h₀ (p::kept) list qs urls n h) :
    ∃ h', Does (free p) h () h' ∧ Filling h₀ kept list qs urls n h' := by
  have he := hf.blocks.perm (List.perm_middle.cons list |>.trans (List.Perm.swap _ _ _))
  have hp := (List.nodup_cons.mp he.distinct).1
  refine ⟨_,he.does_free,he.remove,?_,?_⟩
  · rw [Heap.payload_remove_of_ne (ne_of_mem_of_not_mem List.mem_cons_self hp)]
    exact hf.array
  · refine texts_congr hf.texts (onlyIn_remove (List.mem_singleton_self p) h) fun q hq hmem => ?_
    rw [List.mem_singleton.mp hmem] at hq
    exact hp (List.mem_cons_of_mem _ (List.mem_append_left _ hq))

/-- All URLs are there once the array is full. -/
theorem does_readEach
    (ht : List.Forall₂ (fun q url => h.payload q = some (.text url)) qs urls) :
    Does (readEach (qs.map some)) h urls h := by
  induction ht with
  | nil => exact does_pure _ _
  | cons hq _ ih =>
    exact (does_deref _ _).bind ((does_loadText hq).bind (ih.bind (does_pure _ _)))

end Fill

section Direct

theorem mapM_mapError {α β ε ε' : Type} (f : α → Except ε β) (g : ε → ε') (as : List α) :
    as.mapM (fun a => (f a).mapError g) = (as.mapM f).mapError g := by
  induction as with
  | nil => rfl
  | cons a as ih =>
    rw [List.mapM_cons,List.mapM_cons,ih]
    cases f a with
    | error e => rfl
    | ok b => cases as.mapM f <;> rfl

/-- The error for the end of a filling walk. -/
def fillError : FillEnd → Bytes
  | .outOfMem => bytes "No memory."
  | _ => aboutParameter (bytes "Unable to unescape element value of parameter ") packages

theorem checkPackage_eq (sdk : TextSdk) :
    checkPackage sdk = checkElement sdk packageValue
      (aboutParameter (bytes "Unable to unescape element value of parameter ") packages)
      (aboutParameter (bytes "Unexpected element value of parameter ") packages) := by
  funext element
  rw [checkPackage,checkElement,packageValue,checkUrl]
  split_ifs
  · rfl
  · rfl
  · dsimp only [bind,Except.bind]
    cases httpUnescapeUri sdk (jsonGetValue element) with
    | none => rfl
    | some url =>
      dsimp only
      split_ifs <;> rfl

theorem fillPackage_eq (sdk : TextSdk) (alloc : ℕ → Bool) :
    fillPackage sdk alloc = fun element => (fillElement
      (fun element => httpUnescapeUri sdk (jsonGetValue element)) alloc element).mapError
        fillError := by
  funext element
  rw [fillPackage,fillElement,installUrl]
  cases httpUnescapeUri sdk (jsonGetValue element.1) with
  | none => rfl
  | some url =>
    simp only [Option.map_some]
    split_ifs <;> rfl

/-- A direct install hands on the URLs that it does over unlimited memory, and frees every block
that it has used, whether it ends with them or with an error. -/
theorem directUrls_frees (calls : Call) (elements : List Node) (h : Heap Content) :
    ∃ h', Does (directUrls calls elements) h (packageUrls calls elements) h' ∧ Extends h [] h' := by
  obtain ⟨h1,hcheck,hleft⟩ := does_checkLoop calls.checkSdk packageValue
    (aboutParameter (bytes "Unable to unescape element value of parameter ") packages)
    (aboutParameter (bytes "Unexpected element value of parameter ") packages) elements h
  unfold packageUrls
  rw [checkPackage_eq,fillPackage_eq]
  cases hchecked : elements.forM (checkElement calls.checkSdk packageValue
    (aboutParameter (bytes "Unable to unescape element value of parameter ") packages)
    (aboutParameter (bytes "Unexpected element value of parameter ") packages)) with
  | error e =>
    rw [hchecked] at hcheck
    exact ⟨h1,hcheck.bind (does_pure _ _),hleft⟩
  | ok u =>
    rw [hchecked] at hcheck
    dsimp only [bind,Except.bind]
    by_cases hempty : elements = []
    · rw [if_pos hempty]
      refine ⟨h1,hcheck.bind ?_,hleft⟩
      dsimp only
      rw [if_pos hempty]
      exact does_pure _ _
    · rw [if_neg hempty]
      cases hlist : calls.listAllocated with
      | false =>
        refine ⟨h1.skip,hcheck.bind ?_,hleft.skip⟩
        dsimp only
        rw [if_neg hempty]
        exact (does_malloc_full hlist _ _).bind (does_pure _ _)
      | true =>
        obtain ⟨ended,h2,hfill,hended⟩ := does_fill
          (fun element => httpUnescapeUri calls.fillSdk (jsonGetValue element))
          calls.encodeAllocated elements hleft
        have hmalloc : Does (malloc (fun _ => calls.listAllocated)
            (.urls (List.replicate elements.length none)) none) h1 (some h1.calls) _ :=
          does_malloc hlist _ _
        rw [if_neg (by exact Bool.noConfusion),mapM_mapError]
        cases hmap : elements.zipIdx.mapM (fillElement
          (fun element => httpUnescapeUri calls.fillSdk (jsonGetValue element))
          calls.encodeAllocated) with
        | error e =>
          rw [hmap] at hended
          obtain ⟨rfl,hne,qs',urls',n,hf⟩ := hended
          obtain ⟨h3,hfree,hleft'⟩ := hf.freePieceUrls
          refine ⟨h3,hcheck.bind ?_,hleft'⟩
          dsimp only
          rw [if_neg hempty]
          refine hmalloc.bind (hfill.bind ?_)
          cases ended with
          | filled => exact absurd rfl hne
          | undecoded => exact hfree.bind (does_pure _ _)
          | outOfMem => exact hfree.bind (does_pure _ _)
        | ok urls =>
          rw [hmap] at hended
          obtain ⟨rfl,qs',hf⟩ := hended
          obtain ⟨h3,hfree,hleft'⟩ := hf.freePieceUrls
          refine ⟨h3,hcheck.bind ?_,hleft'⟩
          dsimp only
          rw [if_neg hempty]
          have harray := hf.array
          rw [List.replicate_zero,List.append_nil] at harray
          exact hmalloc.bind (hfill.bind ((does_loadUrls harray).bind
            ((does_readEach hf.texts).bind (hfree.bind (does_pure _ _)))))

end Direct

section RefPkg

variable {sdk : TextSdk} {call : Call} {nodes pieces : List Node}

theorem forM_ok_iff {α ε : Type} {f : α → Except ε Unit} {good : α → Bool}
    (hf : ∀ a, f a = .ok () ↔ good a = true) (as : List α) :
    as.forM f = .ok () ↔ as.all good = true := by
  induction as with
  | nil => exact iff_of_true rfl rfl
  | cons a as ih =>
    have hcons : (a::as).forM f = (f a >>= fun _ => as.forM f) := rfl
    rw [hcons,List.all_cons,Bool.and_eq_true,← hf a,← ih]
    cases f a with
    | error e => simp [bind,Except.bind]
    | ok u => simp [bind,Except.bind]

theorem mapM_toOption {α β ε : Type} (f : α → Except ε β) (g : α → Option β)
    (hg : ∀ a, g a = (f a).toOption) (as : List α) :
    (as.map g).mapM id = (as.mapM f).toOption := by
  induction as with
  | nil => rfl
  | cons a as ih =>
    rw [List.map_cons,List.mapM_cons,List.mapM_cons,ih,id,hg]
    cases f a with
    | error e => rfl
    | ok b => cases as.mapM f <;> rfl

theorem checkElement_piece (piece : Node) :
    checkElement sdk (pieceValue nodes) () () piece = .ok () ↔
      checkPiece sdk nodes piece = true := by
  unfold checkElement pieceValue checkPiece
  split_ifs with htype
  · simp [bind,Except.bind,htype]
  · rw [not_not] at htype
    cases jsonGetPropertyValue nodes piece (bytes "url") with
    | none => simp [bind,Except.bind]
    | some propVal =>
      by_cases hempty : propVal = []
      · simp [bind,Except.bind,hempty]
      · cases hurl : httpUnescapeUri sdk propVal with
        | none => simp [bind,Except.bind,hempty,hurl]
        | some url =>
          have hscheme : hasWebScheme url = true ↔ startsWith url (bytes "http://") = true ∨
              startsWith url (bytes "https://") = true := by
            rw [hasWebScheme,Bool.or_eq_true]
          simpa [bind,Except.bind,hempty,hurl,htype] using hscheme

theorem pieceUrl_eq (alloc : ℕ → Bool) (piece : Node × ℕ) :
    pieceUrl sdk nodes alloc piece =
      (fillElement (pieceDecoded sdk nodes) alloc piece).toOption := by
  unfold pieceUrl fillElement pieceDecoded installUrl
  cases jsonGetPropertyValue nodes piece.1 (bytes "url") with
  | none => rfl
  | some propVal =>
    simp only [Option.bind_some,Option.bind_eq_bind]
    cases httpUnescapeUri sdk propVal with
    | none => rfl
    | some url =>
      simp only [Option.map_some,Option.bind_some]
      split_ifs <;> rfl

/-- The pieces, how they are checked and what is made of them, in one. -/
theorem listedUrls_eq (hpool : call.poolAllocated = true) :
    listedUrls call = (jsonCreate call.text poolSize).bind fun nodes =>
      (findPieces nodes).bind fun pieces =>
        if pieces.all (checkPiece call.checkSdk nodes) = true ∧ pieces ≠ [] ∧
            call.listAllocated = true then
          (pieces.zipIdx.mapM
            (fillElement (pieceDecoded call.fillSdk nodes) call.encodeAllocated)).toOption
        else none := by
  unfold listedUrls ownResult
  rw [if_neg (by rw [hpool]; exact Bool.noConfusion)]
  cases jsonCreate call.text poolSize with
  | none => rfl
  | some nodes =>
    simp only [Option.bind_some]
    unfold validate findPieces
    simp only [Option.bind_eq_bind]
    cases nodes[0]? with
    | none => rfl
    | some root =>
      simp only [Option.bind_some]
      cases (childIndices nodes root).find? _ with
      | none => rfl
      | some i =>
        simp only [Option.bind_some]
        cases hfield : nodes[i]? with
        | none => rfl
        | some field =>
          simp only [Option.bind_some]
          by_cases htype : jsonGetType field = .array
          · rw [if_pos htype,Option.bind_some]
            have hfill : fill call nodes i (children nodes field).length =
                .done (((children nodes field).zipIdx.mapM (fillElement
                  (pieceDecoded call.fillSdk nodes) call.encodeAllocated)).toOption.map
                    fun urls => urls.map some) := by
              rw [fill,hfield]
              simp only [Option.map_some,Option.getD_some,lt_irrefl,if_false,Nat.sub_self,
                List.replicate_zero,List.append_nil]
              rw [mapM_toOption _ _ (pieceUrl_eq _)]
            by_cases hchecked : (children nodes field).all (checkPiece call.checkSdk nodes) = true
            · by_cases hempty : children nodes field = []
              · rw [if_neg (by simp [hempty]),if_neg (by simp [hempty])]
              · rw [if_pos (by simp [htype,hchecked,hempty])]
                dsimp only
                cases hlist : call.listAllocated with
                | false => rw [if_neg Bool.false_ne_true,if_neg (by simp)]
                | true =>
                  rw [if_pos rfl,if_pos ⟨hchecked,hempty,rfl⟩,hfill]
                  cases (children nodes field).zipIdx.mapM (fillElement
                    (pieceDecoded call.fillSdk nodes) call.encodeAllocated) with
                  | error e => rfl
                  | ok urls => simp [Except.toOption,List.filterMap_map]
            · rw [if_neg (by simp [hchecked]),if_neg (by simp [hchecked])]
          · rw [if_neg htype,if_neg (by simp [htype])]
            rfl

/-- What `pkg_extract_piece_urls_from_ref_pkg_json` hands on: the array with all URLs, or
nothing. -/
inductive Handed (h₀ : Heap Content) (kept : List ℕ) (h : Heap Content) :
    Option ℕ → Option (List Bytes) → Prop
  | filled {list : ℕ} {qs : List ℕ} {urls : List Bytes} (hf : Filling h₀ kept list qs urls 0 h) :
    Handed h₀ kept h (some list) (some urls)
  | nothing (he : Extends h₀ kept h) : Handed h₀ kept h none none

variable {h₀ h : Heap Content} {kept : List ℕ}

theorem Handed.free {p : ℕ} {list : Option ℕ} {urls : Option (List Bytes)}
    (hh : Handed h₀ (p::kept) h list urls) :
    ∃ h', Does (free p) h () h' ∧ Handed h₀ kept h' list urls := by
  cases hh with
  | filled hf =>
    obtain ⟨h',hfree,hf'⟩ := hf.free
    exact ⟨h',hfree,.filled hf'⟩
  | nothing he => exact ⟨_,he.does_free,.nothing he.remove⟩

theorem does_listPieces (hpool : call.poolAllocated = true) (he : Extends h₀ kept h) :
    ∃ list h', Does (listPieces call) h list h' ∧ Handed h₀ kept h' list (listedUrls call) := by
  have hlisted := listedUrls_eq hpool
  rw [listPieces]
  cases hparse : jsonCreate call.text poolSize with
  | none =>
    rw [hparse] at hlisted
    rw [hlisted]
    exact ⟨none,h,does_pure _ _,.nothing he⟩
  | some nodes =>
    rw [hparse,Option.bind_some] at hlisted
    dsimp only
    cases hfound : findPieces nodes with
    | none =>
      rw [hfound] at hlisted
      rw [hlisted]
      exact ⟨none,h,does_pure _ _,.nothing he⟩
    | some pieces =>
      rw [hfound,Option.bind_some] at hlisted
      obtain ⟨h1,hcheck,hleft⟩ :=
        does_checkLoop call.checkSdk (pieceValue nodes) () () pieces h
      have he1 : Extends h₀ kept h1 := he.trans hleft
      have hiff : pieces.forM (checkElement call.checkSdk (pieceValue nodes) () ()) = .ok () ↔
          pieces.all (checkPiece call.checkSdk nodes) = true :=
        forM_ok_iff checkElement_piece pieces
      cases hchecked : pieces.forM (checkElement call.checkSdk (pieceValue nodes) () ()) with
      | error e =>
        rw [hchecked] at hcheck hiff
        have hbad : pieces.all (checkPiece call.checkSdk nodes) ≠ true := fun hall =>
          by simpa using hiff.mpr hall
        rw [if_neg fun hgood => hbad hgood.1] at hlisted
        rw [hlisted]
        exact ⟨none,h1,hcheck.bind (does_pure _ _),.nothing he1⟩
      | ok u =>
        rw [hchecked] at hcheck hiff
        have hall := hiff.mp rfl
        by_cases hempty : pieces = []
        · rw [if_neg fun hgood => hgood.2.1 hempty] at hlisted
          rw [hlisted]
          refine ⟨none,h1,hcheck.bind ?_,.nothing he1⟩
          dsimp only
          rw [if_pos hempty]
          exact does_pure _ _
        · by_cases hlist : call.listAllocated = true
          · rw [if_pos ⟨hall,hempty,hlist⟩] at hlisted
            obtain ⟨ended,h2,hfill,hended⟩ := does_fill (pieceDecoded call.fillSdk nodes)
              call.encodeAllocated pieces he1
            have hmalloc : Does (malloc (fun _ => call.listAllocated)
                (.urls (List.replicate pieces.length none)) none) h1 (some h1.calls) _ :=
              does_malloc hlist _ _
            cases hmap : pieces.zipIdx.mapM
              (fillElement (pieceDecoded call.fillSdk nodes) call.encodeAllocated) with
            | error e =>
              rw [hmap] at hended hlisted
              rw [hlisted]
              obtain ⟨rfl,hne,qs',urls',n,hf⟩ := hended
              obtain ⟨h3,hfree,he3⟩ := hf.freePieceUrls
              refine ⟨none,h3,hcheck.bind ?_,.nothing he3⟩
              dsimp only
              rw [if_neg hempty]
              refine hmalloc.bind (hfill.bind ?_)
              rw [if_neg hne]
              exact hfree.bind (does_pure _ _)
            | ok urls =>
              rw [hmap] at hended hlisted
              rw [hlisted]
              obtain ⟨rfl,qs',hf⟩ := hended
              refine ⟨some h1.calls,h2,hcheck.bind ?_,.filled hf⟩
              dsimp only
              rw [if_neg hempty]
              exact hmalloc.bind (hfill.bind (does_pure _ _))
          · rw [if_neg fun hgood => hlist hgood.2.2] at hlisted
            rw [hlisted]
            refine ⟨none,h1.skip,hcheck.bind ?_,.nothing he1.skip⟩
            dsimp only
            rw [if_neg hempty]
            exact (does_malloc_full (Bool.eq_false_of_not_eq_true hlist) _ _).bind (does_pure _ _)

/-- The pools that a reference json takes: one as soon as it is parsed. -/
def poolsTaken (call : Call) : Option HttpTransfer.Downloaded → ℕ
  | none => 0
  | some downloaded => if downloaded.totalSize ≠ 0 ∧ call.poolAllocated = true then 1 else 0

variable (call) in
/-- The data is freed wherever the walk stops, and the pool nowhere. -/
theorem does_extractUrls (answer : Option HttpTransfer.Downloaded) (he : Extends h₀ kept h) :
    ∃ list h' pools, Does (extractUrls call answer) h list h' ∧
      Handed h₀ (pools++kept) h' list (urlsOfAnswer call answer) ∧
      pools.length = poolsTaken call answer := by
  cases answer with
  | none => exact ⟨none,h,[],does_pure _ _,.nothing he,rfl⟩
  | some downloaded =>
    have hdata := he.add (.text downloaded.data) none
    have hreceived := does_received (.text downloaded.data) h
    rw [urlsOfAnswer,poolsTaken]
    by_cases hsize : downloaded.totalSize = 0
    · rw [if_pos hsize,if_neg fun htaken => htaken.1 hsize]
      refine ⟨none,_,[],hreceived.bind ?_,.nothing hdata.remove,rfl⟩
      rw [if_pos hsize]
      exact hdata.does_free.bind (does_pure _ _)
    rw [if_neg hsize]
    by_cases hpool : call.poolAllocated = true
    · have hboth := (hdata.add .pool none).perm (List.Perm.swap _ _ _)
      obtain ⟨list,h1,hlist,hh⟩ :=
        @does_listPieces { call with text := downloaded.data } _ _ _ hpool hboth
      obtain ⟨h2,hfree,hh'⟩ := hh.free
      rw [if_pos ⟨hsize,hpool⟩]
      refine ⟨list,h2,[_],hreceived.bind ?_,hh',rfl⟩
      rw [if_neg hsize]
      exact (does_malloc hpool _ _).bind (hlist.bind (hfree.bind (does_pure _ _)))
    · have hfull := Bool.eq_false_of_not_eq_true hpool
      have hnone : listedUrls { call with text := downloaded.data } = none := by
        rw [listedUrls,ownResult,if_pos hfull]
      rw [hnone,if_neg fun htaken => hpool htaken.2]
      refine ⟨none,_,[],hreceived.bind ?_,.nothing hdata.skip.remove,rfl⟩
      rw [if_neg hsize]
      exact (does_malloc_full hfull _ _).bind (hdata.skip.does_free.bind (does_pure _ _))

/-- The URLs of the install over unlimited memory, or its error. -/
def refPkgUrls (sdk : TextSdk) (call : Call) (answer : Option HttpTransfer.Downloaded)
    (value : Bytes) : Except Bytes (List Bytes) := do
  let url ← checkUrl sdk (bytes "url") value
  match urlsOfAnswer call answer with
  | none => .error (quoted (bytes "Unable to extract pieces URLs for ") url (bytes "."))
  | some urls => .ok urls

/-- The pools that the install loses. -/
def poolsLost (sdk : TextSdk) (call : Call) (answer : Option HttpTransfer.Downloaded)
    (value : Bytes) : ℕ :=
  match checkUrl sdk (bytes "url") value with
  | .error _ => 0
  | .ok _ => poolsTaken call answer

/-- An install by a reference json hands on the URLs that it does over unlimited memory, and frees
every block that it has used but one: the pool of the parse, which is lost in every install that
comes as far as to parse. -/
theorem refUrls_frees (sdk : TextSdk) (call : Call) (answer : Option HttpTransfer.Downloaded)
    (value : Bytes) (h : Heap Content) :
    ∃ h' lost, Does (refUrls sdk call answer value) h (refPkgUrls sdk call answer value) h' ∧
      Extends h lost h' ∧ lost.length = poolsLost sdk call answer value := by
  unfold refUrls refPkgUrls poolsLost checkUrl
  by_cases hvalue : value = []
  · rw [if_pos hvalue,if_pos hvalue]
    exact ⟨h,[],does_pure _ _,.refl h,rfl⟩
  rw [if_neg hvalue,if_neg hvalue]
  cases hurl : httpUnescapeUri sdk value with
  | none => exact ⟨h,[],(does_unescaped_none hurl h).bind (does_pure _ _),.refl h,rfl⟩
  | some url =>
    have hdone := does_unescaped hurl h
    have hload : Does (loadText h.calls) (h.add (.text url) none) url _ :=
      does_loadText Heap.payload_add_self
    have he : Extends h [h.calls] (h.add (.text url) none) := (Extends.refl h).add _ _
    dsimp only
    cases hscheme : hasWebScheme url with
    | false =>
      refine ⟨_,[],hdone.bind (hload.bind ?_),he.remove,rfl⟩
      rw [hscheme]
      exact he.does_free.bind (does_pure _ _)
    | true =>
      obtain ⟨list,h1,pools,hextract,hh,hlength⟩ := does_extractUrls call answer he
      have hlast := List.perm_append_singleton h.calls pools
      rw [if_pos rfl]
      dsimp only [bind,Except.bind]
      generalize urlsOfAnswer call answer = urls at hh
      cases hh with
      | nothing he1 =>
        have he2 := he1.perm hlast
        refine ⟨_,pools,hdone.bind (hload.bind ?_),he2.remove,hlength⟩
        rw [if_pos hscheme]
        exact hextract.bind (he2.does_free.bind (does_pure _ _))
      | @filled list qs urls hf =>
        obtain ⟨h2,hfree,he1⟩ := hf.freePieceUrls
        have he2 := he1.perm hlast
        have harray := hf.array
        rw [List.replicate_zero,List.append_nil] at harray
        refine ⟨_,pools,hdone.bind (hload.bind ?_),he2.remove,hlength⟩
        rw [if_pos hscheme]
        exact hextract.bind ((does_loadUrls harray).bind ((does_readEach hf.texts).bind
          (hfree.bind (he2.does_free.bind (does_pure _ _)))))

end RefPkg

section Runs

/-- An install of one flavour, with all that its calls answer. -/
inductive Install
  | direct (calls : Call) (elements : List Node)
  | refPkg (sdk : TextSdk) (calls : Call) (answer : Option HttpTransfer.Downloaded)
    (value : Bytes)

namespace Install

def urls : Install → Mem Content (Except Bytes (List Bytes))
  | direct calls elements => directUrls calls elements
  | refPkg sdk calls answer value => refUrls sdk calls answer value

/-- The same over unlimited memory. -/
def result : Install → Except Bytes (List Bytes)
  | direct calls elements => packageUrls calls elements
  | refPkg sdk calls answer value => refPkgUrls sdk calls answer value

def lost : Install → ℕ
  | direct _ _ => 0
  | refPkg sdk calls answer value => poolsLost sdk calls answer value

theorem urls_does (install : Install) (h : Heap Content) :
    ∃ h' ps, Does install.urls h install.result h' ∧ Extends h ps h' ∧
      ps.length = install.lost := by
  cases install with
  | direct calls elements =>
    obtain ⟨h',hdoes,hleft⟩ := directUrls_frees calls elements h
    exact ⟨h',[],hdoes,hleft,rfl⟩
  | refPkg sdk calls answer value => exact refUrls_frees sdk calls answer value h

end Install

/-- Installs one after another. -/
def runInstalls : List Install → Mem Content (List (Except Bytes (List Bytes)))
  | [] => pure []
  | install::installs => do
    let r ← install.urls
    let rs ← runInstalls installs
    pure (r::rs)

end Runs

end PieceMemory
end RemotePkgInstaller
