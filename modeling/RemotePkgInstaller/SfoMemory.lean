import RemotePkgInstaller.BlockMemory
import RemotePkgInstaller.SfoValues

/-! `sfo.c` and its use in `install_pieces` over memory that may run out: the system file object
with its entries in blocks of their own, from `sfo_alloc` to `sfo_free`. -/
namespace RemotePkgInstaller
namespace SfoMemory

open BlockMemory BufferAccess BufferAccess.Access HttpText InstallPieces LinkedLists Looks PkgSetup
  Requests Sfo SfoValues

/-- The fields of `struct sfo_entry`, less its links. -/
structure EntryFields where
  key : Option ℕ
  size : ℕ
  area : ℕ
  value : Option ℕ
  format : ℕ

/-- What a block holds: the object, one of its entries, or bytes. -/
inductive Content
  | sfo (entries : Option ℕ)
  | entry (fields : EntryFields)
  | bytes (b : Bytes)

section Blocks

def loadSfo (p : ℕ) : Mem Content (Option ℕ) := do
  match ← load p with
  | .sfo entries => pure entries
  | _ => failure

def loadEntryFields (p : ℕ) : Mem Content EntryFields := do
  match ← load p with
  | .entry fields => pure fields
  | _ => failure

def loadBytes (p : ℕ) : Mem Content Bytes := do
  match ← load p with
  | .bytes b => pure b
  | _ => failure

def onEntry (f : EntryFields → EntryFields) : Content → Content
  | .entry fields => .entry (f fields)
  | other => other

def storeEntry (p : ℕ) (f : EntryFields → EntryFields) : Mem Content Unit := store p (onEntry f)

/-- `strlcpy` from the start of a block. -/
def copyString (p : ℕ) (size : ℕ) : Mem Content Bytes := do
  let b ← loadBytes p
  deref (strlcpyFrom ⟨(),0⟩ size : Looking (fun _ : Unit => b) Bytes).value

end Blocks

section Load

variable (room : ℕ → Bool)

def sfoAlloc : Mem Content (Option ℕ) := malloc room (.sfo none) none

/-- What `err` frees of the entry at hand. -/
def releaseEntry (newEntry : ℕ) : Mem Content Unit := do
  let fields ← loadEntryFields newEntry
  freeIfSet fields.key
  freeIfSet fields.value
  free newEntry

/-- The end of a round, once the entry has its key; without a result it goes to `err`. -/
def loadValue (data : Bytes) (valueTable i size area : ℕ) (entries : Option ℕ) (newEntry : ℕ) :
    Mem Content (Option (Option ℕ)) := do
  let value ← malloc room (.bytes (List.replicate area 0)) none
  storeEntry newEntry fun fields => { fields with value }
  match value with
  | none => do
    releaseEntry newEntry
    pure none
  | some value => do
    let valueOffset ← examine (field data (entryOffset i+0x0c) 4)
    let b ← examine (readBytes data (valueTable+valueOffset) size)
    store value fun _ => .bytes (b++List.replicate (area-size) 0)
    let entries ← dlAppend entries newEntry
    pure (some entries)

def loadKeyAndValue (data : Bytes) (keyTable valueTable i size area : ℕ) (entries : Option ℕ)
    (newEntry : ℕ) : Mem Content (Option (Option ℕ)) := do
  let keyOffset ← examine (field data (entryOffset i+0x00) 2)
  let s ← examine (readString data (keyTable+keyOffset))
  let key ← malloc room (.bytes (s++[0])) none
  storeEntry newEntry fun fields => { fields with key }
  match key with
  | none => do
    releaseEntry newEntry
    pure none
  | some _ => loadValue room data valueTable i size area entries newEntry

/-- One round of the loop, with the list so far. -/
def loadRound (data : Bytes) (keyTable valueTable i : ℕ) (entries : Option ℕ) :
    Mem Content (Option (Option ℕ)) := do
  let newEntry ← malloc room (.entry ⟨none,0,0,none,0⟩) (some ⟨none,none⟩)
  match newEntry with
  | none => pure none
  | some newEntry => do
    let format ← examine (field data (entryOffset i+0x02) 2)
    let size ← examine (field data (entryOffset i+0x04) 4)
    let area ← examine (field data (entryOffset i+0x08) 4)
    storeEntry newEntry fun fields => { fields with size, area, format }
    if area < size then do
      releaseEntry newEntry
      pure none
    else loadKeyAndValue room data keyTable valueTable i size area entries newEntry

def loadRounds (data : Bytes) (keyTable valueTable : ℕ) :
    ℕ → ℕ → Option ℕ → Mem Content (Option (Option ℕ))
  | 0,_,entries => pure (some entries)
  | count+1,i,entries => do
    match ← loadRound room data keyTable valueTable i entries with
    | none => pure none
    | some entries => loadRounds data keyTable valueTable count (i+1) entries

/-- The list is given to the object only when it is whole. -/
def sfoLoadFromMemory (sfo : ℕ) (data : Bytes) : Mem Content Bool := do
  if data.length < sizeofSfoHeader then pure false
  else do
    let magic ← examine (readBytes data 0x00 4)
    if magic ≠ sfoMagic then pure false
    else do
      let entryCount ← examine (field data 0x10 4)
      if data.length < entryOffset entryCount then pure false
      else do
        let keyTable ← examine (field data 0x08 4)
        let valueTable ← examine (field data 0x0c 4)
        match ← loadRounds room data keyTable valueTable entryCount 0 none with
        | none => pure false
        | some entries => do
          store sfo fun _ => .sfo entries
          pure true

/-- What the calls on the file give: its size, if it can be opened, and what is then read. -/
structure SfoFile where
  size : Option ℕ
  nread : Option Bytes

/-- What is in memory to be loaded, if everything up to there succeeds. -/
def SfoFile.answer (file : SfoFile) (allocated : Bool) : Option Bytes :=
  file.size.bind fun size =>
    if allocated then file.nread.filter fun b => b.length = size else none

def sfoLoadFromFile (sfo : ℕ) (file : SfoFile) : Mem Content Bool :=
  match file.size with
  | none => pure false
  | some size => do
    match ← malloc room (.bytes (List.replicate size 0)) none with
    | none => pure false
    | some data =>
      match file.nread with
      | none => do
        free data
        pure false
      | some b =>
        if b.length ≠ size then do
          free data
          pure false
        else do
          store data fun _ => .bytes b
          let status ← sfoLoadFromMemory room sfo b
          free data
          pure status

end Load

/-- The entries from `entry` on; a list without an end is not come to the end of. -/
def findFrom (key : Bytes) : ℕ → Option ℕ → Mem Content (Option ℕ)
  | 0,_ => failure
  | _+1,none => pure none
  | rounds+1,some entry => do
    let fields ← loadEntryFields entry
    let own ← loadBytes (← deref fields.key)
    if cstr own = key then pure (some entry)
    else do
      let l ← loadLinks entry
      findFrom key rounds l.next

/-- As many rounds as there can be blocks. -/
def rounds : Mem Content ℕ := fun h => some (h.calls+1,h)

def sfoFindEntry (sfo : ℕ) (key : Bytes) : Mem Content (Option ℕ) := do
  let entries ← loadSfo sfo
  findFrom key (← rounds) entries

def freeFrom (sfo : ℕ) : ℕ → Option ℕ → Mem Content Unit
  | 0,_ => failure
  | _+1,none => pure ()
  | rounds+1,some entry => do
    let l ← loadLinks entry
    let head ← loadSfo sfo
    let head ← dlDelete head entry
    store sfo fun _ => .sfo head
    releaseEntry entry
    freeFrom sfo rounds l.next

def sfoFree (sfo : ℕ) : Mem Content Unit := do
  let entries ← loadSfo sfo
  freeFrom sfo (← rounds) entries
  free sfo

section Task

variable (sdk : TextSdk) (url packageType : Bytes) (info : PackageInfo) (langId : ℤ)

/-- The title in the console's language, or the one for every language, with its key. -/
def findTitle (sfo : ℕ) : Mem Content (Option (Bytes × ℕ)) := do
  let key := strlcpy (bytes "TITLE_"++int2Text langId) 16
  match ← sfoFindEntry sfo key with
  | some entry => pure (some (key,entry))
  | none => do
    let entry ← sfoFindEntry sfo (bytes "TITLE")
    pure (entry.map fun entry => (bytes "TITLE",entry))

def readContentId (sfo : ℕ) (titleName escapedTitleName : Bytes) :
    Mem Content (Except Bytes Task) := do
  match ← sfoFindEntry sfo (bytes "CONTENT_ID") with
  | none =>
    pure (.error (quoted (bytes "Unable to get content id for package ") url (bytes ".")))
  | some entry => do
    let fields ← loadEntryFields entry
    if fields.format ≠ sfoFormatString ∨ fields.size ≠ ContentId.pkgContentIdSize+1 then
      pure (.error (invalidFormat (bytes "CONTENT_ID") url))
    else do
      let contentId ← copyString (← deref fields.value) (ContentId.pkgContentIdSize+1)
      pure (.ok ⟨contentId,titleName,escapedTitleName,packageType,info⟩)

/-- What is read from the object; `url` names the package in a message. -/
def readTask (sfo : ℕ) : Mem Content (Except Bytes Task) := do
  match ← findTitle langId sfo with
  | none => pure (.error (quoted (bytes "Unable to get title for package ") url (bytes ".")))
  | some (key,title) => do
    let fields ← loadEntryFields title
    if fields.format ≠ sfoFormatString ∨ fields.size < 1 then
      pure (.error (invalidFormat key url))
    else do
      let titleName ← copyString (← deref fields.value) 256
      match httpEscapeJsonString sdk (256*2+1) titleName with
      | none => pure (.error (bytes "Unable to escape title name."))
      | some escapedTitleName =>
        readContentId url packageType info sfo titleName escapedTitleName

/-- The part of `install_pieces` that holds the object.  Once the task is read, it does not look
at it again before it frees it. -/
def describePackage (room : ℕ → Bool) (file : SfoFile) : Mem Content (Except Bytes Task) := do
  match ← sfoAlloc room with
  | none => pure (.error
      (quoted (bytes "Unable to allocate system file object for package ") url (bytes ".")))
  | some sfo => do
    let loaded ← sfoLoadFromFile room sfo file
    if loaded = false then do
      sfoFree sfo
      pure (.error
        (quoted (bytes "Unable to load system file object for package ") url (bytes ".")))
    else do
      let task ← readTask sdk url packageType info langId sfo
      sfoFree sfo
      pure task

end Task

section Blocks

variable {h h' : Heap Content} {p : ℕ} {head : Option ℕ} {fields : EntryFields} {b : Bytes}

theorem does_loadSfo (hp : h.payload p = some (.sfo head)) : Does (loadSfo p) h head h :=
  (does_load hp).bind (does_pure _ _)

theorem does_loadEntryFields (hp : h.payload p = some (.entry fields)) :
    Does (loadEntryFields p) h fields h := (does_load hp).bind (does_pure _ _)

theorem does_loadBytes (hp : h.payload p = some (.bytes b)) : Does (loadBytes p) h b h :=
  (does_load hp).bind (does_pure _ _)

theorem does_storeEntry (hp : h.payload p = some (.entry fields))
    (f : EntryFields → EntryFields) : Does (storeEntry p f) h () (h.change p (onEntry f)) :=
  does_store hp _

theorem payload_onEntry (hp : h.payload p = some (.entry fields))
    (f : EntryFields → EntryFields) :
    (h.change p (onEntry f)).payload p = some (.entry (f fields)) := by
  rw [Heap.payload_change_self,hp]
  rfl

/-- An entry goes with its key and its value, as far as it has them. -/
theorem does_releaseEntry {h₀ : Heap Content} {ps : List ℕ}
    (hp : h.payload p = some (.entry fields))
    (he : Extends h₀ (p::(fields.key.toList++fields.value.toList)++ps) h) :
    ∃ h', Does (releaseEntry p) h () h' ∧ Extends h₀ ps h' ∧
      OnlyIn (p::(fields.key.toList++fields.value.toList)) h h' ∧ h'.calls = h.calls := by
  have hperm : (p::(fields.key.toList++fields.value.toList)++ps).Perm
      (fields.key.toList++(fields.value.toList++(p::ps))) := by
    rw [← List.append_assoc]
    exact List.perm_middle.symm
  have he' := he.perm hperm
  obtain ⟨_,hrest,hkey⟩ := List.nodup_append.mp he'.distinct
  have hpk : p ∉ fields.key.toList := fun hmem => hkey p hmem p (by simp) rfl
  have hpv : p ∉ fields.value.toList := fun hmem =>
    (List.nodup_append.mp hrest).2.2 p hmem p List.mem_cons_self rfl
  obtain ⟨h1,hdoes1,he1,ho1,hc1⟩ := does_freeIfSet he'
  obtain ⟨h2,hdoes2,he2,ho2,hc2⟩ := does_freeIfSet he1
  have hp2 : h2.payload p = some (.entry fields) := by
    rw [ho2.payload p hpv,ho1.payload p hpk,hp]
  refine ⟨_,(does_loadEntryFields hp).bind (hdoes1.bind (hdoes2.bind (does_free hp2))),he2.remove,
    ?_,hc2.trans hc1⟩
  have hsub1 : ∀ q ∈ fields.key.toList, q ∈ p::(fields.key.toList++fields.value.toList) :=
    fun q hq => List.mem_cons_of_mem _ (List.mem_append_left _ hq)
  have hsub2 : ∀ q ∈ fields.value.toList, q ∈ p::(fields.key.toList++fields.value.toList) :=
    fun q hq => List.mem_cons_of_mem _ (List.mem_append_right _ hq)
  exact ((ho1.mono hsub1).trans (ho2.mono hsub2)).trans (onlyIn_remove List.mem_cons_self _)

end Blocks

/-- Where an entry lies with its key and its value. -/
structure Slot where
  entry : ℕ
  key : ℕ
  value : ℕ

def Slot.blocks (s : Slot) : List ℕ := [s.entry,s.key,s.value]

/-- All blocks of a list of entries. -/
def owned (slots : List Slot) : List ℕ := slots.flatMap Slot.blocks

/-- The blocks hold this entry. -/
structure StoresEntry (h : Heap Content) (s : Slot) (e : SfoEntry) : Prop where
  entry : h.payload s.entry = some (.entry ⟨some s.key,e.size,e.area,some s.value,e.format⟩)
  key : h.payload s.key = some (.bytes (e.key++[0]))
  value : h.payload s.value = some (.bytes e.value)
  terminated : 0 ∉ e.key

/-- The list from `head` on holds these entries. -/
structure HoldsList (h : Heap Content) (head : Option ℕ) (slots : List Slot)
    (es : List SfoEntry) : Prop where
  list : IsDlist h.cell head (slots.map Slot.entry)
  entries : List.Forall₂ (StoresEntry h) slots es

section Lists

variable {h h' : Heap Content} {head : Option ℕ} {slots : List Slot} {es : List SfoEntry}
  {s : Slot} {e : SfoEntry} {ps : List ℕ}

theorem length_owned (slots : List Slot) : (owned slots).length = 3*slots.length := by
  induction slots with
  | nil => rfl
  | cons s slots ih =>
    have hcons : (owned (s::slots)).length = 3+(owned slots).length := by
      simp [owned,Slot.blocks]
      omega
    rw [hcons,ih,List.length_cons]
    omega

theorem owned_cons (s : Slot) (slots : List Slot) :
    owned (s::slots) = s.blocks++owned slots := List.flatMap_cons

theorem owned_snoc (slots : List Slot) (s : Slot) :
    owned (slots++[s]) = owned slots++s.blocks := by
  simp [owned]

theorem StoresEntry.congr (hs : StoresEntry h s e)
    (heq : ∀ p ∈ s.blocks, h'.payload p = h.payload p) : StoresEntry h' s e := by
  refine ⟨?_,?_,?_,hs.terminated⟩
  · rw [heq _ (by simp [Slot.blocks]),hs.entry]
  · rw [heq _ (by simp [Slot.blocks]),hs.key]
  · rw [heq _ (by simp [Slot.blocks]),hs.value]

theorem entries_congr (hs : List.Forall₂ (StoresEntry h) slots es)
    (heq : ∀ p ∈ owned slots, h'.payload p = h.payload p) :
    List.Forall₂ (StoresEntry h') slots es := by
  induction hs with
  | nil => exact .nil
  | @cons s e slots es hs _ ih =>
    rw [owned_cons] at heq
    exact .cons (hs.congr fun p hp => heq p (List.mem_append_left _ hp))
      (ih fun p hp => heq p (List.mem_append_right _ hp))

theorem entry_mem_owned {p : ℕ} (hp : p ∈ slots.map Slot.entry) : p ∈ owned slots := by
  obtain ⟨s,hs,rfl⟩ := List.mem_map.mp hp
  exact List.mem_flatMap.mpr ⟨s,hs,List.mem_cons_self⟩

/-- A list stays what it is when other blocks change. -/
theorem HoldsList.onlyIn (hl : HoldsList h head slots es) (ho : OnlyIn ps h h')
    (hdisjoint : ∀ p ∈ owned slots, p ∉ ps) : HoldsList h' head slots es :=
  ⟨hl.list.congr fun _ hp => ho.cell _ (hdisjoint _ (entry_mem_owned hp)),
    entries_congr hl.entries fun p hp => ho.payload p (hdisjoint p hp)⟩

theorem nodup_entries (hnodup : (owned slots).Nodup) : (slots.map Slot.entry).Nodup := by
  induction slots with
  | nil => exact List.nodup_nil
  | cons s slots ih =>
    rw [owned_cons] at hnodup
    obtain ⟨_,hslots,hdisjoint⟩ := List.nodup_append.mp hnodup
    refine List.nodup_cons.mpr ⟨fun hmem => ?_,ih hslots⟩
    exact hdisjoint s.entry List.mem_cons_self _ (entry_mem_owned hmem) rfl

end Lists

section Looks

variable {data : Bytes} {offset n : ℕ}

theorem readBytes_ne_failed : (readBytes data offset n).outcome ≠ .failed := by
  unfold readBytes
  split_ifs <;> simp

theorem readString_ne_failed : (readString data offset).outcome ≠ .failed := by
  unfold readString
  split_ifs <;> simp

theorem field_ne_failed : (field data offset n).outcome ≠ .failed := by
  rw [field,bind_outcome]
  cases h : (readBytes data offset n).outcome with
  | ok b => simp [Outcome.andThen,outcome_pure]
  | failed => exact absurd h readBytes_ne_failed
  | fault => simp [Outcome.andThen]

variable {α β : Type} {h h' : Heap Content} {c : Prop} [Decidable c] {f : Unit → Access α}
  {m : Mem Content β} {Good : α → β → Heap Content → Prop} {Bad : β → Heap Content → Prop}

theorem refines_check (hc : c) (hm : Refines (f ()) m h Good Bad) :
    Refines (check c >>= f) m h Good Bad := by
  rwa [Refines,check_bind_outcome hc]

theorem refines_check_not (hc : ¬ c) {b : β} (hm : Does m h b h') (hbad : Bad b h') :
    Refines (check c >>= f) m h Good Bad := by
  refine refines_failed ?_ hm hbad
  rw [bind_outcome,check,if_neg hc]
  rfl

end Looks

/-- The list has been built since, and nothing else. -/
structure Loaded (h₀ : Heap Content) (head : Option ℕ) (slots : List Slot) (es : List SfoEntry)
    (h : Heap Content) : Prop where
  blocks : Extends h₀ (owned slots) h
  holds : HoldsList h head slots es

/-- How many entries are loaded before one is not. -/
def loadedBefore (data : Bytes) (keyTable valueTable : ℕ) (alloc : ℕ → Bool) : ℕ → ℕ → ℕ
  | 0,_ => 0
  | count+1,i =>
    match (Sfo.loadEntry data keyTable valueTable alloc i).outcome with
    | .ok _ => loadedBefore data keyTable valueTable alloc count (i+1)+1
    | _ => 0

section Load

variable {room alloc : ℕ → Bool} {data : Bytes} {keyTable valueTable i : ℕ}
  {h₀ h : Heap Content} {head : Option ℕ} {slots : List Slot} {es : List SfoEntry}

/-- The new entry becomes the last of the list. -/
theorem loaded_append {s : Slot} {e : SfoEntry} (hl : HoldsList h head slots es)
    (he : Extends h₀ (owned (slots++[s])) h) (hs : StoresEntry h s e) {l : Links ℕ}
    (hcell : h.cell s.entry = some l) :
    ∃ h', Does (dlAppend head s.entry) h (some (head.getD s.entry)) h' ∧
      Loaded h₀ (some (head.getD s.entry)) (slots++[s]) (es++[e]) h' ∧ h'.calls = h.calls := by
  have hnodup := nodup_entries he.distinct
  rw [List.map_append,List.nodup_append] at hnodup
  have hnew : s.entry ∉ slots.map Slot.entry := fun hmem =>
    hnodup.2.2 _ hmem s.entry List.mem_cons_self rfl
  obtain ⟨h',hdoes,hlist,hr⟩ := does_dlAppend hl.list hnodup.1 hnew hcell
  refine ⟨h',hdoes,⟨he.relinked hr fun q hq => ?_,?_,?_⟩,hr.calls⟩
  · rw [← List.map_singleton,← List.map_append] at hq
    exact entry_mem_owned hq
  · rwa [List.map_append]
  · exact entries_congr (List.rel_append hl.entries (.cons hs .nil))
      fun p _ => congrFun hr.payload p

/-- What a round leaves when it succeeds, with one entry more, and when it goes to `err`. -/
def AddsEntry (h₀ : Heap Content) (slots : List Slot) (es : List SfoEntry) (calls : ℕ)
    (e : SfoEntry) (head : Option (Option ℕ)) (h : Heap Content) : Prop :=
  ∃ first s, head = some (some first) ∧ Loaded h₀ (some first) (slots++[s]) (es++[e]) h ∧
    h.calls = calls

def KeepsEntries (h₀ : Heap Content) (slots : List Slot) (head : Option (Option ℕ))
    (h : Heap Content) : Prop := head = none ∧ Extends h₀ (owned slots) h

/-- The new entry has its key and room for its value. -/
theorem refines_fillValue {format size area newEntry k v : ℕ} {key b : Bytes}
    (hl : HoldsList h head slots es) (he : Extends h₀ (v::k::newEntry::owned slots) h)
    (hentry : h.payload newEntry = some (.entry ⟨some k,size,area,some v,format⟩))
    (hcell : h.cell newEntry = some ⟨none,none⟩) (hk : h.payload k = some (.bytes (key++[0])))
    (hv : h.payload v = some (.bytes b)) (hkey : 0 ∉ key) :
    Refines (do
        let valueOffset ← field data (entryOffset i+0x0c) 4
        let value ← readBytes data (valueTable+valueOffset) size
        pure ⟨key,size,area,value++List.replicate (area-size) 0,format⟩)
      (do
        let valueOffset ← examine (field data (entryOffset i+0x0c) 4)
        let value ← examine (readBytes data (valueTable+valueOffset) size)
        store v fun _ => .bytes (value++List.replicate (area-size) 0)
        let entries ← dlAppend head newEntry
        pure (some entries)) h
      (AddsEntry h₀ slots es h.calls) (KeepsEntries h₀ slots) := by
  refine refines_examine field_ne_failed fun valueOffset _ => ?_
  refine refines_examine readBytes_ne_failed fun value _ => ?_
  have hdistinct := he.distinct
  simp only [List.nodup_cons,List.mem_cons,not_or] at hdistinct
  obtain ⟨⟨hvk,hve,hvs⟩,⟨hke,_⟩,_⟩ := hdistinct
  have honly : OnlyIn [v] h (h.change v fun _ => .bytes (value++List.replicate (area-size) 0)) :=
    onlyIn_change List.mem_cons_self _ _
  have hl' := hl.onlyIn honly fun p hp hmem => hvs (List.mem_singleton.mp hmem ▸ hp)
  have he' := he.change List.mem_cons_self fun _ => .bytes (value++List.replicate (area-size) 0)
  have hperm : (v::k::newEntry::owned slots).Perm (owned (slots++[⟨newEntry,k,v⟩])) := by
    rw [owned_snoc]
    refine List.Perm.trans ?_ List.perm_append_comm
    exact List.reverse_perm [newEntry,k,v] |>.append_right (owned slots)
  obtain ⟨h',happend,hloaded,hcalls⟩ := loaded_append (s := ⟨newEntry,k,v⟩)
    (e := ⟨key,size,area,value++List.replicate (area-size) 0,format⟩) hl' (he'.perm hperm)
    ⟨(Heap.payload_change_of_ne (Ne.symm hve)).trans hentry,
      (Heap.payload_change_of_ne (Ne.symm hvk)).trans hk,by rw [Heap.payload_change_self,hv]; rfl,
      hkey⟩ hcell
  exact refines_pure ((does_store hv _).bind (happend.bind (does_pure _ _)))
    ⟨_,_,rfl,hloaded,hcalls⟩

theorem refines_loadValue {format size area newEntry k : ℕ} {key : Bytes}
    (hl : HoldsList h head slots es) (he : Extends h₀ (k::newEntry::owned slots) h)
    (hentry : h.payload newEntry = some (.entry ⟨some k,size,area,none,format⟩))
    (hcell : h.cell newEntry = some ⟨none,none⟩) (hk : h.payload k = some (.bytes (key++[0])))
    (hkey : 0 ∉ key) (halloc : alloc (3*i+2) = room h.calls) :
    Refines (do
        check (alloc (3*i+2))
        let valueOffset ← field data (entryOffset i+0x0c) 4
        let value ← readBytes data (valueTable+valueOffset) size
        pure ⟨key,size,area,value++List.replicate (area-size) 0,format⟩)
      (loadValue room data valueTable i size area head newEntry) h
      (AddsEntry h₀ slots es (h.calls+1)) (KeepsEntries h₀ slots) := by
  have hlt : newEntry < h.calls := Heap.lt_of_payload hentry
  have hltk : k < h.calls := Heap.lt_of_payload hk
  have hne : k ≠ newEntry := fun heq =>
    (List.nodup_cons.mp he.distinct).1 (heq ▸ List.mem_cons_self)
  cases hroom : room h.calls with
  | false =>
    have hentry0 : h.skip.payload newEntry = some (.entry ⟨some k,size,area,none,format⟩) := hentry
    have he0 := he.skip.change (List.mem_cons_of_mem _ List.mem_cons_self)
      (onEntry fun fields => { fields with value := none })
    obtain ⟨h',hrelease,he',_⟩ := does_releaseEntry (payload_onEntry hentry0 fun fields =>
      { fields with value := none }) (he0.perm (List.Perm.swap _ _ _))
    refine refines_check_not (by rw [halloc,hroom]; exact Bool.false_ne_true) ?_ ⟨rfl,he'⟩
    exact (does_malloc_full hroom _ _).bind
      ((does_storeEntry hentry0 _).bind (hrelease.bind (does_pure _ _)))
  | true =>
    refine refines_check (halloc.trans hroom) ?_
    refine refines_does (does_malloc hroom _ _) ?_
    have hentry1 : (h.add (.bytes (List.replicate area 0)) none).payload newEntry =
        some (.entry ⟨some k,size,area,none,format⟩) := by
      rw [Heap.payload_add_of_ne (ne_of_lt hlt),hentry]
    have hcell1 : (h.add (.bytes (List.replicate area 0)) none).cell newEntry =
        some ⟨none,none⟩ := by
      rw [Heap.cell_add_of_ne (ne_of_lt hlt),hcell]
    refine refines_does (does_storeEntry hentry1 _) ?_
    refine refines_fillValue (b := List.replicate area 0) ?_ ((he.add _ none).change
      (List.mem_cons_of_mem _ (List.mem_cons_of_mem _ List.mem_cons_self)) _)
      (payload_onEntry hentry1 _) hcell1 ?_ ?_ hkey
    · have honly : OnlyIn [newEntry,h.calls] h (h.add (.bytes (List.replicate area 0)) none) :=
        onlyIn_add (by simp) _ _
      refine hl.onlyIn (honly.trans (onlyIn_change (by simp) _ _)) fun p hp hmem => ?_
      simp only [List.mem_cons,List.not_mem_nil,or_false] at hmem
      rcases hmem with rfl | rfl
      · exact (List.nodup_cons.mp (List.nodup_cons.mp he.distinct).2).1 hp
      · exact he.calls_notMem (List.mem_cons_of_mem _ (List.mem_cons_of_mem _ hp))
    · rw [Heap.payload_change_of_ne hne,Heap.payload_add_of_ne (ne_of_lt hltk),hk]
    · rw [Heap.payload_change_of_ne (ne_of_gt hlt),Heap.payload_add_self]

theorem refines_loadKeyAndValue {format size area newEntry : ℕ} (hl : HoldsList h head slots es)
    (he : Extends h₀ (newEntry::owned slots) h)
    (hentry : h.payload newEntry = some (.entry ⟨none,size,area,none,format⟩))
    (hcell : h.cell newEntry = some ⟨none,none⟩) (hkey : alloc (3*i+1) = room h.calls)
    (hvalue : alloc (3*i+2) = room (h.calls+1)) :
    Refines (Sfo.loadKeyAndValue data keyTable valueTable alloc i format size area)
      (loadKeyAndValue room data keyTable valueTable i size area head newEntry) h
      (AddsEntry h₀ slots es (h.calls+2)) (KeepsEntries h₀ slots) := by
  have hlt : newEntry < h.calls := Heap.lt_of_payload hentry
  refine refines_examine field_ne_failed fun keyOffset _ => ?_
  refine refines_examine readString_ne_failed fun key hread => ?_
  have hkey0 : 0 ∉ key := by
    unfold readString at hread
    split_ifs at hread
    cases hread
    exact fun hmem => cstr_ne_zero hmem rfl
  cases hroom : room h.calls with
  | false =>
    have hentry0 : h.skip.payload newEntry = some (.entry ⟨none,size,area,none,format⟩) := hentry
    obtain ⟨h',hrelease,he',_⟩ := does_releaseEntry (payload_onEntry hentry0 fun fields =>
      { fields with key := none }) (he.skip.change List.mem_cons_self _)
    refine refines_check_not (by rw [hkey,hroom]; exact Bool.false_ne_true) ?_ ⟨rfl,he'⟩
    exact (does_malloc_full hroom _ _).bind
      ((does_storeEntry hentry0 _).bind (hrelease.bind (does_pure _ _)))
  | true =>
    refine refines_check (hkey.trans hroom) ?_
    refine refines_does (does_malloc hroom _ _) ?_
    have hentry1 : (h.add (.bytes (key++[0])) none).payload newEntry =
        some (.entry ⟨none,size,area,none,format⟩) := by
      rw [Heap.payload_add_of_ne (ne_of_lt hlt),hentry]
    have hcell1 : (h.add (.bytes (key++[0])) none).cell newEntry = some ⟨none,none⟩ := by
      rw [Heap.cell_add_of_ne (ne_of_lt hlt),hcell]
    refine refines_does (does_storeEntry hentry1 _) ?_
    refine refines_loadValue ?_ ((he.add _ none).change
      (List.mem_cons_of_mem _ List.mem_cons_self) _) (payload_onEntry hentry1 _) hcell1 ?_ hkey0
      hvalue
    · have honly : OnlyIn [newEntry,h.calls] h (h.add (.bytes (key++[0])) none) :=
        onlyIn_add (by simp) _ _
      refine hl.onlyIn (honly.trans (onlyIn_change (by simp) _ _)) fun p hp hmem => ?_
      simp only [List.mem_cons,List.not_mem_nil,or_false] at hmem
      rcases hmem with rfl | rfl
      · exact (List.nodup_cons.mp he.distinct).1 hp
      · exact he.calls_notMem (List.mem_cons_of_mem _ hp)
    · rw [Heap.payload_change_of_ne (ne_of_gt hlt),Heap.payload_add_self]

theorem refines_loadRound (hl : Loaded h₀ head slots es h)
    (halloc : ∀ k, alloc (3*i+k) = room (h.calls+k)) :
    Refines (Sfo.loadEntry data keyTable valueTable alloc i)
      (loadRound room data keyTable valueTable i head) h
      (AddsEntry h₀ slots es (h.calls+3)) (KeepsEntries h₀ slots) := by
  have halloc0 : alloc (3*i) = room h.calls := halloc 0
  cases hroom : room h.calls with
  | false =>
    refine refines_check_not (by rw [halloc0,hroom]; exact Bool.false_ne_true)
      ((does_malloc_full hroom _ _).bind (does_pure _ _)) ⟨rfl,hl.blocks.skip⟩
  | true =>
    refine refines_check (halloc0.trans hroom) ?_
    refine refines_does (does_malloc hroom _ _) ?_
    refine refines_examine field_ne_failed fun format _ => ?_
    refine refines_examine field_ne_failed fun size _ => ?_
    refine refines_examine field_ne_failed fun area _ => ?_
    have hentry : (h.add (.entry ⟨none,0,0,none,0⟩) (some ⟨none,none⟩)).payload h.calls =
        some (.entry ⟨none,0,0,none,0⟩) := Heap.payload_add_self
    have hcell : (h.add (.entry ⟨none,0,0,none,0⟩) (some ⟨none,none⟩)).cell h.calls =
        some ⟨none,none⟩ := Heap.cell_add_self
    have hentry1 := payload_onEntry hentry fun fields => { fields with size, area, format }
    have he := (hl.blocks.add (.entry ⟨none,0,0,none,0⟩) (some ⟨none,none⟩)).change
      List.mem_cons_self (onEntry fun fields => { fields with size, area, format })
    refine refines_does (does_storeEntry hentry _) ?_
    by_cases hsize : size ≤ area
    · refine refines_check hsize ?_
      rw [if_neg (not_lt.mpr hsize)]
      have honly : OnlyIn [h.calls] h (h.add (.entry ⟨none,0,0,none,0⟩) (some ⟨none,none⟩)) :=
        onlyIn_add List.mem_cons_self _ _
      refine refines_loadKeyAndValue (hl.holds.onlyIn (honly.trans
        (onlyIn_change List.mem_cons_self _ _)) fun p hp hmem => ?_) he hentry1
        hcell (halloc 1) (halloc 2)
      exact hl.blocks.calls_notMem (List.mem_singleton.mp hmem ▸ hp)
    · obtain ⟨h',hrelease,he',_⟩ := does_releaseEntry hentry1 he
      rw [if_pos (not_le.mp hsize)]
      exact refines_check_not hsize (hrelease.bind (does_pure _ _)) ⟨rfl,he'⟩

theorem refines_loadRounds {count : ℕ} (hl : Loaded h₀ head slots es h)
    (halloc : ∀ k, alloc (3*i+k) = room (h.calls+k)) :
    Refines (Sfo.loadEntries data keyTable valueTable alloc count i)
      (loadRounds room data keyTable valueTable count i head) h
      (fun es' head' h' => ∃ first slots', head' = some first ∧ Loaded h₀ first slots' (es++es') h')
      (fun head' h' => head' = none ∧ ∃ slots', Extends h₀ (owned slots') h' ∧
        slots'.length = slots.length+loadedBefore data keyTable valueTable alloc count i) := by
  induction count generalizing i head slots es h with
  | zero =>
    refine refines_pure (does_pure _ _) ⟨head,slots,rfl,?_⟩
    rwa [List.append_nil]
  | succ count ih =>
    refine refines_bind (refines_loadRound hl halloc) ?_ ?_
    · rintro e head' h' hok ⟨first,s,rfl,hloaded,hcalls⟩
      have hnext : ∀ k, alloc (3*(i+1)+k) = room (h'.calls+k) := fun k => by
        rw [hcalls,Nat.mul_succ,Nat.add_assoc,halloc,Nat.add_assoc]
      refine refines_map (ih hloaded hnext) ?_ ?_
      · rintro es' head' h'' _ ⟨first',slots',rfl,hloaded'⟩
        refine ⟨first',slots',rfl,?_⟩
        rwa [List.append_assoc] at hloaded'
      · rintro head' h'' _ ⟨rfl,slots',he',hlength⟩
        refine ⟨rfl,slots',he',?_⟩
        have hcount : loadedBefore data keyTable valueTable alloc (count+1) i =
            loadedBefore data keyTable valueTable alloc count (i+1)+1 := by
          rw [loadedBefore,hok]
        rw [hlength,hcount,List.length_append,List.length_singleton]
        omega
    · rintro head' h' hfailed ⟨rfl,he'⟩
      refine ⟨none,h',does_pure _ _,rfl,slots,he',?_⟩
      rw [loadedBefore,hfailed]
      rfl

end Load

instance (data : Bytes) : Decidable (Refused data) :=
  inferInstanceAs (Decidable (data.length < sizeofSfoHeader ∨ window data 0x00 4 ≠ sfoMagic ∨
    data.length < entryOffset (get data 0x10 4)))

/-- How many entries a load that fails has in memory when it does. -/
def entriesBefore (data : Bytes) (alloc : ℕ → Bool) : ℕ :=
  if Refused data then 0
  else loadedBefore data (get data 0x08 4) (get data 0x0c 4) alloc (get data 0x10 4) 0

/-- The object has these entries, beside which there are other blocks. -/
structure HasEntries (h₀ : Heap Content) (sfo : ℕ) (ps : List ℕ) (slots : List Slot)
    (es : List SfoEntry) (h : Heap Content) : Prop where
  blocks : Extends h₀ (owned slots++sfo::ps) h
  object : ∃ first, h.payload sfo = some (.sfo first) ∧ HoldsList h first slots es

/-- The object has no entries, and nothing leads to the blocks of these. -/
structure LostEntries (h₀ : Heap Content) (sfo : ℕ) (ps : List ℕ) (slots : List Slot)
    (h : Heap Content) : Prop where
  blocks : Extends h₀ (owned slots++sfo::ps) h
  object : h.payload sfo = some (.sfo none)

section Object

variable {room alloc : ℕ → Bool} {data : Bytes} {h₀ h h' : Heap Content} {sfo : ℕ} {ps : List ℕ}
  {slots : List Slot} {es : List SfoEntry}

theorem field_ok {offset n v : ℕ} (hle : offset+n ≤ data.length)
    (hfield : (field data offset n).outcome = .ok v) : v = get data offset n :=
  Outcome.ok.inj (hfield.symm.trans (field_of_le hle).1)

theorem refines_sfoLoadFromMemory (he : Extends h₀ (sfo::ps) h)
    (hsfo : h.payload sfo = some (.sfo none)) (halloc : ∀ k, alloc k = room (h.calls+k)) :
    Refines (Sfo.sfoLoadFromMemory data alloc) (sfoLoadFromMemory room sfo data) h
      (fun es status h' => status = true ∧ ∃ slots, HasEntries h₀ sfo ps slots es h')
      (fun status h' => status = false ∧ ∃ slots, LostEntries h₀ sfo ps slots h' ∧
        slots.length = entriesBefore data alloc) := by
  have hnone : ∀ b, Refused data → b = false →
      b = false ∧ ∃ slots, LostEntries h₀ sfo ps slots h ∧
        slots.length = entriesBefore data alloc := by
    intro b href hb
    refine ⟨hb,[],⟨he,hsfo⟩,?_⟩
    rw [entriesBefore,if_pos href]
    rfl
  by_cases hlen : sizeofSfoHeader ≤ data.length
  swap
  · refine refines_check_not hlen ?_ (hnone false (Or.inl (not_le.mp hlen)) rfl)
    rw [sfoLoadFromMemory,if_pos (not_le.mp hlen)]
    exact does_pure _ _
  have hlen' := hlen
  rw [sizeofSfoHeader] at hlen'
  refine refines_check hlen ?_
  rw [sfoLoadFromMemory,if_neg (not_lt.mpr hlen)]
  refine refines_examine readBytes_ne_failed fun magic hread => ?_
  obtain rfl : magic = window data 0x00 4 := by
    rw [readBytes_of_le (by omega)] at hread
    exact (Outcome.ok.inj hread).symm
  by_cases hmagic : window data 0x00 4 = sfoMagic
  swap
  · refine refines_check_not hmagic ?_ (hnone false (Or.inr (Or.inl hmagic)) rfl)
    rw [if_pos hmagic]
    exact does_pure _ _
  refine refines_check hmagic ?_
  rw [if_neg (not_not.mpr hmagic)]
  refine refines_examine field_ne_failed fun entryCount hcount => ?_
  obtain rfl := field_ok (by omega) hcount
  by_cases htable : entryOffset (get data 0x10 4) ≤ data.length
  swap
  · refine refines_check_not htable ?_ (hnone false (Or.inr (Or.inr (not_le.mp htable))) rfl)
    rw [if_pos (not_le.mp htable)]
    exact does_pure _ _
  refine refines_check htable ?_
  rw [if_neg (not_lt.mpr htable)]
  refine refines_examine field_ne_failed fun keyTable hkey => ?_
  obtain rfl := field_ok (by omega) hkey
  refine refines_examine field_ne_failed fun valueTable hvalue => ?_
  obtain rfl := field_ok (by omega) hvalue
  have href : ¬ Refused data := by
    rintro (h | h | h)
    · omega
    · exact h hmagic
    · omega
  have hstart : Loaded h none [] [] h := ⟨.refl h,isDlist_nil,.nil⟩
  refine refines_after (refines_loadRounds hstart fun k => by rw [Nat.mul_zero,Nat.zero_add,halloc])
    ?_ ?_
  · rintro es head' h' _ ⟨first,slots,rfl,hloaded⟩
    have hblocks := he.trans hloaded.blocks
    have hsfo' : h'.payload sfo = some (.sfo none) := by
      rw [hloaded.blocks.payload sfo fun hmem => absurd (hloaded.blocks.made sfo hmem)
        (not_le.mpr (Heap.lt_of_payload hsfo)),hsfo]
    have honly : OnlyIn [sfo] h' (h'.change sfo fun _ => .sfo first) :=
      onlyIn_change List.mem_cons_self _ _
    refine ⟨true,_,(does_store hsfo' _).bind (does_pure _ _),rfl,slots,
      hblocks.change (List.mem_append_right _ List.mem_cons_self) _,first,?_,
      hloaded.holds.onlyIn honly fun p hp hmem => ?_⟩
    · rw [Heap.payload_change_self,hsfo']
      rfl
    · exact (List.nodup_append.mp hblocks.distinct).2.2 p hp sfo List.mem_cons_self
        (List.mem_singleton.mp hmem)
  · rintro head' h' _ ⟨rfl,slots,hblocks,hlength⟩
    refine ⟨false,h',does_pure _ _,rfl,slots,⟨he.trans hblocks,?_⟩,?_⟩
    · rw [hblocks.payload sfo fun hmem => absurd (hblocks.made sfo hmem)
        (not_le.mpr (Heap.lt_of_payload hsfo)),hsfo]
    · rw [hlength,entriesBefore,if_neg href]
      exact Nat.zero_add _

/-- A block beside the object is freed. -/
theorem does_freeBeside {d : ℕ} (he : Extends h₀ (owned slots++sfo::d::ps) h) :
    ∃ h', Does (free d) h () h' ∧ Extends h₀ (owned slots++sfo::ps) h' ∧ OnlyIn [d] h h' ∧
      d ∉ owned slots ∧ sfo ≠ d := by
  have hperm : (owned slots++sfo::d::ps).Perm (d::(owned slots++sfo::ps)) := by
    have hmiddle := @List.perm_middle _ d (owned slots++[sfo]) ps
    rwa [← List.append_cons,← List.append_cons] at hmiddle
  have he' := he.perm hperm
  obtain ⟨v,hv⟩ := Option.isSome_iff_exists.mp (he'.live d List.mem_cons_self)
  have hnotin := (List.nodup_cons.mp he'.distinct).1
  rw [List.mem_append,not_or,List.mem_cons,not_or] at hnotin
  exact ⟨_,does_free hv,he'.remove,onlyIn_remove List.mem_cons_self _,hnotin.1,
    Ne.symm hnotin.2.1⟩

theorem does_sfoLoadFromFile_none {file : SfoFile} (he : Extends h₀ [sfo] h)
    (hsfo : h.payload sfo = some (.sfo none)) (hfile : file.answer (room h.calls) = none) :
    ∃ h', Does (sfoLoadFromFile room sfo file) h false h' ∧ LostEntries h₀ sfo [] [] h' := by
  unfold sfoLoadFromFile
  unfold SfoFile.answer at hfile
  have hlt : sfo < h.calls := Heap.lt_of_payload hsfo
  cases hsize : file.size with
  | none => exact ⟨h,does_pure _ _,he,hsfo⟩
  | some size =>
    rw [hsize,Option.bind_some] at hfile
    dsimp only
    cases hroom : room h.calls with
    | false => exact ⟨_,(does_malloc_full hroom _ _).bind (does_pure _ _),he.skip,hsfo⟩
    | true =>
      rw [hroom,if_pos rfl] at hfile
      have hdata : (h.add (.bytes (List.replicate size 0)) none).payload h.calls =
          some (.bytes (List.replicate size 0)) := Heap.payload_add_self
      have hleft : LostEntries h₀ sfo [] []
          ((h.add (.bytes (List.replicate size 0)) none).remove h.calls) := by
        refine ⟨(he.add _ none).remove,?_⟩
        rw [Heap.payload_remove_of_ne (ne_of_lt hlt),Heap.payload_add_of_ne (ne_of_lt hlt),hsfo]
      refine ⟨_,(does_malloc hroom _ _).bind ?_,hleft⟩
      cases hread : file.nread with
      | none => exact (does_free hdata).bind (does_pure _ _)
      | some b =>
        rw [hread,Option.filter_eq_none_iff] at hfile
        have hlength : b.length ≠ size := by simpa using hfile b rfl
        dsimp only
        rw [if_pos hlength]
        exact (does_free hdata).bind (does_pure _ _)

/-- The copy of the file is freed behind the load. -/
theorem refines_sfoLoadFromFile {file : SfoFile} (he : Extends h₀ [sfo] h)
    (hsfo : h.payload sfo = some (.sfo none)) (hfile : file.answer (room h.calls) = some data)
    (halloc : ∀ k, alloc k = room (h.calls+1+k)) :
    Refines (Sfo.sfoLoadFromMemory data alloc) (sfoLoadFromFile room sfo file) h
      (fun es status h' => status = true ∧ ∃ slots, HasEntries h₀ sfo [] slots es h')
      (fun status h' => status = false ∧ ∃ slots, LostEntries h₀ sfo [] slots h' ∧
        slots.length = entriesBefore data alloc) := by
  obtain ⟨size,hsize,hrest⟩ := Option.bind_eq_some_iff.mp hfile
  split_ifs at hrest with hroom
  obtain ⟨hread,hlength⟩ := Option.filter_eq_some_iff.mp hrest
  have hlength : data.length = size := by simpa using hlength
  have hlt : sfo < h.calls := Heap.lt_of_payload hsfo
  unfold sfoLoadFromFile
  rw [hsize]
  refine refines_does (does_malloc hroom _ _) ?_
  rw [hread]
  dsimp only
  rw [if_neg (not_not.mpr hlength)]
  have hdata : (h.add (.bytes (List.replicate size 0)) none).payload h.calls =
      some (.bytes (List.replicate size 0)) := Heap.payload_add_self
  refine refines_does (does_store hdata _) ?_
  have he' := ((he.add (.bytes (List.replicate size 0)) none).change List.mem_cons_self
    fun _ => Content.bytes data).perm (List.Perm.swap _ _ _)
  refine refines_after (refines_sfoLoadFromMemory he' ?_ halloc) ?_ ?_
  · rw [Heap.payload_change_of_ne (ne_of_lt hlt),Heap.payload_add_of_ne (ne_of_lt hlt),hsfo]
  · rintro es status h' _ ⟨rfl,slots,hhas⟩
    obtain ⟨first,hfirst,hlist⟩ := hhas.object
    obtain ⟨h'',hfree,hblocks,honly,hnotin,hne⟩ := does_freeBeside hhas.blocks
    refine ⟨true,h'',hfree.bind (does_pure _ _),rfl,slots,hblocks,first,?_,
      hlist.onlyIn honly fun p hp hmem => hnotin (List.mem_singleton.mp hmem ▸ hp)⟩
    rw [honly.payload sfo (fun hmem => hne (List.mem_singleton.mp hmem)),hfirst]
  · rintro status h' _ ⟨rfl,slots,hlost,hcount⟩
    obtain ⟨h'',hfree,hblocks,honly,_,hne⟩ := does_freeBeside hlost.blocks
    refine ⟨false,h'',hfree.bind (does_pure _ _),rfl,slots,⟨hblocks,?_⟩,hcount⟩
    rw [honly.payload sfo (fun hmem => hne (List.mem_singleton.mp hmem)),hlost.object]

end Object

/-- The pointer leads to this entry, or there is none. -/
inductive Found (h : Heap Content) : Option ℕ → Option SfoEntry → Prop
  | none : Found h none none
  | entry {s : Slot} {e : SfoEntry} (hs : StoresEntry h s e) : Found h (some s.entry) (some e)

section Search

variable {h h₀ : Heap Content} {sfo : ℕ} {ps : List ℕ} {slots : List Slot} {es : List SfoEntry}
  {key : Bytes}

/-- The walk along the list stops where the search in the entries does. -/
theorem does_findFrom {before : Option ℕ} {n : ℕ}
    (hseg : Segment h.cell before (slots.map Slot.entry) none)
    (hes : List.Forall₂ (StoresEntry h) slots es) (hfuel : slots.length < n) :
    ∃ found, Does (findFrom key n (slots.map Slot.entry).head?) h found h ∧
      Found h found (InstallPieces.sfoFindEntry es key) := by
  induction hes generalizing before n with
  | nil =>
    obtain ⟨n,rfl⟩ := Nat.exists_eq_succ_of_ne_zero (Nat.ne_of_gt hfuel)
    exact ⟨none,does_pure _ _,.none⟩
  | @cons s e slots es hs _ ih =>
    obtain ⟨n,rfl⟩ := Nat.exists_eq_succ_of_ne_zero (Nat.ne_zero_of_lt hfuel)
    have hcstr : cstr (e.key++[0]) = e.key := cstr_append_zero hs.terminated []
    by_cases hkey : e.key = key
    · refine ⟨some s.entry,(does_loadEntryFields hs.entry).bind ((does_deref _ _).bind
        ((does_loadBytes hs.key).bind ?_)),?_⟩
      · rw [hcstr,if_pos hkey]
        exact does_pure _ _
      · rw [InstallPieces.sfoFindEntry,List.find?_cons_of_pos (by simpa using hkey)]
        exact .entry hs
    · obtain ⟨found,hdoes,hfound⟩ := ih hseg.2 (Nat.lt_of_succ_lt_succ hfuel)
      have hcell := hseg.1
      rw [Option.or_none] at hcell
      refine ⟨found,(does_loadEntryFields hs.entry).bind ((does_deref _ _).bind
        ((does_loadBytes hs.key).bind ?_)),?_⟩
      · rw [hcstr,if_neg hkey]
        exact (does_loadLinks hcell).bind hdoes
      · rw [InstallPieces.sfoFindEntry,List.find?_cons_of_neg (by simpa using hkey)]
        exact hfound

theorem does_rounds (h : Heap Content) : Does rounds h (h.calls+1) h := rfl

/-- There are no more entries than there are blocks. -/
theorem length_lt_rounds (he : Extends h₀ (owned slots++ps) h) : slots.length < h.calls+1 := by
  have hnodup := nodup_entries (List.nodup_append.mp he.distinct).1
  have hsub : slots.map Slot.entry ⊆ List.range h.calls := fun p hp =>
    List.mem_range.mpr (he.lt (List.mem_append_left _ (entry_mem_owned hp)))
  have hle := (List.subperm_of_subset hnodup hsub).length_le
  rw [List.length_map,List.length_range] at hle
  omega

theorem does_sfoFindEntry (hhas : HasEntries h₀ sfo ps slots es h) (key : Bytes) :
    ∃ found, Does (sfoFindEntry sfo key) h found h ∧
      Found h found (InstallPieces.sfoFindEntry es key) := by
  obtain ⟨first,hfirst,hlist⟩ := hhas.object
  obtain ⟨found,hdoes,hfound⟩ := does_findFrom hlist.list.segment hlist.entries
    (length_lt_rounds hhas.blocks)
  rw [← hlist.list.head] at hdoes
  exact ⟨found,(does_loadSfo hfirst).bind ((does_rounds h).bind hdoes),hfound⟩

/-- The title is found under the same key. -/
inductive FoundTitle (h : Heap Content) : Option (Bytes × ℕ) → Option (Bytes × SfoEntry) → Prop
  | none : FoundTitle h none none
  | entry {s : Slot} {e : SfoEntry} (key : Bytes) (hs : StoresEntry h s e) :
      FoundTitle h (some (key,s.entry)) (some (key,e))

theorem does_findTitle (hhas : HasEntries h₀ sfo ps slots es h) (langId : ℤ) :
    ∃ found, Does (findTitle langId sfo) h found h ∧
      FoundTitle h found (InstallPieces.findTitle es langId) := by
  obtain ⟨found,hdoes,hfound⟩ :=
    does_sfoFindEntry hhas (strlcpy (bytes "TITLE_"++int2Text langId) 16)
  unfold InstallPieces.findTitle
  dsimp only
  generalize InstallPieces.sfoFindEntry es (strlcpy (bytes "TITLE_"++int2Text langId) 16) = own
    at hfound
  cases hfound with
  | entry hs => exact ⟨_,hdoes.bind (does_pure _ _),.entry _ hs⟩
  | none =>
    obtain ⟨other,hother,hfound⟩ := does_sfoFindEntry hhas (bytes "TITLE")
    refine ⟨_,hdoes.bind (hother.bind (does_pure _ _)),?_⟩
    generalize InstallPieces.sfoFindEntry es (bytes "TITLE") = any at hfound
    cases hfound with
    | none => exact .none
    | entry hs => exact .entry _ hs

end Search

section Release

variable {h h₀ : Heap Content} {sfo : ℕ} {ps : List ℕ} {slots : List Slot} {es : List SfoEntry}
  {head : Option ℕ}

/-- One round takes the first entry from the list and frees it.  The induction is on the entries
that are left. -/
theorem does_freeFrom {n : ℕ} (he : Extends h₀ (owned slots++sfo::ps) h)
    (hsfo : h.payload sfo = some (.sfo head)) (hlist : HoldsList h head slots es)
    (hfuel : slots.length < n) :
    ∃ h', Does (freeFrom sfo n head) h () h' ∧ Extends h₀ (sfo::ps) h' := by
  induction slots generalizing es head h n with
  | nil =>
    obtain ⟨n,rfl⟩ := Nat.exists_eq_succ_of_ne_zero (Nat.ne_of_gt hfuel)
    obtain rfl : head = none := hlist.list.head
    exact ⟨h,does_pure _ _,he⟩
  | cons s slots ih =>
    obtain ⟨n,rfl⟩ := Nat.exists_eq_succ_of_ne_zero (Nat.ne_zero_of_lt hfuel)
    obtain rfl : head = some s.entry := hlist.list.head
    have hentries := hlist.entries
    obtain ⟨rest,hrest,hcell⟩ := hlist.list.first
    obtain rfl : slots.map Slot.entry = rest := (List.cons.inj hrest).2
    cases hentries with
    | @cons _ e _ es hs hes =>
    obtain ⟨hnodup,_,hdisjoint⟩ := List.nodup_append.mp he.distinct
    have hcells : ((s::slots).map Slot.entry).Nodup := nodup_entries hnodup
    rw [owned_cons] at hnodup hdisjoint
    have hblocks : ∀ p ∈ s.blocks, p ≠ sfo := fun p hp =>
      hdisjoint p (List.mem_append_left _ hp) sfo List.mem_cons_self
    have hothers : ∀ p ∈ owned slots, p ≠ sfo := fun p hp =>
      hdisjoint p (List.mem_append_right _ hp) sfo List.mem_cons_self
    obtain ⟨h1,hdelete,hlist1,hr,_⟩ := does_dlDelete hlist.list hcells
    have hsfo1 : h1.payload sfo = some (.sfo (some s.entry)) := by rw [hr.payload,hsfo]
    have hholds1 : HoldsList h1 (slots.map Slot.entry).head? slots es :=
      ⟨hlist1,entries_congr hes fun p _ => congrFun hr.payload p⟩
    have he1 := (he.relinked hr fun q hq => List.mem_append_left _ (by
      rw [owned_cons]
      exact List.mem_append_right _ (entry_mem_owned hq))).change
      (List.mem_append_right _ List.mem_cons_self) fun _ => .sfo (slots.map Slot.entry).head?
    rw [owned_cons,List.append_assoc] at he1
    have hentry : (h1.change sfo fun _ => .sfo (slots.map Slot.entry).head?).payload s.entry =
        some (.entry ⟨some s.key,e.size,e.area,some s.value,e.format⟩) := by
      rw [Heap.payload_change_of_ne (hblocks _ List.mem_cons_self),hr.payload,hs.entry]
    obtain ⟨h2,hrelease,he2,honly,_⟩ := does_releaseEntry hentry he1
    have hsfo2 : h2.payload sfo = some (.sfo (slots.map Slot.entry).head?) := by
      rw [honly.payload sfo (fun hmem => hblocks sfo hmem rfl),Heap.payload_change_self,hsfo1]
      rfl
    have hstored : OnlyIn [sfo] h1 (h1.change sfo fun _ => .sfo (slots.map Slot.entry).head?) :=
      onlyIn_change List.mem_cons_self _ _
    have hholds2 := (hholds1.onlyIn hstored fun p hp hmem =>
      hothers p hp (List.mem_singleton.mp hmem)).onlyIn honly fun p hp hmem =>
        (List.nodup_append.mp hnodup).2.2 p hmem p hp rfl
    obtain ⟨h3,hrest,he3⟩ := ih he2 hsfo2 hholds2 (Nat.lt_of_succ_lt_succ hfuel)
    exact ⟨h3,(does_loadLinks hcell).bind ((does_loadSfo hsfo).bind (hdelete.bind
      ((does_store hsfo1 _).bind (hrelease.bind hrest)))),he3⟩

/-- `sfo_free` frees the object and the entries it has. -/
theorem does_sfoFree (hhas : HasEntries h₀ sfo ps slots es h) :
    ∃ h', Does (sfoFree sfo) h () h' ∧ Extends h₀ ps h' := by
  obtain ⟨first,hfirst,hlist⟩ := hhas.object
  obtain ⟨h',hdoes,he⟩ := does_freeFrom hhas.blocks hfirst hlist (length_lt_rounds hhas.blocks)
  obtain ⟨v,hv⟩ := Option.isSome_iff_exists.mp (he.live sfo List.mem_cons_self)
  exact ⟨_,(does_loadSfo hfirst).bind ((does_rounds h).bind (hdoes.bind (does_free hv))),he.remove⟩

/-- Entries that the object does not have stay behind. -/
theorem LostEntries.sfoFree (hlost : LostEntries h₀ sfo [] slots h) :
    ∃ h', Does (sfoFree sfo) h () h' ∧ Extends h₀ (owned slots) h' := by
  have hblocks := hlost.blocks.perm List.perm_append_comm
  have hhas : HasEntries h₀ sfo (owned slots) [] [] h :=
    ⟨hblocks,none,hlost.object,isDlist_nil,.nil⟩
  exact does_sfoFree hhas

end Release

/-- The program reads this from memory, or what is not there. -/
def Reads {α : Type} (m : Mem Content α) (h : Heap Content) : Option α → Prop
  | some a => Does m h a h
  | none => Faults m h

section Task

variable {sdk : TextSdk} {url packageType : Bytes} {info : PackageInfo} {langId : ℤ}
  {h h₀ : Heap Content} {sfo : ℕ} {ps : List ℕ} {slots : List Slot} {es : List SfoEntry}

theorem Reads.bind {α β : Type} {m : Mem Content α} {g : α → Mem Content β} {o : Option α}
    {F : α → Option β} (hm : Reads m h o) (hg : ∀ a, Reads (g a) h (F a)) :
    Reads (m >>= g) h (o.bind F) := by
  cases o with
  | none => exact Faults.bind hm g
  | some a =>
    have ha := hg a
    rw [Option.bind_some]
    cases hF : F a with
    | none =>
      rw [hF] at ha
      exact Does.faults hm ha
    | some b =>
      rw [hF] at ha
      exact Does.bind hm ha

theorem Does.reads {α β : Type} {m : Mem Content α} {g : α → Mem Content β} {a : α} {o : Option β}
    (hm : Does m h a h) (hg : Reads (g a) h o) : Reads (m >>= g) h o := by
  have hm' : Reads m h (some a) := hm
  cases o with
  | none => exact hm.faults hg
  | some b => exact hm.bind hg

/-- A value is copied as far as its terminator, which must be in its block. -/
theorem reads_copyString {s : Slot} {e : SfoEntry} (hs : StoresEntry h s e) (size : ℕ) :
    Reads (copyString s.value size) h
      (strlcpyFrom ⟨e,0⟩ size : Looking SfoEntry.value Bytes).value := by
  refine Does.reads (does_loadBytes hs.value) ?_
  rw [strlcpyFrom_value,strlcpyFrom_value]
  split_ifs
  · exact does_deref _ _
  · rfl

theorem reads_readContentId (hhas : HasEntries h₀ sfo ps slots es h)
    (titleName escapedTitleName : Bytes) :
    Reads (readContentId url packageType info sfo titleName escapedTitleName) h
      (readContentIdAt url packageType info es titleName escapedTitleName).value := by
  obtain ⟨found,hdoes,hfound⟩ := does_sfoFindEntry hhas (bytes "CONTENT_ID")
  refine Does.reads hdoes ?_
  unfold readContentIdAt
  generalize InstallPieces.sfoFindEntry es (bytes "CONTENT_ID") = entry at hfound
  cases hfound with
  | none => exact does_pure _ _
  | @entry s e hs =>
    refine Does.reads (does_loadEntryFields hs.entry) ?_
    dsimp only
    split_ifs
    · exact does_pure _ _
    · exact Does.reads (does_deref _ _) ((reads_copyString hs _).bind fun _ => does_pure _ _)

/-- Over the blocks of an object, the task is read as it is from the entries themselves. -/
theorem reads_readTask (hhas : HasEntries h₀ sfo ps slots es h) :
    Reads (readTask sdk url packageType info langId sfo) h
      (readTaskAt sdk url packageType info langId es).value := by
  obtain ⟨found,hdoes,hfound⟩ := does_findTitle hhas langId
  refine Does.reads hdoes ?_
  unfold readTaskAt
  generalize InstallPieces.findTitle es langId = title at hfound
  cases hfound with
  | none => exact does_pure _ _
  | @entry s e key hs =>
    refine Does.reads (does_loadEntryFields hs.entry) ?_
    dsimp only
    split_ifs
    · exact does_pure _ _
    · refine Does.reads (does_deref _ _) ((reads_copyString hs _).bind fun titleName => ?_)
      dsimp only
      cases httpEscapeJsonString sdk (256*2+1) titleName with
      | none => exact does_pure _ _
      | some escaped => exact reads_readContentId hhas titleName escaped

end Task

section Package

variable (sdk : TextSdk) (url packageType : Bytes) (info : PackageInfo) (langId : ℤ)
  (room : ℕ → Bool) (file : SfoFile) (calls : ℕ)

/-- Which allocations of the load succeed when `calls` have been made before the object's. -/
def loadRoom : ℕ → Bool := fun k => room (calls+2+k)

/-- What is to be described, if the object is in memory and its file as well. -/
def loadedFile : Option Bytes := if room calls then file.answer (room (calls+1)) else none

/-- How the description of a package ends, by the entries alone; it may leave the file or the
value of an entry, and then has no result. -/
def described : Option (Except Bytes Task) :=
  if room calls then
    match file.answer (room (calls+1)) with
    | none => some (.error
        (quoted (bytes "Unable to load system file object for package ") url (bytes ".")))
    | some data =>
      match (Sfo.sfoLoadFromMemory data (loadRoom room calls)).outcome with
      | .ok es => (readTaskAt sdk url packageType info langId es).value
      | .failed => some (.error
          (quoted (bytes "Unable to load system file object for package ") url (bytes ".")))
      | .fault => none
  else some (.error
    (quoted (bytes "Unable to allocate system file object for package ") url (bytes ".")))

/-- A load that fails loses three blocks for every entry that it has loaded before. -/
def blocksLost : ℕ :=
  match loadedFile room file calls with
  | none => 0
  | some data =>
    match (Sfo.sfoLoadFromMemory data (loadRoom room calls)).outcome with
    | .failed => 3*entriesBefore data (loadRoom room calls)
    | _ => 0

variable {sdk url packageType info langId room file}

/-- The object is freed on every path with the entries it has, each block once and none after it
is gone.  The blocks of the entries that a failing load has appended stay behind. -/
theorem describePackage_frees (h : Heap Content) :
    match described sdk url packageType info langId room file h.calls with
    | some r => ∃ h' ps,
        Does (describePackage sdk url packageType info langId room file) h r h' ∧
        Extends h ps h' ∧ ps.length = blocksLost room file h.calls
    | none => Faults (describePackage sdk url packageType info langId room file) h := by
  unfold described blocksLost loadedFile
  cases hroom : room h.calls with
  | false =>
    exact ⟨_,[],(does_malloc_full hroom _ _).bind (does_pure _ _),(Extends.refl h).skip,rfl⟩
  | true =>
    have he := (Extends.refl h).add (.sfo none) none
    have hsfo : (h.add (.sfo none) none).payload h.calls = some (.sfo none) :=
      Heap.payload_add_self
    have halloc := does_malloc hroom (Content.sfo none) none
    simp only [if_true]
    cases hfile : file.answer (room (h.calls+1)) with
    | none =>
      obtain ⟨h1,hload,hlost⟩ := does_sfoLoadFromFile_none he hsfo hfile
      obtain ⟨h2,hfree,hleft⟩ := hlost.sfoFree
      exact ⟨h2,[],halloc.bind (hload.bind (hfree.bind (does_pure _ _))),hleft,rfl⟩
    | some data =>
      have hload : Refines (Sfo.sfoLoadFromMemory data (loadRoom room h.calls)) _ _ _ _ :=
        refines_sfoLoadFromFile he hsfo hfile fun _ => rfl
      unfold Refines at hload
      dsimp only
      cases hout : (Sfo.sfoLoadFromMemory data (loadRoom room h.calls)).outcome with
      | fault =>
        rw [hout] at hload
        exact halloc.faults (hload.bind _)
      | failed =>
        rw [hout] at hload
        obtain ⟨status,h1,hload,rfl,slots,hlost,hcount⟩ := hload
        obtain ⟨h2,hfree,hleft⟩ := hlost.sfoFree
        exact ⟨h2,owned slots,halloc.bind (hload.bind (hfree.bind (does_pure _ _))),hleft,by
          rw [length_owned,hcount]⟩
      | ok es =>
        rw [hout] at hload
        obtain ⟨status,h1,hload,rfl,slots,hhas⟩ := hload
        have hread : Reads (readTask sdk url packageType info langId h.calls) h1
            (readTaskAt sdk url packageType info langId es).value := reads_readTask hhas
        dsimp only
        cases htask : (readTaskAt sdk url packageType info langId es).value with
        | none =>
          rw [htask] at hread
          exact halloc.faults (hload.faults (Faults.bind hread _))
        | some task =>
          rw [htask] at hread
          obtain ⟨h2,hfree,hleft⟩ := does_sfoFree hhas
          exact ⟨h2,[],halloc.bind (hload.bind (Does.bind hread (hfree.bind (does_pure _ _)))),
            hleft,rfl⟩

/-- Of two entries the second finds no room, and the blocks of the first are lost. -/
example : blocksLost (fun k => k ≠ 5) ⟨some 0x74,some sampleSfo⟩ 0 = 3 := by decide +kernel

/-- Behind a package that has been inspected, `install_pieces` goes on with what is described. -/
theorem prepareTask_described {calls : InstallCalls} {stream : StreamId} {urls : List Bytes}
    {sslVerify : HttpState.SslVerifyMode} {history : List ServerCalls.ServerEvent} {n : ℕ}
    {r : Except Bytes Task}
    (hsetup : Programs.Program.Ends (pkgSetupPrerequisites sslVerify (tempPaths stream) urls)
      history (.ok info))
    (htype : InstallPieces.packageType info.contentType = some packageType)
    (hsfo : calls.sfoAllocated = room n) (hentries : calls.sfoEntryAllocated = loadRoom room n)
    (hr : described calls.text (urls.headD []) packageType info langId room file n = some r) :
    Programs.Program.Ends (prepareTask calls stream urls sslVerify langId)
      (history++if room n then [⟨.readFile (tempPaths stream).paramSfo,file.answer (room (n+1))⟩]
        else []) r := by
  refine Programs.Program.ends_caught_bind.mpr ⟨history,_,.ok info,rfl,hsetup,?_⟩
  dsimp only
  rw [htype]
  dsimp only
  rw [hsfo,hentries]
  unfold described at hr
  cases hroom : room n with
  | false =>
    simp only [hroom,Bool.false_eq_true,if_false,Option.some.injEq] at hr
    exact Programs.Program.ends_fail.mpr ⟨rfl,hr.symm⟩
  | true =>
    simp only [hroom,if_true] at hr ⊢
    refine Programs.Program.ends_perform_bind.mpr ⟨_,[],rfl,?_⟩
    cases hfile : file.answer (room (n+1)) with
    | none =>
      simp only [hfile,Option.some.injEq] at hr
      exact Programs.Program.ends_fail.mpr ⟨rfl,hr.symm⟩
    | some data =>
      simp only [hfile] at hr
      change Programs.Program.Ends (Programs.Program.bind (Programs.Program.bind
        (.done (some data)) _) _) [] r
      simp only [Programs.Program.bind]
      cases hout : (Sfo.sfoLoadFromMemory data (loadRoom room n)).outcome with
      | fault =>
        rw [hout] at hr
        cases hr
      | failed =>
        simp only [hout,Option.some.injEq] at hr
        exact Programs.Program.ends_fail.mpr ⟨rfl,hr.symm⟩
      | ok es =>
        simp only [hout] at hr
        simp only [Programs.Program.pure_eq,Programs.Program.bind,readTask_of_value hr]
        exact .refl _

end Package

end SfoMemory
end RemotePkgInstaller
