import RemotePkgInstaller.InstallPieces
import RemotePkgInstaller.LittleEndian

/-! `sfo.c`: a system file object laid out as a file is read back, entry by entry. -/
namespace RemotePkgInstaller
namespace SfoImages

open BufferAccess BufferAccess.Access InstallPieces Sfo

section Loader

variable (data : Bytes) (alloc : ℕ → Bool)

/-- The count of the entries and where the key table and the value table start. -/
def loadTables : Access (ℕ × ℕ × ℕ) := do
  check (sizeofSfoHeader ≤ data.length)
  let magic ← readBytes data 0x00 4
  check (magic = sfoMagic)
  let entryCount ← field data 0x10 4
  check (entryOffset entryCount ≤ data.length)
  let keyTable ← field data 0x08 4
  let valueTable ← field data 0x0c 4
  pure (entryCount,keyTable,valueTable)

/-- The loop with the list it appends to.  If a round fails, the list is of no use. -/
def appendEntries (keyTable valueTable : ℕ) :
    ℕ → ℕ → List SfoEntry → Access (Option (List SfoEntry))
  | 0,_,entries => pure (some entries)
  | count+1,i,entries => do
    let entry ← attempt (loadEntry data keyTable valueTable alloc i)
    match entry with
    | none => pure none
    | some entry => appendEntries keyTable valueTable count (i+1) (entries++[entry])

/-- `sfo_load_from_memory` on an object with these entries: the status and the entries that
the object then has. -/
def loadObject (sfo : List SfoEntry) : Access (Bool × List SfoEntry) := do
  let tables ← attempt (loadTables data)
  match tables with
  | none => pure (false,sfo)
  | some (entryCount,keyTable,valueTable) => do
    let loaded ← appendEntries data alloc keyTable valueTable entryCount 0 []
    match loaded with
    | none => pure (false,sfo)
    | some entries => pure (true,entries)

theorem appendEntries_outcome (keyTable valueTable count i : ℕ) (entries : List SfoEntry) :
    (appendEntries data alloc keyTable valueTable count i entries).outcome =
      match (loadEntries data keyTable valueTable alloc count i).outcome with
      | .ok loaded => .ok (some (entries++loaded))
      | .failed => .ok none
      | .fault => .fault := by
  induction count generalizing i entries with
  | zero => simp [appendEntries,loadEntries,outcome_pure]
  | succ count ih =>
    rw [appendEntries,loadEntries,attempt_bind_outcome,bind_outcome]
    cases (loadEntry data keyTable valueTable alloc i).outcome with
    | ok entry =>
      simp only [ih,Outcome.andThen,bind_outcome,outcome_pure]
      cases (loadEntries data keyTable valueTable alloc count (i+1)).outcome <;> simp
    | failed => rfl
    | fault => rfl

theorem sfoLoadFromMemory_outcome :
    (sfoLoadFromMemory data alloc).outcome = (loadTables data).outcome.andThen fun tables =>
      (loadEntries data tables.2.1 tables.2.2 alloc tables.1 0).outcome := by
  simp only [sfoLoadFromMemory,loadTables,bind_outcome,outcome_andThen_assoc]
  rfl

/-- The object gets the entries of a file that is loaded, and otherwise keeps its own. -/
theorem loadObject_outcome (sfo : List SfoEntry) :
    (loadObject data alloc sfo).outcome =
      match (sfoLoadFromMemory data alloc).outcome with
      | .ok entries => .ok (true,entries)
      | .failed => .ok (false,sfo)
      | .fault => .fault := by
  rw [loadObject,attempt_bind_outcome,sfoLoadFromMemory_outcome]
  cases (loadTables data).outcome with
  | ok tables =>
    simp only [bind_outcome,appendEntries_outcome,Outcome.andThen]
    cases (loadEntries data tables.2.1 tables.2.2 alloc tables.1 0).outcome <;> rfl
  | failed => rfl
  | fault => rfl

end Loader

section Images

/-- An entry, and where its key and its value stand in their tables. -/
structure Item where
  key : Bytes
  format : ℕ
  value : Bytes
  area : ℕ
  keyOffset : ℕ
  valueOffset : ℕ
  key_nonzero : (0 : UInt8) ∉ key
  format_lt : format < 256^2
  value_le : value.length ≤ area
  area_lt : area < 256^4
  keyOffset_lt : keyOffset < 256^2
  valueOffset_lt : valueOffset < 256^4

namespace Item

def tableEntry (e : Item) : Bytes :=
  leBytes 2 e.keyOffset++(leBytes 2 e.format++(leBytes 4 e.value.length++(leBytes 4 e.area++
    leBytes 4 e.valueOffset)))

/-- What the entry is in an object: the value is padded to its area. -/
def entry (e : Item) : SfoEntry :=
  ⟨e.key,e.value.length,e.area,e.value++List.replicate (e.area-e.value.length) 0,e.format⟩

@[simp] theorem tableEntry_length (e : Item) : e.tableEntry.length = sizeofSfoTableEntry := by
  simp [tableEntry,sizeofSfoTableEntry]

end Item

/-- A header, an entry table and whatever follows them. -/
structure Layout where
  version : Bytes
  keyTable : ℕ
  valueTable : ℕ
  items : List Item
  rest : Bytes
  version_length : version.length = 4
  keyTable_lt : keyTable < 256^4
  valueTable_lt : valueTable < 256^4
  count_lt : items.length < 256^4

namespace Layout

def header (l : Layout) : Bytes :=
  sfoMagic++(l.version++(leBytes 4 l.keyTable++(leBytes 4 l.valueTable++
    leBytes 4 l.items.length)))

def image (l : Layout) : Bytes := l.header++(l.items.flatMap Item.tableEntry++l.rest)

@[simp] theorem header_length (l : Layout) : l.header.length = sizeofSfoHeader := by
  simp [header,sfoMagic,l.version_length,sizeofSfoHeader]

end Layout

/-- Each key stands with its NUL, and each value, where the table says.  The tables may have
any order and any padding, and they may share bytes. -/
structure Image extends Layout where
  keys : ∀ e ∈ items,
    window toLayout.image (keyTable+e.keyOffset) (e.key.length+1) = e.key++[0]
  values : ∀ e ∈ items,
    window toLayout.image (valueTable+e.valueOffset) e.value.length = e.value

variable {l : Layout}

theorem table_length (items : List Item) :
    (items.flatMap Item.tableEntry).length = items.length*sizeofSfoTableEntry := by
  induction items with
  | nil => simp
  | cons e items ih =>
    rw [List.flatMap_cons,List.length_append,ih,e.tableEntry_length,List.length_cons,
      Nat.succ_mul,Nat.add_comm]

theorem entryOffset_le_image (l : Layout) : entryOffset l.items.length ≤ l.image.length := by
  rw [Layout.image,List.length_append,List.length_append,l.header_length,table_length,entryOffset]
  omega

/-- A field of a record that has these bytes before it. -/
theorem get_part {data p r t a c : Bytes} {start i n k : ℕ} (hdata : data = p++(r++t))
    (hp : p.length = start) (hr : r = a++(leBytes n k++c)) (ha : a.length = i) (hk : k < 256^n) :
    get data (start+i) n = k := by
  rw [Sfo.get,hdata,window_behind hp,hr,List.append_assoc,List.append_assoc,le_window_part ha hk]

theorem get_header {a c : Bytes} {i n k : ℕ} (hl : l.header = a++(leBytes n k++c))
    (ha : a.length = i) (hk : k < 256^n) : get l.image i n = k := by
  have hget : get l.image (0+i) n = k := get_part (p := []) rfl rfl hl ha hk
  rwa [Nat.zero_add] at hget

/-- The fields of the entry that has these before it. -/
theorem get_entry {before after : List Item} {e : Item} (hitems : l.items = before++e::after)
    {a c : Bytes} {i n k : ℕ} (he : e.tableEntry = a++(leBytes n k++c)) (ha : a.length = i)
    (hk : k < 256^n) :
    get l.image (entryOffset before.length+i) n = k := by
  have himage : l.image = (l.header++before.flatMap Item.tableEntry)++
      (e.tableEntry++(after.flatMap Item.tableEntry++l.rest)) := by
    rw [Layout.image,hitems,List.flatMap_append,List.flatMap_cons]
    simp only [List.append_assoc]
  have hbefore : (l.header++before.flatMap Item.tableEntry).length = entryOffset before.length := by
    rw [List.length_append,l.header_length,table_length,entryOffset]
  exact get_part himage hbefore he ha hk

/-- The loop's round for an entry of an image. -/
theorem loadEntry_image (f : Image) {before after : List Item} {e : Item}
    (hitems : f.items = before++e::after) :
    (loadEntry f.image f.keyTable f.valueTable (fun _ => true) before.length).outcome =
      .ok e.entry := by
  have hmem : e ∈ f.items := by simp [hitems]
  have hin : entryOffset before.length+0x10 ≤ f.image.length := by
    refine le_trans ?_ (entryOffset_le_image f.toLayout)
    rw [hitems,List.length_append,List.length_cons,entryOffset,entryOffset,sizeofSfoTableEntry]
    omega
  have hkeyOffset : get f.image (entryOffset before.length+0x00) 2 = e.keyOffset :=
    get_entry (a := []) hitems rfl rfl e.keyOffset_lt
  have hformat : get f.image (entryOffset before.length+0x02) 2 = e.format :=
    get_entry hitems rfl (leBytes_length 2 _) e.format_lt
  have hsize : get f.image (entryOffset before.length+0x04) 4 = e.value.length := by
    refine get_entry (a := leBytes 2 e.keyOffset++leBytes 2 e.format)
      (c := leBytes 4 e.area++leBytes 4 e.valueOffset) hitems ?_ (by simp)
      (lt_of_le_of_lt e.value_le e.area_lt)
    simp only [Item.tableEntry,List.append_assoc]
  have harea : get f.image (entryOffset before.length+0x08) 4 = e.area := by
    refine get_entry (a := leBytes 2 e.keyOffset++(leBytes 2 e.format++
      leBytes 4 e.value.length)) (c := leBytes 4 e.valueOffset) hitems ?_ (by simp) e.area_lt
    simp only [Item.tableEntry,List.append_assoc]
  have hvalueOffset : get f.image (entryOffset before.length+0x0c) 4 = e.valueOffset := by
    refine get_entry (a := leBytes 2 e.keyOffset++(leBytes 2 e.format++
      (leBytes 4 e.value.length++leBytes 4 e.area))) (c := []) hitems ?_ (by simp)
      e.valueOffset_lt
    simp only [Item.tableEntry,List.append_assoc,List.append_nil]
  have hkey := readString_of_window (f.keys e hmem) e.key_nonzero
  have hvalue := readBytes_of_window rfl (f.values e hmem)
  rw [loadEntry,check_bind_outcome rfl _,(inside_field_bind (by omega) _).2,
    (inside_field_bind (by omega) _).2,(inside_field_bind (by omega) _).2,hformat,hsize,harea,
    check_bind_outcome e.value_le _,loadKeyAndValue,(inside_field_bind (by omega) _).2,hkeyOffset,
    bind_outcome_of_ok hkey,check_bind_outcome rfl _,check_bind_outcome rfl _,
    (inside_field_bind (by omega) _).2,hvalueOffset,bind_outcome_of_ok hvalue]
  rfl

/-- The induction is on the rounds that are left. -/
theorem loadEntries_image (f : Image) {before after : List Item}
    (hitems : f.items = before++after) :
    (loadEntries f.image f.keyTable f.valueTable (fun _ => true) after.length
      before.length).outcome = .ok (after.map Item.entry) := by
  induction after generalizing before with
  | nil => rfl
  | cons e after ih =>
    have hrest := @ih (before++[e]) (by rw [hitems,List.append_assoc,List.singleton_append])
    rw [List.length_append,List.length_singleton] at hrest
    rw [List.length_cons,loadEntries,bind_outcome_of_ok (loadEntry_image f hitems),
      bind_outcome_of_ok hrest]
    rfl

theorem loadTables_image (l : Layout) :
    (loadTables l.image).outcome = .ok (l.items.length,l.keyTable,l.valueTable) := by
  have htable := entryOffset_le_image l
  have hheader : sizeofSfoHeader ≤ l.image.length := (Nat.le_add_right _ _).trans htable
  have hin : 0x14 ≤ l.image.length := hheader
  have hmagic : (readBytes l.image 0x00 4).outcome = .ok sfoMagic := readBytes_of_window rfl rfl
  have hkeyTable : get l.image 0x08 4 = l.keyTable := by
    refine get_header (a := sfoMagic++l.version)
      (c := leBytes 4 l.valueTable++leBytes 4 l.items.length) ?_ ?_ l.keyTable_lt
    · simp only [Layout.header,List.append_assoc]
    · simp [sfoMagic,l.version_length]
  have hvalueTable : get l.image 0x0c 4 = l.valueTable := by
    refine get_header (a := sfoMagic++(l.version++leBytes 4 l.keyTable))
      (c := leBytes 4 l.items.length) ?_ ?_ l.valueTable_lt
    · simp only [Layout.header,List.append_assoc]
    · simp [sfoMagic,l.version_length]
  have hcount : get l.image 0x10 4 = l.items.length := by
    refine get_header (a := sfoMagic++(l.version++(leBytes 4 l.keyTable++
      leBytes 4 l.valueTable))) (c := []) ?_ ?_ l.count_lt
    · simp only [Layout.header,List.append_assoc,List.append_nil]
    · simp [sfoMagic,l.version_length]
  rw [loadTables,check_bind_outcome hheader _,bind_outcome_of_ok hmagic,check_bind_outcome rfl _,
    (inside_field_bind (by omega) _).2,hcount,check_bind_outcome htable _,
    (inside_field_bind (by omega) _).2,(inside_field_bind (by omega) _).2,hkeyTable,hvalueTable]
  rfl

theorem sfoLoadFromMemory_image (f : Image) :
    (sfoLoadFromMemory f.image fun _ => true).outcome = .ok (f.items.map Item.entry) := by
  rw [sfoLoadFromMemory_outcome,loadTables_image]
  exact loadEntries_image f (List.nil_append _).symm

theorem sfoFindEntry_eq_some_iff {entries : List SfoEntry} {key : Bytes} {entry : SfoEntry} :
    sfoFindEntry entries key = some entry ↔ ∃ before after, entries = before++entry::after ∧
      entry.key = key ∧ ∀ e ∈ before, e.key ≠ key := by
  rw [sfoFindEntry,List.find?_eq_some_iff_append]
  simp only [decide_eq_true_eq,Bool.not_eq_true',decide_eq_false_iff_not]
  constructor
  · rintro ⟨hkey,before,after,heq,hbefore⟩
    exact ⟨before,after,heq,hkey,hbefore⟩
  · rintro ⟨before,after,heq,hkey,hbefore⟩
    exact ⟨hkey,before,after,heq,hbefore⟩

theorem sfoFindEntry_eq_none_iff {entries : List SfoEntry} {key : Bytes} :
    sfoFindEntry entries key = none ↔ ∀ e ∈ entries, e.key ≠ key := by
  simp [sfoFindEntry]

/-- An image is loaded as its entries in table order, the first entry with a key is found, and
a load that fails changes nothing. -/
theorem sfoLoadFromMemory_decodes :
    (∀ (f : Image) (sfo : List SfoEntry),
      (loadObject f.image (fun _ => true) sfo).outcome = .ok (true,f.items.map Item.entry)) ∧
    (∀ (entries : List SfoEntry) (key : Bytes),
      (∀ entry, sfoFindEntry entries key = some entry ↔
        ∃ before after, entries = before++entry::after ∧ entry.key = key ∧
          ∀ e ∈ before, e.key ≠ key) ∧
      (sfoFindEntry entries key = none ↔ ∀ e ∈ entries, e.key ≠ key)) ∧
    ∀ (data : Bytes) (alloc : ℕ → Bool) (sfo left : List SfoEntry),
      (loadObject data alloc sfo).outcome = .ok (false,left) → left = sfo := by
  refine ⟨fun f sfo => ?_,fun entries key => ⟨fun entry => sfoFindEntry_eq_some_iff,
    sfoFindEntry_eq_none_iff⟩,fun data alloc sfo left h => ?_⟩
  · rw [loadObject_outcome,sfoLoadFromMemory_image]
  · rw [loadObject_outcome] at h
    cases hload : (sfoLoadFromMemory data alloc).outcome with
    | ok entries =>
      rw [hload] at h
      cases h
    | failed =>
      rw [hload] at h
      cases h
      rfl
    | fault =>
      rw [hload] at h
      cases h

/-- Two titles share the same four bytes, and the value table comes before the key table. -/
def sampleImage : Image where
  version := [1,1,0,0]
  keyTable := 113
  valueTable := 68
  items := [⟨bytes "TITLE",0x204,bytes "Game",4,0,40,by decide,by decide,by decide,by decide,
      by decide,by decide⟩,
    ⟨bytes "TITLE_01",0x204,bytes "Game",5,6,40,by decide,by decide,by decide,by decide,
      by decide,by decide⟩,
    ⟨bytes "CONTENT_ID",0x204,bytes "EP1234-CUSA00001_00-0123456789ABCDEF"++[0],48,15,0,
      by decide,by decide,by decide,by decide,by decide,by decide⟩]
  rest := bytes "EP1234-CUSA00001_00-0123456789ABCDEF"++[0,0,0,0]++bytes "Game"++[0xff]++
    bytes "TITLE"++[0]++bytes "TITLE_01"++[0]++bytes "CONTENT_ID"++[0]
  version_length := rfl
  keyTable_lt := by decide
  valueTable_lt := by decide
  count_lt := by decide
  keys := by decide
  values := by decide

theorem sfoLoadFromMemory_decodes_example :
    (loadObject sampleImage.image (fun _ => true) []).outcome = .ok (true,
      [⟨bytes "TITLE",4,4,bytes "Game",0x204⟩,⟨bytes "TITLE_01",4,5,bytes "Game"++[0],0x204⟩,
        ⟨bytes "CONTENT_ID",37,48,
          bytes "EP1234-CUSA00001_00-0123456789ABCDEF"++List.replicate 12 0,0x204⟩]) :=
  sfoLoadFromMemory_decodes.1 sampleImage []

end Images

end SfoImages
end RemotePkgInstaller
