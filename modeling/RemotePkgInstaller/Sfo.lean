import RemotePkgInstaller.BufferAccess

/-! `sfo.c`: the system file object format, a header and a table of entries that
point into a key table and a value table. -/
namespace RemotePkgInstaller
namespace Sfo

open BufferAccess BufferAccess.Access

def sfoMagic : Bytes := [0x00,0x50,0x53,0x46]
def sizeofSfoHeader : ℕ := 0x14
def sizeofSfoTableEntry : ℕ := 0x10

structure SfoEntry where
  key : Bytes
  size : ℕ
  area : ℕ
  value : Bytes
  format : ℕ
  deriving DecidableEq

/-- A little-endian field; `LE16` and `LE32` change nothing on the console. -/
def field (data : Bytes) (offset size : ℕ) : Access ℕ := do
  let b ← readBytes data offset size
  pure (le b)

def check (c : Prop) [Decidable c] : Access Unit := if c then pure () else fail

/-- Where the entry at index `i` starts. -/
def entryOffset (i : ℕ) : ℕ := sizeofSfoHeader+i*sizeofSfoTableEntry

/-- The rest of a round: the key is measured before it is allocated. -/
def loadKeyAndValue (data : Bytes) (keyTable valueTable : ℕ) (alloc : ℕ → Bool)
    (i format size area : ℕ) : Access SfoEntry := do
  let keyOffset ← field data (entryOffset i+0x00) 2
  let key ← readString data (keyTable+keyOffset)
  check (alloc (3*i+1))
  check (alloc (3*i+2))
  let valueOffset ← field data (entryOffset i+0x0c) 4
  let value ← readBytes data (valueTable+valueOffset) size
  pure ⟨key,size,area,value++List.replicate (area-size) 0,format⟩

/-- One round of the loop.  `alloc` tells whether the allocations of the entry, its
key and its value succeed. -/
def loadEntry (data : Bytes) (keyTable valueTable : ℕ) (alloc : ℕ → Bool) (i : ℕ) :
    Access SfoEntry := do
  check (alloc (3*i))
  let format ← field data (entryOffset i+0x02) 2
  let size ← field data (entryOffset i+0x04) 4
  let area ← field data (entryOffset i+0x08) 4
  check (size ≤ area)
  loadKeyAndValue data keyTable valueTable alloc i format size area

/-- The entries from index `i` on, `count` of them. -/
def loadEntries (data : Bytes) (keyTable valueTable : ℕ) (alloc : ℕ → Bool) :
    ℕ → ℕ → Access (List SfoEntry)
  | 0,_ => pure []
  | count+1,i => do
    let e ← loadEntry data keyTable valueTable alloc i
    let es ← loadEntries data keyTable valueTable alloc count (i+1)
    pure (e::es)

/-- The entries that replace those of the object; on failure it keeps its own. -/
def sfoLoadFromMemory (data : Bytes) (alloc : ℕ → Bool) : Access (List SfoEntry) := do
  check (sizeofSfoHeader ≤ data.length)
  let magic ← readBytes data 0x00 4
  check (magic = sfoMagic)
  let entryCount ← field data 0x10 4
  check (entryOffset entryCount ≤ data.length)
  let keyTable ← field data 0x08 4
  let valueTable ← field data 0x0c 4
  loadEntries data keyTable valueTable alloc entryCount 0

section Bounds

/-- The number stored in a field of the buffer. -/
def get (data : Bytes) (offset size : ℕ) : ℕ := le (window data offset size)

def keyStart (data : Bytes) (i : ℕ) : ℕ := get data 0x08 4+get data (entryOffset i+0x00) 2
def valueStart (data : Bytes) (i : ℕ) : ℕ := get data 0x0c 4+get data (entryOffset i+0x0c) 4
def entrySize (data : Bytes) (i : ℕ) : ℕ := get data (entryOffset i+0x04) 4
def entryArea (data : Bytes) (i : ℕ) : ℕ := get data (entryOffset i+0x08) 4

/-- The header or the size of the entry table is refused. -/
def Refused (data : Bytes) : Prop :=
  data.length < sizeofSfoHeader ∨ window data 0x00 4 ≠ sfoMagic ∨
    data.length < entryOffset (get data 0x10 4)

/-- The key ends inside the file, and so does the value, unless it is empty. -/
def EntryInside (data : Bytes) (i : ℕ) : Prop :=
  0 ∈ data.drop (keyStart data i) ∧
    (valueStart data i+entrySize data i ≤ data.length ∨ entrySize data i = 0)

variable {data : Bytes} {n : ℕ}

theorem field_of_le {offset size : ℕ} (h : offset+size ≤ data.length) :
    (field data offset size).outcome = .ok (get data offset size) ∧
      Inside data.length (field data offset size) := by
  have hr : (readBytes data offset size).outcome = .ok (window data offset size) := by
    rw [readBytes_of_le h]
  refine ⟨(bind_outcome_of_ok hr _).trans rfl,inside_bind ?_ fun _ _ => inside_pure _ _⟩
  exact inside_readBytes_iff.mpr (Or.inl h)

theorem check_of_true {c : Prop} [Decidable c] (h : c) : (check c).outcome = .ok () := by
  simp [check,h,outcome_pure]

theorem check_ok {c : Prop} [Decidable c] {u : Unit} (h : (check c).outcome = .ok u) : c := by
  by_contra hc
  simp [check,hc,fail] at h

theorem inside_check (c : Prop) [Decidable c] : Inside n (check c) := by
  unfold check
  split_ifs <;> simp

/-- Reading a field that lies in the buffer continues with its number. -/
theorem inside_field_bind {offset size : ℕ} (h : offset+size ≤ data.length) {β : Type}
    (f : ℕ → Access β) :
    (Inside data.length (field data offset size >>= f) ↔
      Inside data.length (f (get data offset size))) ∧
    (field data offset size >>= f).outcome = (f (get data offset size)).outcome := by
  obtain ⟨hok,hin⟩ := field_of_le h
  refine ⟨?_,bind_outcome_of_ok hok f⟩
  rw [inside_bind_of_ok hok]
  exact and_iff_right hin

theorem check_bind_outcome {c : Prop} [Decidable c] (h : c) {β : Type} (f : Unit → Access β) :
    (check c >>= f).outcome = (f ()).outcome := bind_outcome_of_ok (check_of_true h) f

theorem inside_check_bind {c : Prop} [Decidable c] (h : c) {β : Type} (f : Unit → Access β) :
    Inside n (check c >>= f) ↔ Inside n (f ()) := by
  rw [inside_bind_of_ok (check_of_true h)]
  exact and_iff_right (inside_check c)

theorem entryOffset_succ (i : ℕ) : entryOffset (i+1) = entryOffset i+sizeofSfoTableEntry := by
  simp [entryOffset,Nat.succ_mul,Nat.add_assoc]

theorem inside_check_andThen {c : Prop} [Decidable c] {β : Type} {f : Unit → Access β}
    (h : c → Inside n (f ())) : Inside n (check c >>= f) :=
  inside_bind (inside_check c) fun _ hu => h (check_ok hu)

section Entries

variable {i : ℕ} (hi : entryOffset (i+1) ≤ data.length)

include hi

/-- An entry whose key and value end in the file is loaded without leaving it. -/
theorem inside_loadKeyAndValue (h : EntryInside data i) (alloc : ℕ → Bool) (format area : ℕ) :
    Inside data.length (loadKeyAndValue data (get data 0x08 4) (get data 0x0c 4) alloc i format
      (entrySize data i) area) := by
  rw [entryOffset_succ,sizeofSfoTableEntry] at hi
  rw [loadKeyAndValue,(inside_field_bind (by omega) _).1]
  refine inside_bind (inside_readString_iff.mpr h.1) fun key _ => ?_
  refine inside_check_andThen fun _ => inside_check_andThen fun _ => ?_
  rw [(inside_field_bind (by omega) _).1]
  exact inside_bind (inside_readBytes_iff.mpr h.2) fun _ _ => inside_pure _ _

/-- With memory for everything, the file is left unless the key and the value end in it. -/
theorem entryInside_of_inside {alloc : ℕ → Bool} (halloc : ∀ k, alloc k = true)
    {format area : ℕ}
    (h : Inside data.length (loadKeyAndValue data (get data 0x08 4) (get data 0x0c 4) alloc i
      format (entrySize data i) area)) :
    EntryInside data i ∧ ∃ e, (loadKeyAndValue data (get data 0x08 4) (get data 0x0c 4) alloc i
      format (entrySize data i) area).outcome = .ok e := by
  rw [entryOffset_succ,sizeofSfoTableEntry] at hi
  rw [loadKeyAndValue,(inside_field_bind (by omega) _).1] at h
  have hkey := inside_readString_iff.mp (inside_bind_left h)
  have hok : (readString data (get data 0x08 4+get data (entryOffset i+0x00) 2)).outcome =
      .ok (cstr (data.drop (keyStart data i))) := by
    rw [readString,if_pos hkey]
    rfl
  rw [inside_bind_of_ok hok,inside_check_bind (halloc (3*i+1)) _,
    inside_check_bind (halloc (3*i+2)) _,
    (inside_field_bind (by omega) _).1] at h
  have hval := inside_readBytes_iff.mp (inside_bind_left h.2)
  have hread : (readBytes data (get data 0x0c 4+get data (entryOffset i+0x0c) 4)
      (entrySize data i)).outcome = .ok (window data (valueStart data i) (entrySize data i)) := by
    rw [readBytes,if_pos hval]
    rfl
  refine ⟨⟨hkey,hval⟩,?_⟩
  rw [loadKeyAndValue,(inside_field_bind (by omega) _).2,bind_outcome_of_ok hok,
    check_bind_outcome (halloc (3*i+1)) _,check_bind_outcome (halloc (3*i+2)) _,
    (inside_field_bind (by omega) _).2,bind_outcome_of_ok hread]
  exact ⟨_,rfl⟩

theorem inside_loadEntry (alloc : ℕ → Bool)
    (h : entrySize data i ≤ entryArea data i → EntryInside data i) :
    Inside data.length (loadEntry data (get data 0x08 4) (get data 0x0c 4) alloc i) := by
  have hi' := hi
  rw [entryOffset_succ,sizeofSfoTableEntry] at hi'
  refine inside_check_andThen fun _ => ?_
  rw [(inside_field_bind (by omega) _).1,(inside_field_bind (by omega) _).1,
    (inside_field_bind (by omega) _).1]
  exact inside_check_andThen fun hle => inside_loadKeyAndValue hi (h hle) alloc _ _

theorem entrySize_le_of_loadEntry {alloc : ℕ → Bool} {e : SfoEntry}
    (h : (loadEntry data (get data 0x08 4) (get data 0x0c 4) alloc i).outcome = .ok e) :
    entrySize data i ≤ entryArea data i := by
  rw [entryOffset_succ,sizeofSfoTableEntry] at hi
  obtain ⟨_,_,h⟩ := ok_of_bind_ok h
  rw [(inside_field_bind (by omega) _).2,(inside_field_bind (by omega) _).2,
    (inside_field_bind (by omega) _).2] at h
  obtain ⟨_,hc,_⟩ := ok_of_bind_ok h
  exact check_ok hc

theorem loadEntry_exact {alloc : ℕ → Bool} (halloc : ∀ k, alloc k = true)
    (hle : entrySize data i ≤ entryArea data i)
    (h : Inside data.length (loadEntry data (get data 0x08 4) (get data 0x0c 4) alloc i)) :
    EntryInside data i ∧
      ∃ e, (loadEntry data (get data 0x08 4) (get data 0x0c 4) alloc i).outcome = .ok e := by
  have hi' := hi
  rw [entryOffset_succ,sizeofSfoTableEntry] at hi'
  have hle' : get data (entryOffset i+0x04) 4 ≤ get data (entryOffset i+0x08) 4 := hle
  rw [loadEntry,inside_check_bind (halloc (3*i)) _,(inside_field_bind (by omega) _).1,
    (inside_field_bind (by omega) _).1,(inside_field_bind (by omega) _).1,
    inside_check_bind hle' _] at h
  rw [loadEntry,check_bind_outcome (halloc (3*i)) _,(inside_field_bind (by omega) _).2,
    (inside_field_bind (by omega) _).2,(inside_field_bind (by omega) _).2,
    check_bind_outcome hle' _]
  exact entryInside_of_inside hi halloc h

end Entries

/-- The loop reads an entry only if the sizes of all before it have passed. -/
def TableInside (data : Bytes) (i k : ℕ) : Prop :=
  ∀ m, i ≤ m → m < k → (∀ j, i ≤ j → j ≤ m → entrySize data j ≤ entryArea data j) →
    EntryInside data m

theorem inside_loadEntries {k i : ℕ} (hi : entryOffset (i+k) ≤ data.length)
    (h : TableInside data i (i+k)) (alloc : ℕ → Bool) :
    Inside data.length (loadEntries data (get data 0x08 4) (get data 0x0c 4) alloc k i) := by
  induction k generalizing i with
  | zero => exact inside_pure _ _
  | succ k ih =>
    have hnext : entryOffset (i+1) ≤ data.length := by
      have : entryOffset (i+1) ≤ entryOffset (i+(k+1)) := by
        simp only [entryOffset]
        exact Nat.add_le_add_left (Nat.mul_le_mul_right _ (by omega)) _
      omega
    refine inside_bind (inside_loadEntry hnext alloc fun hle => ?_) fun e he => ?_
    · refine h i le_rfl (by omega) fun j h1 h2 => ?_
      rwa [show j = i by omega]
    · have hle := entrySize_le_of_loadEntry hnext he
      refine inside_bind (ih (by rwa [show i+1+k = i+(k+1) by omega]) ?_) fun _ _ => inside_pure _ _
      intro m h1 h2 hm
      refine h m (by omega) (by omega) fun j hj1 hj2 => ?_
      rcases Nat.lt_or_ge i j with hij | hij
      · exact hm j hij hj2
      · rwa [show j = i by omega]

theorem tableInside_of_inside {k i : ℕ} (hi : entryOffset (i+k) ≤ data.length)
    {alloc : ℕ → Bool} (halloc : ∀ k, alloc k = true)
    (h : Inside data.length (loadEntries data (get data 0x08 4) (get data 0x0c 4) alloc k i)) :
    TableInside data i (i+k) := by
  induction k generalizing i with
  | zero => exact fun m h1 h2 => by omega
  | succ k ih =>
    have hnext : entryOffset (i+1) ≤ data.length := by
      have : entryOffset (i+1) ≤ entryOffset (i+(k+1)) := by
        simp only [entryOffset]
        exact Nat.add_le_add_left (Nat.mul_le_mul_right _ (by omega)) _
      omega
    intro m h1 h2 hm
    have hle := hm i le_rfl h1
    obtain ⟨hentry,e,he⟩ := loadEntry_exact hnext halloc hle (inside_bind_left h)
    rcases Nat.lt_or_ge i m with him | him
    · have hrest := ((inside_bind_of_ok he _).mp h).2
      refine ih (by rwa [show i+1+k = i+(k+1) by omega]) (inside_bind_left hrest) m him (by omega) ?_
      exact fun j hj1 hj2 => hm j (by omega) hj2
    · rwa [show m = i by omega]

/-- The loader stays inside the file, whatever memory there is, exactly when it refuses
the header or the entry table, or each entry up to the first one larger than its area
has its key and its value inside the file. -/
theorem sfoLoadFromMemory_inside_iff (data : Bytes) :
    (∀ alloc, Inside data.length (sfoLoadFromMemory data alloc)) ↔
      Refused data ∨ TableInside data 0 (get data 0x10 4) := by
  simp only [sfoLoadFromMemory,Refused]
  by_cases hlen : sizeofSfoHeader ≤ data.length
  · have hlen' := hlen
    rw [sizeofSfoHeader] at hlen'
    have hread : (readBytes data 0x00 4).outcome = .ok (window data 0x00 4) := by
      rw [readBytes_of_le (by omega)]
    have hin : Inside data.length (readBytes data 0x00 4) :=
      inside_readBytes_iff.mpr (Or.inl (by omega))
    by_cases hmagic : window data 0x00 4 = sfoMagic
    · by_cases htable : entryOffset (get data 0x10 4) ≤ data.length
      · have hstep : ∀ alloc, Inside data.length (sfoLoadFromMemory data alloc) ↔
            Inside data.length (loadEntries data (get data 0x08 4) (get data 0x0c 4) alloc
              (get data 0x10 4) 0) := by
          intro alloc
          rw [sfoLoadFromMemory,inside_check_bind hlen _,inside_bind_of_ok hread,
            and_iff_right hin,inside_check_bind hmagic _,
            (inside_field_bind (by omega) _).1,inside_check_bind htable _,
            (inside_field_bind (by omega) _).1,(inside_field_bind (by omega) _).1]
        have hz : entryOffset (0+get data 0x10 4) ≤ data.length := by rwa [Nat.zero_add]
        constructor
        · intro h
          have := tableInside_of_inside hz (fun _ => rfl) ((hstep fun _ => true).mp (h _))
          rw [Nat.zero_add] at this
          exact Or.inr this
        · intro h alloc
          have htab : TableInside data 0 (0+get data 0x10 4) := by
            rw [Nat.zero_add]
            rcases h with (h | h | h) | h
            · omega
            · exact absurd hmagic h
            · omega
            · exact h
          exact (hstep alloc).mpr (inside_loadEntries hz htab alloc)
      · refine iff_of_true (fun alloc => ?_) (Or.inl (Or.inr (Or.inr (not_le.mp htable))))
        refine inside_check_andThen fun _ => inside_bind hin fun _ _ =>
          inside_check_andThen fun _ => ?_
        rw [(inside_field_bind (by omega) _).1]
        exact inside_check_andThen fun h => absurd h htable
    · refine iff_of_true (fun alloc => ?_) (Or.inl (Or.inr (Or.inl hmagic)))
      refine inside_check_andThen fun _ => inside_bind hin fun m hm => ?_
      rw [hread] at hm
      injection hm with hm
      exact inside_check_andThen fun h => absurd (hm ▸ h) hmagic
  · refine iff_of_true (fun alloc => ?_) (Or.inl (Or.inl (not_le.mp hlen)))
    exact inside_check_andThen fun h => absurd h hlen

/-- A file of 36 bytes whose only key starts right behind it. -/
def keyPastEnd : Bytes :=
  sfoMagic++[0,0,0,0]++[0x24,0,0,0]++[0x24,0,0,0]++[1,0,0,0]++List.replicate 16 0

theorem sfoLoadFromMemory_reads_past_end :
    keyPastEnd.length = 36 ∧
      36 ∈ (sfoLoadFromMemory keyPastEnd fun _ => true).examined ∧
      ¬ ∀ alloc, Inside keyPastEnd.length (sfoLoadFromMemory keyPastEnd alloc) := by
  have hmem : 36 ∈ (sfoLoadFromMemory keyPastEnd fun _ => true).examined := by decide +kernel
  exact ⟨by decide,hmem,fun h => absurd (h _ 36 hmem) (by decide)⟩

end Bounds

end Sfo
end RemotePkgInstaller
