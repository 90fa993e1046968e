import RemotePkgInstaller.SfoImages
import RemotePkgInstaller.StringMatchers

/-! `server.c`: how the title and the content id are copied out of their entries, byte by
byte. -/
namespace RemotePkgInstaller
namespace SfoValues

open BufferAccess BufferAccess.Access HttpText InstallPieces Looks Looks.Looking PkgSetup Requests
  Sfo SfoImages StringMatchers

section Copies

variable {ι : Type} {mem : ι → Bytes}

/-- `strlcpy` keeps the bytes that fit, and goes on to the end of the source. -/
def strlcpyLoop (src : Pointer ι) (size : ℕ) : ℕ → ℕ → Looking mem Bytes
  | 0,_ => pure []
  | fuel+1,i => do
    let c ← src.get i
    if c = 0 then pure []
    else do
      let s ← strlcpyLoop src size fuel (i+1)
      pure (if i+1 < size then c::s else s)

def strlcpyFrom (src : Pointer ι) (size : ℕ) : Looking mem Bytes :=
  strlcpyLoop src size (src.rounds mem) 0

variable {src : Pointer ι} {size fuel i : ℕ} {s : Bytes}

/-- The induction is on the string from index `i` on. -/
theorem strlcpyLoop_of_spells (h : Spells mem src i s) (hfuel : s.length < fuel) :
    (strlcpyLoop src size fuel i : Looking mem Bytes).value = some (s.take (size-1-i)) := by
  induction s generalizing fuel i with
  | nil =>
    obtain ⟨fuel,rfl⟩ := Nat.exists_eq_succ_of_ne_zero (Nat.ne_of_gt hfuel)
    rw [strlcpyLoop,value_bind,Pointer.get,value_look,h.get_nil,Option.bind_some,if_pos rfl,
      value_pure,List.take_nil]
  | cons c s ih =>
    obtain ⟨fuel,rfl⟩ := Nat.exists_eq_succ_of_ne_zero (Nat.ne_zero_of_lt hfuel)
    rw [List.length_cons] at hfuel
    rw [strlcpyLoop,value_bind,Pointer.get,value_look,h.get_cons,Option.bind_some,
      if_neg h.head_ne,value_bind,ih h.tail (by omega),Option.bind_some,value_pure]
    split_ifs with hroom
    · rw [show size-1-i = size-1-(i+1)+1 by omega,List.take_succ_cons]
    · rw [show size-1-i = 0 by omega,show size-1-(i+1) = 0 by omega,List.take_zero,List.take_zero]

/-- Without a terminator the loop leaves the buffer.  The induction is on the bytes left. -/
theorem strlcpyLoop_of_runsOut (h : RunsOut mem src i s) (hfuel : s.length < fuel) :
    (strlcpyLoop src size fuel i : Looking mem Bytes).value = none := by
  induction s generalizing fuel i with
  | nil =>
    obtain ⟨fuel,rfl⟩ := Nat.exists_eq_succ_of_ne_zero (Nat.ne_of_gt hfuel)
    rw [strlcpyLoop,value_bind,Pointer.get,value_look,h.get_nil,Option.bind_none]
  | cons c s ih =>
    obtain ⟨fuel,rfl⟩ := Nat.exists_eq_succ_of_ne_zero (Nat.ne_zero_of_lt hfuel)
    rw [List.length_cons] at hfuel
    rw [strlcpyLoop,value_bind,Pointer.get,value_look,h.get_cons,Option.bind_some,
      if_neg h.head_ne,value_bind,ih h.tail (by omega),Option.bind_none]

/-- A copy from the start of a buffer succeeds exactly if there is a terminator in it. -/
theorem strlcpyFrom_value (b : ι) (size : ℕ) :
    (strlcpyFrom ⟨b,0⟩ size : Looking mem Bytes).value =
      if 0 ∈ mem b then some (strlcpy (cstr (mem b)) size) else none := by
  split_ifs with h
  · have hspells : Spells mem ⟨b,0⟩ 0 (text mem ⟨b,0⟩) := Terminated.spells h
    exact strlcpyLoop_of_spells hspells hspells.lt_rounds
  · have hout : RunsOut mem ⟨b,0⟩ 0 (mem b) := ⟨rfl,h⟩
    exact strlcpyLoop_of_runsOut hout hout.lt_rounds

theorem strlcpyLoop_examines (src : Pointer ι) (size fuel i : ℕ) :
    Examines (fun e => e.1 = src.buffer) (strlcpyLoop src size fuel i : Looking mem Bytes) := by
  induction fuel generalizing i with
  | zero => exact examines_pure _
  | succ fuel ih =>
    refine Examines.bind (examines_look rfl) fun c _ => ?_
    by_cases hc : c = 0
    · rw [if_pos hc]
      exact examines_pure _
    · rw [if_neg hc]
      exact (ih (i+1)).bind fun s _ => examines_pure _

end Copies

section Entries

/-- What the loader makes of an entry: its bytes, and zeros up to its area. -/
structure Filled (e : SfoEntry) : Prop where
  size_le : e.size ≤ e.area
  value : ∃ s : Bytes, s.length = e.size ∧ e.value = s++List.replicate (e.area-e.size) 0

theorem filled_of_loadEntry {data : Bytes} {keyTable valueTable i : ℕ} {alloc : ℕ → Bool}
    {e : SfoEntry} (h : (loadEntry data keyTable valueTable alloc i).outcome = .ok e) :
    Filled e := by
  obtain ⟨_,_,h⟩ := ok_of_bind_ok h
  obtain ⟨format,_,h⟩ := ok_of_bind_ok h
  obtain ⟨size,_,h⟩ := ok_of_bind_ok h
  obtain ⟨area,_,h⟩ := ok_of_bind_ok h
  obtain ⟨_,hsize,h⟩ := ok_of_bind_ok h
  obtain ⟨keyOffset,_,h⟩ := ok_of_bind_ok h
  obtain ⟨key,_,h⟩ := ok_of_bind_ok h
  obtain ⟨_,_,h⟩ := ok_of_bind_ok h
  obtain ⟨_,_,h⟩ := ok_of_bind_ok h
  obtain ⟨valueOffset,_,h⟩ := ok_of_bind_ok h
  obtain ⟨value,hvalue,h⟩ := ok_of_bind_ok h
  cases h
  exact ⟨check_ok hsize,value,length_of_readBytes hvalue,rfl⟩

theorem filled_of_loadEntries {data : Bytes} {keyTable valueTable count i : ℕ}
    {alloc : ℕ → Bool} {entries : List SfoEntry}
    (h : (loadEntries data keyTable valueTable alloc count i).outcome = .ok entries) :
    ∀ e ∈ entries, Filled e := by
  induction count generalizing i entries with
  | zero =>
    cases h
    exact fun e he => nomatch he
  | succ count ih =>
    obtain ⟨first,hfirst,h⟩ := ok_of_bind_ok h
    obtain ⟨rest,hrest,h⟩ := ok_of_bind_ok h
    cases h
    exact List.forall_mem_cons.mpr ⟨filled_of_loadEntry hfirst,ih hrest⟩

theorem filled_of_load {data : Bytes} {alloc : ℕ → Bool} {entries : List SfoEntry}
    (h : (sfoLoadFromMemory data alloc).outcome = .ok entries) : ∀ e ∈ entries, Filled e := by
  rw [sfoLoadFromMemory_outcome] at h
  cases htables : (loadTables data).outcome with
  | ok tables =>
    rw [htables] at h
    exact filled_of_loadEntries h
  | failed =>
    rw [htables] at h
    cases h
  | fault =>
    rw [htables] at h
    cases h

variable {e : SfoEntry}

theorem Filled.value_length (h : Filled e) : e.value.length = e.area := by
  obtain ⟨s,hs,hvalue⟩ := h.value
  rw [hvalue,List.length_append,List.length_replicate,hs]
  exact Nat.add_sub_cancel' h.size_le

/-- A NUL among the bytes of the value, before the zeros behind it. -/
def EndsInSize (e : SfoEntry) : Prop := 0 ∈ e.value.take e.size

/-- There are zeros behind the value, or there is a NUL in it. -/
def EndsInArea (e : SfoEntry) : Prop := e.size < e.area ∨ EndsInSize e

instance (e : SfoEntry) : Decidable (EndsInSize e) := inferInstanceAs (Decidable (_ ∈ _))
instance (e : SfoEntry) : Decidable (EndsInArea e) := inferInstanceAs (Decidable (_ ∨ _))

theorem Filled.endsInArea_iff (h : Filled e) : EndsInArea e ↔ 0 ∈ e.value := by
  obtain ⟨s,hs,hvalue⟩ := h.value
  rw [EndsInArea,EndsInSize,hvalue,List.take_left' hs,List.mem_append,List.mem_replicate]
  constructor
  · rintro (hlt | hmem)
    · exact Or.inr ⟨by omega,rfl⟩
    · exact Or.inl hmem
  · rintro (hmem | ⟨hne,_⟩)
    · exact Or.inr hmem
    · exact Or.inl (by omega)

/-- The bytes hold this string and its terminator. -/
def Stores (b s : Bytes) : Prop := (0 : UInt8) ∉ s ∧ ∃ rest, b = s++0::rest

theorem Stores.mem {b s : Bytes} (h : Stores b s) : 0 ∈ b := by
  obtain ⟨_,rest,rfl⟩ := h
  simp

/-- A string that ends in the first bytes of a value is copied whole into as much room. -/
theorem stores_strlcpy {b : Bytes} {n : ℕ} (h : 0 ∈ b.take n) :
    Stores (b.take n) (strlcpy (cstr b) n) := by
  obtain ⟨s,rest,heq,hs⟩ := List.eq_append_cons_of_mem h
  have hlength : s.length < n := by
    have := congrArg List.length heq
    rw [List.length_take,List.length_append,List.length_cons] at this
    omega
  have hb : b = s++0::(rest++b.drop n) := by
    rw [← List.cons_append,← List.append_assoc,← heq,List.take_append_drop]
  have hcstr : cstr b = s := by rw [hb,cstr_append_zero hs]
  rw [hcstr,strlcpy_eq_self hlength]
  exact ⟨hs,rest,heq⟩

end Entries

section Task

variable (sdk : TextSdk) (url packageType : Bytes) (info : PackageInfo) (langId : ℤ)
  (entries : List SfoEntry)

/-- The checks that an entry has to pass before its title is copied. -/
def TitleChecked (e : SfoEntry) : Prop := ¬ (e.format ≠ sfoFormatString ∨ e.size < 1)

/-- The size is that of `content_id`, which has room for a terminator. -/
def ContentIdChecked (e : SfoEntry) : Prop :=
  ¬ (e.format ≠ sfoFormatString ∨ e.size ≠ ContentId.pkgContentIdSize+1)

/-- The last part of `readTask`, with every look at a byte of the value. -/
def readContentIdAt (titleName escapedTitleName : Bytes) :
    Looking SfoEntry.value (Except Bytes Task) :=
  match sfoFindEntry entries (bytes "CONTENT_ID") with
  | none =>
    pure (.error (quoted (bytes "Unable to get content id for package ") url (bytes ".")))
  | some entry =>
    if entry.format ≠ sfoFormatString ∨ entry.size ≠ ContentId.pkgContentIdSize+1 then
      pure (.error (invalidFormat (bytes "CONTENT_ID") url))
    else do
      let contentId ← strlcpyFrom ⟨entry,0⟩ (ContentId.pkgContentIdSize+1)
      pure (.ok ⟨contentId,titleName,escapedTitleName,packageType,info⟩)

/-- `readTask`, with every look at a byte of a value. -/
def readTaskAt : Looking SfoEntry.value (Except Bytes Task) :=
  match findTitle entries langId with
  | none => pure (.error (quoted (bytes "Unable to get title for package ") url (bytes ".")))
  | some (key,title) =>
    if title.format ≠ sfoFormatString ∨ title.size < 1 then pure (.error (invalidFormat key url))
    else do
      let titleName ← strlcpyFrom ⟨title,0⟩ 256
      match httpEscapeJsonString sdk (256*2+1) titleName with
      | none => pure (.error (bytes "Unable to escape title name."))
      | some escapedTitleName =>
        readContentIdAt url packageType info entries titleName escapedTitleName

/-- All bytes examined lie in the areas of their entries, and the content id is the string
stored in the bytes of its entry. -/
structure CopiedWithin : Prop where
  inside : ∀ look ∈ (readTaskAt sdk url packageType info langId entries).examined,
    look.2 < look.1.area
  contentId : ∀ task,
    (readTaskAt sdk url packageType info langId entries).value = some (.ok task) →
    ∃ entry, sfoFindEntry entries (bytes "CONTENT_ID") = some entry ∧
      Stores (entry.value.take entry.size) task.contentId

/-- The title that is copied ends in its area, and the content id in its size. -/
def StringsEnd : Prop :=
  ∀ key title, findTitle entries langId = some (key,title) → TitleChecked title →
    EndsInArea title ∧
      ∀ entry, sfoFindEntry entries (bytes "CONTENT_ID") = some entry → ContentIdChecked entry →
        EndsInSize entry

variable {sdk url packageType info langId entries}

theorem mem_of_sfoFindEntry {key : Bytes} {e : SfoEntry} (h : sfoFindEntry entries key = some e) :
    e ∈ entries := List.mem_of_find?_eq_some h

theorem mem_of_findTitle {key : Bytes} {title : SfoEntry}
    (h : findTitle entries langId = some (key,title)) : title ∈ entries := by
  unfold findTitle at h
  cases hfind : sfoFindEntry entries (strlcpy (bytes "TITLE_"++int2Text langId) 16) with
  | some entry =>
    simp only [hfind] at h
    cases h
    exact mem_of_sfoFindEntry hfind
  | none =>
    simp only [hfind] at h
    obtain ⟨entry,hentry,heq⟩ := Option.map_eq_some_iff.mp h
    cases heq
    exact mem_of_sfoFindEntry hentry

theorem strlcpyFrom_examines {e : SfoEntry} (he : e ∈ entries) (size : ℕ) :
    Examines (fun look => look.1 ∈ entries)
      (strlcpyFrom ⟨e,0⟩ size : Looking SfoEntry.value Bytes) := by
  intro look hlook
  have hbuffer : look.1 = e := strlcpyLoop_examines _ _ _ _ look hlook
  rwa [hbuffer]

/-- Only values of the object's entries are looked at. -/
theorem readTaskAt_examines : Examines (fun look => look.1 ∈ entries)
    (readTaskAt sdk url packageType info langId entries) := by
  unfold readTaskAt readContentIdAt
  split
  · exact examines_pure _
  rename_i key title htitle
  split
  · exact examines_pure _
  refine (strlcpyFrom_examines (mem_of_findTitle htitle) _).bind fun titleName _ => ?_
  split
  · exact examines_pure _
  split
  · exact examines_pure _
  rename_i entry hentry
  split
  · exact examines_pure _
  exact (strlcpyFrom_examines (mem_of_sfoFindEntry hentry) _).bind fun _ _ => examines_pure _

/-- The copies stay in the areas exactly if they come to an end. -/
theorem inside_iff_isSome (hfilled : ∀ e ∈ entries, Filled e) :
    (∀ look ∈ (readTaskAt sdk url packageType info langId entries).examined,
      look.2 < look.1.area) ↔
    (readTaskAt sdk url packageType info langId entries).value.isSome = true := by
  rw [Looking.inside]
  have harea : ∀ look ∈ (readTaskAt sdk url packageType info langId entries).examined,
      look.1.value.length = look.1.area :=
    fun look hlook => (hfilled look.1 (readTaskAt_examines look hlook)).value_length
  constructor
  · intro h look hlook
    rw [harea look hlook]
    exact h look hlook
  · intro h look hlook
    rw [← harea look hlook]
    exact h look hlook

/-- The value of the content id has a terminator, if it is copied. -/
def ContentIdEnds (entries : List SfoEntry) : Prop :=
  ∀ entry, sfoFindEntry entries (bytes "CONTENT_ID") = some entry → ContentIdChecked entry →
    0 ∈ entry.value

/-- Every value that is copied has a terminator. -/
def CopiesEnd (sdk : TextSdk) (langId : ℤ) (entries : List SfoEntry) : Prop :=
  ∀ key title, findTitle entries langId = some (key,title) → TitleChecked title →
    0 ∈ title.value ∧
      ∀ escaped,
        httpEscapeJsonString sdk (256*2+1) (strlcpy (cstr title.value) 256) = some escaped →
        ContentIdEnds entries

/-- The last part as `readTask` has it. -/
def readContentId (url packageType : Bytes) (info : PackageInfo) (entries : List SfoEntry)
    (titleName escapedTitleName : Bytes) : Except Bytes Task :=
  match sfoFindEntry entries (bytes "CONTENT_ID") with
  | none => .error (quoted (bytes "Unable to get content id for package ") url (bytes "."))
  | some entry =>
    if entry.format ≠ sfoFormatString ∨ entry.size ≠ ContentId.pkgContentIdSize+1 then
      .error (invalidFormat (bytes "CONTENT_ID") url)
    else
      .ok ⟨strlcpy (cstr entry.value) (ContentId.pkgContentIdSize+1),titleName,
        escapedTitleName,packageType,info⟩

theorem contentIdEnds_iff {entry : SfoEntry}
    (hentry : sfoFindEntry entries (bytes "CONTENT_ID") = some entry) :
    ContentIdEnds entries ↔ (ContentIdChecked entry → 0 ∈ entry.value) := by
  refine ⟨fun h => h entry hentry,fun h e he => ?_⟩
  rw [hentry] at he
  cases he
  exact h

theorem copiesEnd_iff {key : Bytes} {title : SfoEntry}
    (htitle : findTitle entries langId = some (key,title)) :
    CopiesEnd sdk langId entries ↔ (TitleChecked title → 0 ∈ title.value ∧
      ∀ escaped,
        httpEscapeJsonString sdk (256*2+1) (strlcpy (cstr title.value) 256) = some escaped →
        ContentIdEnds entries) := by
  refine ⟨fun h => h key title htitle,fun h key' title' h' => ?_⟩
  rw [htitle] at h'
  cases h'
  exact h

theorem readContentIdAt_cases (titleName escaped : Bytes) :
    (ContentIdEnds entries ∧
      (readContentIdAt url packageType info entries titleName escaped).value =
        some (readContentId url packageType info entries titleName escaped)) ∨
    (¬ ContentIdEnds entries ∧
      (readContentIdAt url packageType info entries titleName escaped).value = none) := by
  cases hentry : sfoFindEntry entries (bytes "CONTENT_ID") with
  | none =>
    refine Or.inl ⟨fun e he => ?_,?_⟩
    · rw [hentry] at he
      cases he
    · simp only [readContentIdAt,readContentId,hentry,value_pure]
  | some entry =>
    rw [contentIdEnds_iff hentry]
    by_cases hchecked : ContentIdChecked entry
    · have hgood := hchecked
      rw [ContentIdChecked] at hgood
      by_cases hends : 0 ∈ entry.value
      · refine Or.inl ⟨fun _ => hends,?_⟩
        simp only [readContentIdAt,readContentId,hentry,if_neg hgood,value_bind,
          strlcpyFrom_value,if_pos hends,Option.bind_some,value_pure]
      · refine Or.inr ⟨fun h => hends (h hchecked),?_⟩
        simp only [readContentIdAt,hentry,if_neg hgood,value_bind,strlcpyFrom_value,
          if_neg hends,Option.bind_none]
    · have hbad := not_not.mp hchecked
      refine Or.inl ⟨fun hc => absurd hc hchecked,?_⟩
      simp only [readContentIdAt,readContentId,hentry,if_pos hbad,value_pure]

/-- How the reading ends.  The cases are those of the source, in its order. -/
theorem readTaskAt_cases :
    (CopiesEnd sdk langId entries ∧
      (readTaskAt sdk url packageType info langId entries).value =
        some (readTask sdk url packageType info langId entries)) ∨
    (¬ CopiesEnd sdk langId entries ∧
      (readTaskAt sdk url packageType info langId entries).value = none) := by
  cases htitle : findTitle entries langId with
  | none =>
    refine Or.inl ⟨fun key title h => ?_,?_⟩
    · rw [htitle] at h
      cases h
    · simp only [readTaskAt,readTask,htitle,value_pure]
  | some found =>
    obtain ⟨key,title⟩ := found
    rw [copiesEnd_iff htitle]
    by_cases hchecked : TitleChecked title
    · have hgood := hchecked
      rw [TitleChecked] at hgood
      by_cases hends : 0 ∈ title.value
      · cases hescape : httpEscapeJsonString sdk (256*2+1) (strlcpy (cstr title.value) 256) with
        | none =>
          refine Or.inl ⟨fun _ => ⟨hends,fun _ h => nomatch h⟩,?_⟩
          simp only [readTaskAt,readTask,htitle,if_neg hgood,value_bind,strlcpyFrom_value,
            if_pos hends,Option.bind_some,hescape,value_pure]
        | some escaped =>
          rcases @readContentIdAt_cases url packageType info entries
            (strlcpy (cstr title.value) 256) escaped with ⟨hcontent,hvalue⟩ | ⟨hcontent,hvalue⟩
          · refine Or.inl ⟨fun _ => ⟨hends,fun _ _ => hcontent⟩,?_⟩
            simp only [readTaskAt,readTask,htitle,if_neg hgood,value_bind,strlcpyFrom_value,
              if_pos hends,Option.bind_some,hescape,hvalue]
            rfl
          · refine Or.inr ⟨fun h => hcontent ((h hchecked).2 escaped rfl),?_⟩
            simp only [readTaskAt,htitle,if_neg hgood,value_bind,strlcpyFrom_value,
              if_pos hends,Option.bind_some,hescape,hvalue]
      · refine Or.inr ⟨fun h => hends (h hchecked).1,?_⟩
        simp only [readTaskAt,htitle,if_neg hgood,value_bind,strlcpyFrom_value,if_neg hends,
          Option.bind_none]
    · have hbad := not_not.mp hchecked
      refine Or.inl ⟨fun hc => absurd hc hchecked,?_⟩
      simp only [readTaskAt,readTask,htitle,if_pos hbad,value_pure]

/-- Whatever the reading gives is what `readTask` gives. -/
theorem readTask_of_value {r : Except Bytes Task}
    (h : (readTaskAt sdk url packageType info langId entries).value = some r) :
    readTask sdk url packageType info langId entries = r := by
  rcases @readTaskAt_cases sdk url packageType info langId entries with
    ⟨_,hvalue⟩ | ⟨_,hvalue⟩
  · exact Option.some.inj (hvalue.symm.trans h)
  · rw [hvalue] at h
    cases h

theorem isSome_iff_copiesEnd :
    (readTaskAt sdk url packageType info langId entries).value.isSome = true ↔
      CopiesEnd sdk langId entries := by
  rcases @readTaskAt_cases sdk url packageType info langId entries with
    ⟨hends,hvalue⟩ | ⟨hends,hvalue⟩
  · exact iff_of_true (by rw [hvalue]; rfl) hends
  · exact iff_of_false (by rw [hvalue]; exact Bool.false_ne_true) hends

/-- The entries that a task was read from. -/
theorem entries_of_readTask {task : Task}
    (h : readTask sdk url packageType info langId entries = .ok task) :
    ∃ key title entry, findTitle entries langId = some (key,title) ∧ TitleChecked title ∧
      sfoFindEntry entries (bytes "CONTENT_ID") = some entry ∧ ContentIdChecked entry ∧
      task.contentId = strlcpy (cstr entry.value) (ContentId.pkgContentIdSize+1) := by
  unfold readTask at h
  split at h
  · cases h
  rename_i key title htitle
  split at h
  · cases h
  rename_i hchecked
  dsimp only at h
  split at h
  · cases h
  split at h
  · cases h
  rename_i entry hentry
  split at h
  · cases h
  rename_i hcontent
  cases h
  exact ⟨key,title,entry,htitle,hchecked,hentry,hcontent,rfl⟩

/-- A conversion that leaves every text as it is. -/
def copyingSdk : TextSdk where
  initialized := true
  uriUnescape := some
  jsonEscape := fun _ => some

theorem copiesEnd_of_stringsEnd (hfilled : ∀ e ∈ entries, Filled e)
    (h : StringsEnd langId entries) (sdk : TextSdk) : CopiesEnd sdk langId entries := by
  intro key title htitle hchecked
  obtain ⟨hends,hcontent⟩ := h key title htitle hchecked
  refine ⟨(hfilled title (mem_of_findTitle htitle)).endsInArea_iff.mp hends,?_⟩
  exact fun _ _ entry hentry hc => List.mem_of_mem_take (hcontent entry hentry hc)

theorem CopiedWithin.copiesEnd (hfilled : ∀ e ∈ entries, Filled e)
    (h : CopiedWithin sdk url packageType info langId entries) : CopiesEnd sdk langId entries :=
  isSome_iff_copiesEnd.mp ((inside_iff_isSome hfilled).mp h.inside)

theorem copiedWithin_of_stringsEnd (hfilled : ∀ e ∈ entries, Filled e)
    (h : StringsEnd langId entries) :
    CopiedWithin sdk url packageType info langId entries where
  inside :=
    (inside_iff_isSome hfilled).mpr (isSome_iff_copiesEnd.mpr (copiesEnd_of_stringsEnd hfilled h _))
  contentId := by
    intro task hvalue
    obtain ⟨key,title,entry,htitle,hchecked,hentry,hcontent,heq⟩ :=
      entries_of_readTask (readTask_of_value hvalue)
    have hends := (h key title htitle hchecked).2 entry hentry hcontent
    have hsize : entry.size = ContentId.pkgContentIdSize+1 := by
      by_contra hne
      exact hcontent (Or.inr hne)
    refine ⟨entry,hentry,?_⟩
    rw [heq,← hsize]
    exact stores_strlcpy hends

/-- With a conversion that always succeeds the content id is reached. -/
theorem stringsEnd_of_copiedWithin (hfilled : ∀ e ∈ entries, Filled e)
    (h : CopiedWithin copyingSdk url packageType info langId entries) :
    StringsEnd langId entries := by
  have hcopies := h.copiesEnd hfilled
  intro key title htitle hchecked
  obtain ⟨hends,_⟩ := hcopies key title htitle hchecked
  refine ⟨(hfilled title (mem_of_findTitle htitle)).endsInArea_iff.mpr hends,?_⟩
  intro entry hentry hcontent
  have hvalue : (readTaskAt copyingSdk url packageType info langId entries).value =
      some (readTask copyingSdk url packageType info langId entries) := by
    rcases readTaskAt_cases with ⟨_,hvalue⟩ | ⟨hnot,_⟩
    · exact hvalue
    · exact absurd hcopies hnot
  rw [TitleChecked] at hchecked
  rw [ContentIdChecked] at hcontent
  simp only [readTask,htitle,hentry,if_neg hchecked,if_neg hcontent] at hvalue
  obtain ⟨entry',hentry',hstores⟩ := h.contentId _ hvalue
  rw [hentry] at hentry'
  cases hentry'
  exact hstores.mem

/-- The copies of a loaded object stay in the areas, and give the content id that is stored,
whatever else happens, exactly if the title ends in its area and the content id in its size. -/
theorem readTask_copies_iff {data : Bytes} {alloc : ℕ → Bool} {entries : List SfoEntry}
    (h : (sfoLoadFromMemory data alloc).outcome = .ok entries) (langId : ℤ) :
    (∀ sdk url packageType info, CopiedWithin sdk url packageType info langId entries) ↔
      StringsEnd langId entries :=
  ⟨fun hwithin => stringsEnd_of_copiedWithin (filled_of_load h)
    (hwithin copyingSdk [] [] ⟨0,0,false,false⟩),
    fun hends _ _ _ _ => copiedWithin_of_stringsEnd (filled_of_load h) hends⟩

/-- Only one of the two titles has room for a zero behind it. -/
def sampleEntries : List SfoEntry := sampleImage.items.map Item.entry

theorem readTask_copies_iff_terminated :
    CopiedWithin plainSdk (bytes "http://host/a.pkg") (bytes "PS4GD") ⟨0x1a,0,false,false⟩ 1
      sampleEntries := by
  refine (readTask_copies_iff (sfoLoadFromMemory_image sampleImage) 1).mpr ?_ _ _ _ _
  intro key title htitle _
  have hfind : findTitle sampleEntries 1 =
      some (bytes "TITLE_01",⟨bytes "TITLE_01",4,5,bytes "Game"++[0],0x204⟩) := by decide
  have hcontent : sfoFindEntry sampleEntries (bytes "CONTENT_ID") =
      some ⟨bytes "CONTENT_ID",37,48,
        bytes "EP1234-CUSA00001_00-0123456789ABCDEF"++List.replicate 12 0,0x204⟩ := by decide
  refine ⟨?_,fun entry hentry _ => ?_⟩
  · cases hfind.symm.trans htitle
    decide
  · cases hcontent.symm.trans hentry
    decide

/-- In the other languages the copy of the title goes on behind its area. -/
theorem title_leaves_area :
    (sfoLoadFromMemory sampleImage.image fun _ => true).outcome = .ok sampleEntries ∧
      ¬ CopiedWithin plainSdk (bytes "http://host/a.pkg") (bytes "PS4GD") ⟨0x1a,0,false,false⟩ 2
        sampleEntries := by
  refine ⟨sfoLoadFromMemory_image sampleImage,fun h => ?_⟩
  have hbehind : ((⟨bytes "TITLE",4,4,bytes "Game",0x204⟩ : SfoEntry),4) ∈
      (readTaskAt plainSdk (bytes "http://host/a.pkg") (bytes "PS4GD") ⟨0x1a,0,false,false⟩ 2
        sampleEntries).examined := by decide
  exact absurd (h.inside _ hbehind) (by decide)

end Task

end SfoValues
end RemotePkgInstaller
