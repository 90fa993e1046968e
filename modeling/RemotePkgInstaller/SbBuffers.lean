import RemotePkgInstaller.SendStream

/-! `sb_Buffer`, in memory that may run out: a buffer that grows as bytes are pushed, and that is
as before when they do not fit. -/
namespace RemotePkgInstaller
namespace SbBuffers

open SendStream

/-- What `realloc` gives, call by call: nothing, or memory with these bytes where it is new. -/
abbrev Reallocs := ℕ → Option (ℕ → UInt8)

/-- The memory is all that `cap` says; `reallocs` counts the calls. -/
structure SbBuffer where
  mem : Bytes
  len : ℕ
  reallocs : ℕ
  len_le : len ≤ mem.length

namespace SbBuffer

def cap (b : SbBuffer) : ℕ := b.mem.length

/-- What has been pushed. -/
def text (b : SbBuffer) : Bytes := b.mem.take b.len

@[simp] theorem length_text (b : SbBuffer) : b.text.length = b.len := by
  rw [text,List.length_take]
  exact Nat.min_eq_left b.len_le

def init : SbBuffer := ⟨[],0,0,Nat.le_refl 0⟩

def grow (b : SbBuffer) (n : ℕ) (bytes : ℕ → UInt8) : SbBuffer :=
  ⟨b.mem++(List.range' b.cap (n-b.cap)).map bytes,b.len,b.reallocs+1,by
    rw [List.length_append]
    exact Nat.le_add_right_of_le b.len_le⟩

def put (b : SbBuffer) (chr : UInt8) (h : b.len < b.cap) : SbBuffer :=
  ⟨b.mem.set b.len chr,b.len+1,b.reallocs,by rwa [List.length_set]⟩

/-- `buf->len = n`. -/
def setLen (b : SbBuffer) (n : ℕ) (h : n ≤ b.cap) : SbBuffer := ⟨b.mem,n,b.reallocs,h⟩

end SbBuffer

open SbBuffer

variable (results : Reallocs)

def sbBufferReserve (b : SbBuffer) (n : ℕ) : SbResult × SbBuffer :=
  if n ≤ b.cap then (.success,b)
  else
    match results b.reallocs with
    | none => (.outOfMem,{ b with reallocs := b.reallocs+1 })
    | some bytes => (.success,b.grow n bytes)

/-- The capacity after the next growth. -/
def nextCap (cap : ℕ) : ℕ := cap <<< 1 ||| if cap = 0 then 1 else 0

theorem nextCap_eq (cap : ℕ) : nextCap cap = if cap = 0 then 1 else 2*cap := by
  unfold nextCap
  split_ifs with h
  · rw [h]
    rfl
  · rw [Nat.or_zero,Nat.shiftLeft_eq]
    omega

theorem lt_nextCap (cap : ℕ) : cap < nextCap cap := by
  rw [nextCap_eq]
  split_ifs <;> omega

/-- The part of `sb_buffer_push_char` before the write. -/
def makeRoom (b : SbBuffer) : SbResult × SbBuffer :=
  if b.len = b.cap then sbBufferReserve results b (nextCap b.cap) else (.success,b)

/-- What a call that may need memory makes of the buffer: `more` is what is pushed by it. -/
structure Does (b : SbBuffer) (more : Bytes) (r : SbResult × SbBuffer) : Prop where
  result : r.1 = .success ∨ r.1 = .outOfMem
  pushed : r.1 = .success → r.2.text = b.text++more
  kept : r.1 = .outOfMem → r.2.text = b.text
  memory : (∀ k, results k ≠ none) → r.1 = .success
  cap : b.cap ≤ r.2.cap

variable {results} {b b' : SbBuffer} {more data : Bytes} {n : ℕ} {chr : UInt8}

@[simp] theorem cap_grow (bytes : ℕ → UInt8) : (b.grow n bytes).cap = max b.cap n := by
  unfold SbBuffer.cap SbBuffer.grow
  rw [List.length_append,List.length_map,List.length_range']
  unfold SbBuffer.cap
  omega

@[simp] theorem text_grow (bytes : ℕ → UInt8) : (b.grow n bytes).text = b.text :=
  List.take_append_of_le_length b.len_le

theorem text_put (h : b.len < b.cap) : (b.put chr h).text = b.text++[chr] := by
  unfold SbBuffer.text SbBuffer.put
  have hlen : b.len < (b.mem.set b.len chr).length := by rwa [List.length_set]
  rw [List.take_succ_eq_append_getElem hlen,List.getElem_set_self,
    List.take_set_of_le (Nat.le_refl _)]

theorem reserve_does (results : Reallocs) (b : SbBuffer) (n : ℕ) :
    Does results b [] (sbBufferReserve results b n) ∧
    ((sbBufferReserve results b n).1 = .success → n ≤ (sbBufferReserve results b n).2.cap) ∧
    (sbBufferReserve results b n).2.len = b.len := by
  unfold sbBufferReserve
  split_ifs with h
  · exact ⟨⟨Or.inl rfl,fun _ => (List.append_nil _).symm,fun h => (by cases h),fun _ => rfl,
      Nat.le_refl _⟩,fun _ => h,rfl⟩
  · cases hresult : results b.reallocs with
    | none =>
      exact ⟨⟨Or.inr rfl,fun h => (by cases h),fun _ => rfl,fun hall => absurd hresult (hall _),
        Nat.le_refl _⟩,fun h => (by cases h),rfl⟩
    | some bytes =>
      refine ⟨⟨Or.inl rfl,fun _ => ?_,fun h => (by cases h),fun _ => rfl,?_⟩,fun _ => ?_,rfl⟩
      · rw [text_grow,List.append_nil]
      · rw [cap_grow]
        exact Nat.le_max_left ..
      · rw [cap_grow]
        exact Nat.le_max_right ..

theorem cap_reserve (results : Reallocs) (b : SbBuffer) (n : ℕ) :
    (sbBufferReserve results b n).2.cap ≤ max b.cap n := by
  unfold sbBufferReserve
  split_ifs
  · exact Nat.le_max_left ..
  · split
    · exact Nat.le_max_left ..
    · exact (cap_grow _).le

theorem makeRoom_does : Does results b [] (makeRoom results b) := by
  unfold makeRoom
  split_ifs
  · exact (reserve_does ..).1
  · exact ⟨Or.inl rfl,fun _ => (List.append_nil _).symm,fun h => (by cases h),fun _ => rfl,
      Nat.le_refl _⟩

theorem len_lt_makeRoom (h : (makeRoom results b).1 = .success) :
    (makeRoom results b).2.len < (makeRoom results b).2.cap := by
  unfold makeRoom at h ⊢
  split_ifs at h ⊢ with hfull
  · obtain ⟨-,hcap,hlen⟩ := reserve_does results b (nextCap b.cap)
    have hnext := lt_nextCap b.cap
    have hreserved := hcap h
    omega
  · exact Nat.lt_of_le_of_ne b.len_le hfull

variable (results)

def sbBufferPushChar (b : SbBuffer) (chr : UInt8) : SbResult × SbBuffer :=
  if h : (makeRoom results b).1 = .success then
    (.success,(makeRoom results b).2.put chr (len_lt_makeRoom h))
  else makeRoom results b

variable {results}

theorem pushChar_does (chr : UInt8) : Does results b [chr] (sbBufferPushChar results b chr) := by
  have hroom : Does results b [] (makeRoom results b) := makeRoom_does
  unfold sbBufferPushChar
  split_ifs with h
  · refine ⟨Or.inl rfl,fun _ => ?_,fun h => (by cases h),fun _ => rfl,?_⟩
    · rw [text_put,hroom.pushed h,List.append_nil]
    · unfold SbBuffer.put SbBuffer.cap
      rw [List.length_set]
      exact hroom.cap
  · exact ⟨hroom.result,fun hs => absurd hs h,hroom.kept,hroom.memory,hroom.cap⟩

/-- Whether it is pushed or not, nothing that was there before is lost. -/
theorem Does.text_prefix {r : SbResult × SbBuffer} (h : Does results b more r) :
    b.text <+: r.2.text := by
  rcases h.result with hs | hf
  · exact ⟨more,(h.pushed hs).symm⟩
  · exact ⟨[],by rw [List.append_nil,h.kept hf]⟩

theorem Does.len_le {r : SbResult × SbBuffer} (h : Does results b more r) : b.len ≤ r.2.len := by
  have hlength := h.text_prefix.length_le
  rwa [length_text,length_text] at hlength

variable (results)

/-- The loop of `sb_buffer_push_str`. -/
def pushChars (b : SbBuffer) : Bytes → SbResult × SbBuffer
  | [] => (.success,b)
  | chr::data =>
    let pushed := sbBufferPushChar results b chr
    if pushed.1 = .success then pushChars pushed.2 data else pushed

variable {results}

/-- The loop may stop on the way. -/
structure Pushes (results : Reallocs) (b : SbBuffer) (data : Bytes) (r : SbResult × SbBuffer) :
    Prop where
  result : r.1 = .success ∨ r.1 = .outOfMem
  pushed : r.1 = .success → r.2.text = b.text++data
  prefixed : b.text <+: r.2.text
  memory : (∀ k, results k ≠ none) → r.1 = .success
  cap : b.cap ≤ r.2.cap

theorem Does.pushes {r : SbResult × SbBuffer} (h : Does results b more r) :
    Pushes results b more r := ⟨h.result,h.pushed,h.text_prefix,h.memory,h.cap⟩

/-- A push, and what follows it if it succeeds. -/
theorem Pushes.andThen {r r' : SbResult × SbBuffer} (h : Pushes results b more r)
    (hr : r.1 = .success → Pushes results r.2 data r') :
    Pushes results b (more++data) (if r.1 = .success then r' else r) := by
  split_ifs with hs
  · have hrest := hr hs
    refine ⟨hrest.result,fun h' => ?_,h.prefixed.trans hrest.prefixed,hrest.memory,
      Nat.le_trans h.cap hrest.cap⟩
    rw [hrest.pushed h',h.pushed hs,List.append_assoc]
  · exact ⟨h.result,fun h' => absurd h' hs,h.prefixed,fun hall => absurd (h.memory hall) hs,h.cap⟩

theorem pushes_nil : Pushes results b [] (.success,b) :=
  ⟨Or.inl rfl,fun _ => (List.append_nil _).symm,List.prefix_refl _,fun _ => rfl,Nat.le_refl _⟩

theorem pushChars_pushes (b : SbBuffer) (data : Bytes) :
    Pushes results b data (pushChars results b data) := by
  induction data generalizing b with
  | nil => exact pushes_nil
  | cons chr data ih => exact (pushChar_does chr).pushes.andThen fun _ => ih _

theorem Pushes.len_le_cap {r : SbResult × SbBuffer} (h : Pushes results b data r) :
    b.len ≤ r.2.cap := Nat.le_trans b.len_le h.cap

theorem setLen_text {r : SbResult × SbBuffer} (h : Pushes results b data r) :
    (r.2.setLen b.len h.len_le_cap).text = b.text := by
  obtain ⟨rest,hrest⟩ := h.prefixed
  have htext : r.2.text.take b.len = b.text := by
    rw [← hrest]
    exact List.take_left' b.length_text
  have hlength := h.prefixed.length_le
  rw [length_text,length_text] at hlength
  rwa [SbBuffer.text,List.take_take,Nat.min_eq_left hlength] at htext

variable (results)

def sbBufferPushStr (b : SbBuffer) (data : Bytes) : SbResult × SbBuffer :=
  let r := pushChars results b data
  if r.1 = .success then r
  else (r.1,r.2.setLen b.len (pushChars_pushes b data).len_le_cap)

def sbBufferNullTerminate (b : SbBuffer) : SbResult × SbBuffer :=
  let r := sbBufferPushChar results b 0
  if r.1 = .success then
    (.success,r.2.setLen (r.2.len-1) (Nat.le_trans (Nat.sub_le _ _) r.2.len_le))
  else r

/-- `memmove` leaves behind what it has not written over. -/
def sbBufferShift (b : SbBuffer) (n : ℕ) : SbBuffer :=
  ⟨(b.mem.drop n).take (b.len-n)++b.mem.drop (b.len-n),b.len-n,b.reallocs,by
    have hle := b.len_le
    simp only [List.length_append,List.length_take,List.length_drop]
    omega⟩

variable {results}

theorem pushStr_does (data : Bytes) : Does results b data (sbBufferPushStr results b data) := by
  have hloop : Pushes results b data (pushChars results b data) := pushChars_pushes b data
  simp only [sbBufferPushStr]
  split_ifs with hs
  · refine ⟨Or.inl hs,hloop.pushed,fun h => ?_,hloop.memory,hloop.cap⟩
    cases hs.symm.trans h
  · exact ⟨hloop.result,fun h => absurd h hs,fun _ => setLen_text hloop,
      fun h => absurd (hloop.memory h) hs,hloop.cap⟩

/-- The terminator lies behind the text, and does not count. -/
theorem nullTerminate_does : Does results b [] (sbBufferNullTerminate results b) ∧
    ((sbBufferNullTerminate results b).1 = .success →
      (sbBufferNullTerminate results b).2.mem[b.len]? = some 0) := by
  have hpush : Does results b [0] (sbBufferPushChar results b 0) := pushChar_does 0
  unfold sbBufferNullTerminate
  dsimp only
  split_ifs with hs
  · have htext := hpush.pushed hs
    have hlen : (sbBufferPushChar results b 0).2.len = b.len+1 := by
      rw [← length_text,htext,List.length_append,length_text]
      rfl
    have hmem : (sbBufferPushChar results b 0).2.mem.take (b.len+1) = b.text++[0] := by
      rw [← hlen]
      exact htext
    have hkept : (sbBufferPushChar results b 0).2.mem.take b.len = b.text := by
      have htake := congrArg (List.take b.len) hmem
      rwa [List.take_take,Nat.min_eq_left (Nat.le_succ _),List.take_left' b.length_text] at htake
    refine ⟨⟨Or.inl rfl,fun _ => ?_,fun h => (by cases h),fun _ => rfl,hpush.cap⟩,fun _ => ?_⟩
    · simp only [SbBuffer.setLen,SbBuffer.text,hlen,Nat.add_sub_cancel,hkept,List.append_nil]
    · have hget := congrArg (fun l => l[b.len]?) hmem
      simp only [List.getElem?_take_of_lt (Nat.lt_succ_self _)] at hget
      rw [SbBuffer.setLen,hget,List.getElem?_append_right (by rw [length_text]),length_text,
        Nat.sub_self]
      rfl
  · exact ⟨⟨hpush.result,fun h => absurd h hs,hpush.kept,hpush.memory,hpush.cap⟩,
      fun h => absurd h hs⟩

theorem shift_text (n : ℕ) : (sbBufferShift b n).text = b.text.drop n := by
  have hle := b.len_le
  have hlength : ((b.mem.drop n).take (b.len-n)).length = b.len-n := by
    simp only [List.length_take,List.length_drop]
    omega
  rw [SbBuffer.text,sbBufferShift,List.take_left' hlength,SbBuffer.text,List.drop_take]

end SbBuffers
end RemotePkgInstaller
