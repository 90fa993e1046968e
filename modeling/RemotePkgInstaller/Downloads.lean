import RemotePkgInstaller.HttpTransfer

/-! Downloads from hosts that serve one resource: which bytes of it a download hands
back, whatever the host announces and however the body arrives. -/
namespace RemotePkgInstaller
namespace Downloads

open Decimal HttpState HttpTransfer TransferLoop

/-- The first and the last byte that the value of a `Range` header asks for. -/
def parseRange? (s : Bytes) : Option (ℕ × ℕ) :=
  if (bytes "bytes=").isPrefixOf s then
    let first := (s.drop 6).takeWhile isdigit
    match (s.drop 6).dropWhile isdigit with
    | 0x2d::last =>
      if first ≠ [] ∧ last ≠ [] ∧ last.all isdigit then some (value first,value last) else none
    | _ => none
  else none

/-- The range that a request asks for. -/
def requestedRange (request : HostRequest) : Option (ℕ × ℕ) :=
  (request.headers.find? fun header => header.1 = bytes "Range").bind fun header =>
    parseRange? header.2

/-- The part of a resource from one byte up to another, as far as it goes. -/
def clipped (resource : Bytes) (range : ℕ × ℕ) : Bytes :=
  window resource range.1 (range.2+1-range.1)

/-- A host that answers 200 with the whole resource, and 206 with the requested range and
to nothing but such a request.  What it announces and its other answers are left open. -/
def Serves (resource : Bytes) (host : HostRequest → HostAnswer) : Prop :=
  ∀ request,
    ((host request).statusCode = 200 → (host request).body = resource) ∧
    ((host request).statusCode = 206 → ∃ range, requestedRange request = some range ∧
      (host request).body = clipped resource range)

/-- Offsets and sizes as the callers pass them. -/
def AsCalled (size : Option UInt64) (offset : UInt64) : Prop :=
  (offset.toNat < 2^32 ∧ ∃ s, size = some s ∧ s.toNat < 2^38) ∨
    (offset = 0 ∧ size.getD unknownLength = unknownLength)

section Ranges

theorem parseRange?_text (a b : ℕ) :
    parseRange? (bytes "bytes="++text a++bytes "-"++text b) = some (a,b) := by
  have hpre : (bytes "bytes=").isPrefixOf (bytes "bytes="++(text a++0x2d::text b)) = true := by
    rw [List.isPrefixOf_iff_prefix]
    exact List.prefix_append _ _
  have hdrop : (bytes "bytes="++(text a++0x2d::text b)).drop 6 = text a++0x2d::text b := rfl
  have hminus : isdigit 0x2d = false := by decide
  have hfirst : (text a++0x2d::text b).takeWhile isdigit = text a := by
    rw [List.takeWhile_append_of_pos (text_isdigit a)]
    simp [hminus]
  have hrest : (text a++0x2d::text b).dropWhile isdigit = 0x2d::text b := by
    rw [List.dropWhile_append_of_pos (text_isdigit a)]
    simp [hminus]
  have hlast : (text b).all isdigit = true := by
    rw [List.all_eq_true]
    exact text_isdigit b
  have hshape : bytes "bytes="++text a++bytes "-"++text b =
      bytes "bytes="++(text a++0x2d::text b) := by
    simp only [List.append_assoc,List.append_cancel_left_eq]
    rfl
  rw [hshape]
  simp only [parseRange?,hpre,if_true,hdrop,hfirst,hrest,hlast,value_text]
  rw [if_pos ⟨text_ne_nil a,text_ne_nil b,trivial⟩]

/-- Two 64-bit numbers fit the buffer of the header's value. -/
theorem rangeText_eq (offset dataSize : UInt64) :
    rangeText offset dataSize = bytes "bytes="++text offset.toNat++bytes "-"++
      text (offset+dataSize-1).toNat := by
  refine strlcpy_eq_self ?_
  have h1 : (text offset.toNat).length ≤ 20 :=
    text_length_le (by norm_num) (offset.toNat_lt.trans (by norm_num))
  have h2 : (text (offset+dataSize-1).toNat).length ≤ 20 :=
    text_length_le (by norm_num) ((offset+dataSize-1).toNat_lt.trans (by norm_num))
  have h3 : (bytes "bytes=").length = 6 := rfl
  have h4 : (bytes "-").length = 1 := rfl
  simp only [List.length_append]
  omega

theorem wantsRange_iff (dataSize offset : UInt64) :
    wantsRange dataSize offset = true ↔ 0 < offset.toNat ∧ 0 < dataSize.toNat := by
  simp [wantsRange,UInt64.lt_iff_toNat_lt]

theorem requestedRange_download (url : Bytes) (dataSize offset : UInt64) :
    requestedRange ⟨url,downloadHeaders dataSize offset⟩ =
      if wantsRange dataSize offset then some (offset.toNat,(offset+dataSize-1).toNat) else none := by
  have hname : ¬ acceptEncoding.1 = bytes "Range" := by decide
  unfold downloadHeaders requestedRange
  split_ifs with h
  · simp only [List.find?_cons,hname,decide_false,decide_true,Option.bind_some]
    rw [rangeText_eq,parseRange?_text]
  · simp [hname]

/-- The last byte asked for, when the sum does not wrap. -/
theorem toNat_rangeEnd {offset dataSize : UInt64} (ho : 0 < offset.toNat)
    (hsum : offset.toNat+dataSize.toNat < 2^64) :
    (offset+dataSize-1).toNat = offset.toNat+dataSize.toNat-1 := by
  have hadd : (offset+dataSize).toNat = offset.toNat+dataSize.toNat := by
    rw [UInt64.toNat_add]
    exact Nat.mod_eq_of_lt hsum
  have hle : (1 : UInt64) ≤ offset+dataSize := by
    rw [UInt64.le_iff_toNat_le,hadd]
    exact le_trans ho (Nat.le_add_right _ _)
  rw [UInt64.toNat_sub_of_le _ _ hle,hadd]
  rfl

theorem clipped_rangeEnd (resource : Bytes) {offset dataSize : UInt64} (ho : 0 < offset.toNat)
    (hsum : offset.toNat+dataSize.toNat < 2^64) :
    clipped resource (offset.toNat,(offset+dataSize-1).toNat) =
      window resource offset.toNat dataSize.toNat := by
  rw [clipped,toNat_rangeEnd ho hsum]
  congr 1
  omega

end Ranges

theorem totalSize_le (dataSize contentLength : UInt64) :
    (totalSize dataSize contentLength).toNat ≤ dataSize.toNat := by
  unfold totalSize
  split_ifs with hunknown hlt
  · have h := contentLength.toNat_lt
    have hu : dataSize.toNat = 2^64-1 := by rw [hunknown]; rfl
    omega
  · exact (UInt64.lt_iff_toNat_lt.mp hlt).le
  · exact le_rfl

section Download

variable {url : Bytes} {sdk : Sdk} {http : Http} {size : Option UInt64} {offset : UInt64}
  {sslVerify : Option SslVerifyMode}

/-- The length a callback goes by. -/
def knownLength (answer : HostAnswer) : UInt64 :=
  if answer.contentLengthType ≠ contentLengthExist then unknownLength else answer.contentLength

/-- What the callback has done when it returns zero. -/
structure CbDone (sdk : Sdk) (args : CbArgs) (answer : HostAnswer) (after : CbArgs) : Prop where
  good : isGoodStatus answer.statusCode = true
  partialContent : args.wantPartial = true → answer.statusCode = 206
  announced : args.dataSize = unknownLength → answer.contentLengthType = contentLengthExist
  after_eq : after = { args with
    statusCode := answer.statusCode
    data := some (readLoop sdk.readData (args.chunk.getD 0)
      (totalSize args.dataSize (knownLength answer)).toNat 0
      (totalSize args.dataSize (knownLength answer)).toNat answer.body).1
    dataSize := totalSize args.dataSize (knownLength answer)
    actualSize := UInt64.ofNat (readLoop sdk.readData (args.chunk.getD 0)
      (totalSize args.dataSize (knownLength answer)).toNat 0
      (totalSize args.dataSize (knownLength answer)).toNat answer.body).1.length
    contentLength := knownLength answer }

theorem downloadFileCb_done {args after : CbArgs} {request : ℤ} {answer : HostAnswer}
    (h : downloadFileCb sdk args request answer.statusCode (announced answer).2
      (announced answer).1 answer.body = (0,after)) : CbDone sdk args answer after := by
  have hne : errorInvalidId ≠ 0 ∧ errorInvalidValue ≠ 0 ∧ errorNoContentLength ≠ 0 ∧
      errorOutOfMemory ≠ 0 := by decide
  unfold downloadFileCb at h
  dsimp only at h
  by_cases hrequest : request < 0
  · rw [if_pos hrequest] at h
    exact absurd (congrArg Prod.fst h) hne.1
  by_cases hgood : isGoodStatus answer.statusCode = true
  · have hann : announced answer = (answer.contentLengthType,answer.contentLength) := by
      rw [announced,if_pos hgood]
    rw [if_neg hrequest,if_neg (by simp [hgood]),hann] at h
    by_cases hranged : args.wantPartial = true ∧ answer.statusCode ≠ 206
    · rw [if_pos hranged] at h
      exact absurd (congrArg Prod.fst h) hne.2.1
    by_cases hlength : args.dataSize = unknownLength ∧ answer.contentLengthType ≠ contentLengthExist
    · rw [if_neg hranged,if_pos hlength] at h
      exact absurd (congrArg Prod.fst h) hne.2.2.1
    have hknown : (if answer.contentLengthType ≠ contentLengthExist then unknownLength
        else answer.contentLength) = knownLength answer := rfl
    rw [if_neg hranged,if_neg hlength] at h
    dsimp only at h
    rw [hknown] at h
    split_ifs at h with hchunk halloc
    · exact absurd (congrArg Prod.fst h) hne.2.1
    · exact absurd (congrArg Prod.fst h) hne.2.2.2
    · refine ⟨hgood,?_,?_,(congrArg Prod.snd h).symm⟩
      · intro hwant
        by_contra hstatus
        exact hranged ⟨hwant,hstatus⟩
      · intro hunknown
        by_contra htype
        exact hlength ⟨hunknown,htype⟩
  · rw [if_neg hrequest,if_pos (by simpa using hgood)] at h
    exact absurd (congrArg Prod.fst h) (show (404 : ℤ) ≠ 0 by decide)

/-- The bytes that a callback reads of a body. -/
def received (sdk : Sdk) (wanted : UInt64) (answer : HostAnswer) : Bytes :=
  (readLoop sdk.readData downloadChunkSize (totalSize wanted (knownLength answer)).toNat 0
    (totalSize wanted (knownLength answer)).toNat answer.body).1

theorem received_length_le (sdk : Sdk) (wanted : UInt64) (answer : HostAnswer) :
    (received sdk wanted answer).length ≤ (totalSize wanted (knownLength answer)).toNat :=
  readLoop_length_le _ _ _ _ _ _

theorem received_eq_take (sdk : Sdk) (wanted : UInt64) (answer : HostAnswer) :
    received sdk wanted answer = answer.body.take (received sdk wanted answer).length :=
  readLoop_eq_take _ _ _ _ _ _

theorem toNat_received_length (sdk : Sdk) (wanted : UInt64) (answer : HostAnswer) :
    (UInt64.ofNat (received sdk wanted answer).length).toNat =
      (received sdk wanted answer).length :=
  UInt64.toNat_ofNat_of_lt' ((received_length_le sdk wanted answer).trans_lt (UInt64.toNat_lt _))

/-- A successful download has been answered with a good status, with 206 if it asked for
a range, and hands back the beginning of the body. -/
theorem httpDownloadFile_some {f : Downloaded}
    (h : (httpDownloadFile url sdk http size offset sslVerify).value = some f) :
    ∃ answer, answer = sdk.host ⟨url,downloadHeaders (size.getD unknownLength) offset⟩ ∧
      isGoodStatus answer.statusCode = true ∧
      (wantsRange (size.getD unknownLength) offset = true → answer.statusCode = 206) ∧
      f = ⟨received sdk (size.getD unknownLength) answer,
        UInt64.ofNat (received sdk (size.getD unknownLength) answer).length,knownLength answer⟩ := by
  obtain ⟨args,hargs⟩ : ∃ args, args = CbArgs.new (size.getD unknownLength) (some downloadChunkSize)
    (wantsRange (size.getD unknownLength) offset) := ⟨_,rfl⟩
  obtain ⟨e,he⟩ : ∃ e, e = doRequest url (downloadHeaders (size.getD unknownLength) offset) args
    (downloadFileCb sdk args) sdk http sslVerify := ⟨_,rfl⟩
  have houtcome : Outcome url (downloadHeaders (size.getD unknownLength) offset) args
      (downloadFileCb sdk args) sdk e := he ▸ doRequest_outcome http sslVerify
  unfold httpDownloadFile at h
  dsimp only at h
  rw [← hargs,← he] at h
  split_ifs at h with h1 h2 h3 h4
  have hstatus : e.status = 0 := not_not.mp h3
  rcases houtcome with ⟨hfailed,-⟩ | ⟨request,-,hcb⟩
  · exact absurd hfailed h3
  have hdone := downloadFileCb_done (hcb.symm.trans (by rw [hstatus]))
  refine ⟨_,rfl,hdone.good,?_,?_⟩
  · intro hwants
    exact hdone.partialContent (by rw [hargs]; exact hwants)
  · rw [hdone.after_eq,hargs] at h
    exact (Option.some.inj h).symm

/-- A size that is handed back is the one that the host reports. -/
theorem httpGetFileSize_some {totalSize : UInt64}
    (h : (httpGetFileSize url sdk http sslVerify).value = some totalSize) :
    (sdk.host ⟨url,[]⟩).contentLengthType = contentLengthExist ∧
      (sdk.host ⟨url,[]⟩).contentLength = totalSize := by
  obtain ⟨args,hargs⟩ : ∃ args, args = CbArgs.new 0 none false := ⟨_,rfl⟩
  obtain ⟨e,he⟩ : ∃ e, e = doRequest url [] args (downloadFileCb sdk args) sdk http sslVerify :=
    ⟨_,rfl⟩
  have houtcome : Outcome url [] args (downloadFileCb sdk args) sdk e :=
    he ▸ doRequest_outcome http sslVerify
  unfold httpGetFileSize at h
  dsimp only at h
  rw [← hargs,← he] at h
  split_ifs at h with h1 h2 h3 h4
  have hstatus : e.status = 0 := not_not.mp h2
  rcases houtcome with ⟨hfailed,-⟩ | ⟨request,-,hcb⟩
  · exact absurd hstatus hfailed
  have hdone := downloadFileCb_done (hcb.symm.trans (by rw [hstatus]))
  have hknown : e.value.contentLength = knownLength (sdk.host ⟨url,[]⟩) := by rw [hdone.after_eq]
  rw [hknown] at h h4
  unfold knownLength at h h4
  split_ifs at h h4 with htype
  · exact absurd rfl h4
  · exact ⟨not_not.mp htype,Option.some.inj h⟩

/-- The body of a good answer begins with the bytes asked for. -/
theorem body_take {resource : Bytes} {answer : HostAnswer} (hcall : AsCalled size offset)
    (hhost : Serves resource sdk.host)
    (hanswer : answer = sdk.host ⟨url,downloadHeaders (size.getD unknownLength) offset⟩)
    (hgood : isGoodStatus answer.statusCode = true)
    (hranged : wantsRange (size.getD unknownLength) offset = true → answer.statusCode = 206)
    {n : ℕ} (hn : n ≤ (size.getD unknownLength).toNat) :
    answer.body.take n = window resource offset.toNat n := by
  have hserves := hhost ⟨url,downloadHeaders (size.getD unknownLength) offset⟩
  rw [← hanswer,requestedRange_download] at hserves
  by_cases hwants : wantsRange (size.getD unknownLength) offset = true
  · obtain ⟨range,hrange,hbody⟩ := hserves.2 (hranged hwants)
    have hpos := (wantsRange_iff _ _).mp hwants
    have hsum : offset.toNat+(size.getD unknownLength).toNat < 2^64 := by
      rcases hcall with ⟨hoffset,s,rfl,hs⟩ | ⟨rfl,-⟩
      · simp only [Option.getD_some]
        omega
      · exact absurd hpos.1 (by decide)
    rw [if_pos hwants,Option.some.injEq] at hrange
    rw [hbody,← hrange,clipped_rangeEnd resource hpos.1 hsum,window_take,min_eq_left hn]
  · rw [if_neg hwants] at hserves
    have hbody : answer.body = resource := by
      rcases (by simpa [isGoodStatus] using hgood :
        answer.statusCode = 200 ∨ answer.statusCode = 206) with hok | hok
      · exact hserves.1 hok
      · obtain ⟨range,hrange,-⟩ := hserves.2 hok
        exact absurd hrange (by simp)
    rw [wantsRange_iff,not_and_or,Nat.pos_iff_ne_zero,Nat.pos_iff_ne_zero,not_not,not_not] at hwants
    rcases hwants with hzero | hzero
    · rw [hbody,hzero,window_zero_left]
    · simp [window,Nat.le_zero.mp (hzero ▸ hn)]

/-- A download hands back the bytes of the resource from the offset on that it asked for,
as many as it says, and takes a 200 for a range as a failure. -/
theorem httpDownloadFile_window {resource : Bytes} (hcall : AsCalled size offset)
    (hhost : Serves resource sdk.host) :
    (∀ f, (httpDownloadFile url sdk http size offset sslVerify).value = some f →
      f.dataSize ≤ size.getD unknownLength ∧
        f.data = window resource offset.toNat f.dataSize.toNat ∧
        f.data.length = f.dataSize.toNat) ∧
    (wantsRange (size.getD unknownLength) offset = true →
      (sdk.host ⟨url,downloadHeaders (size.getD unknownLength) offset⟩).statusCode = 200 →
      (httpDownloadFile url sdk http size offset sslVerify).value = none) := by
  constructor
  · intro f hf
    obtain ⟨answer,hanswer,hgood,hranged,rfl⟩ := httpDownloadFile_some hf
    have hle : (received sdk (size.getD unknownLength) answer).length ≤
        (size.getD unknownLength).toNat :=
      (received_length_le _ _ _).trans (totalSize_le _ _)
    simp only [UInt64.le_iff_toNat_le,toNat_received_length]
    refine ⟨hle,?_,trivial⟩
    rw [← body_take hcall hhost hanswer hgood hranged hle]
    exact received_eq_take _ _ _
  · intro hwants hok
    rcases hvalue : (httpDownloadFile url sdk http size offset sslVerify).value with _ | f
    · rfl
    obtain ⟨answer,hanswer,-,hranged,-⟩ := httpDownloadFile_some hvalue
    rw [← hanswer] at hok
    exact absurd (hok.symm.trans (hranged hwants)) (by decide)

/-- Calls that all work, with a host at the other end. -/
def workingSdk (host : HostRequest → HostAnswer) : Sdk where
  createTemplate := 1
  disableOption := 0
  enableOption := 0
  createConnection := 1
  createRequest := 1
  addRequestHeader := fun _ => 0
  sendRequest := 0
  lastErrno := none
  getStatusCode := 0
  getContentLength := 0
  allocated := fun _ => true
  readData := fun _ => 16384
  host := host

/-- A host that honours ranges and announces what it sends. -/
def rangeHost (resource : Bytes) (request : HostRequest) : HostAnswer :=
  match requestedRange request with
  | none => ⟨200,contentLengthExist,UInt64.ofNat resource.length,resource⟩
  | some range =>
    ⟨206,contentLengthExist,UInt64.ofNat (clipped resource range).length,clipped resource range⟩

theorem rangeHost_serves (resource : Bytes) : Serves resource (rangeHost resource) := by
  intro request
  have hne : (200 : ℤ) ≠ 206 := by decide
  unfold rangeHost
  cases requestedRange request with
  | none => exact ⟨fun _ => rfl,fun h => absurd h hne⟩
  | some range => exact ⟨fun h => absurd h.symm hne,fun _ => ⟨range,rfl,rfl⟩⟩

/-- Of five bytes the two that there are from the fourth one on, out of three asked for. -/
theorem httpDownloadFile_window_example :
    ∃ f, (httpDownloadFile (bytes "http://h/") (workingSdk (rangeHost [1,2,3,4,5]))
        { Http.fresh with initialized := true } (some 3) 3 (some .on)).value = some f ∧
      f.dataSize ≤ 3 ∧ f.data = window [1,2,3,4,5] 3 f.dataSize.toNat ∧
      f.data.length = f.dataSize.toNat := by
  have hcall : AsCalled (some 3) 3 := Or.inl ⟨by decide,3,rfl,by decide⟩
  have hvalue : (httpDownloadFile (bytes "http://h/") (workingSdk (rangeHost [1,2,3,4,5]))
      { Http.fresh with initialized := true } (some 3) 3 (some .on)).value =
        some ⟨[4,5],2,2⟩ := by decide +kernel
  exact ⟨_,hvalue,(httpDownloadFile_window hcall (rangeHost_serves [1,2,3,4,5])).1 _ hvalue⟩

end Download

end Downloads
end RemotePkgInstaller
