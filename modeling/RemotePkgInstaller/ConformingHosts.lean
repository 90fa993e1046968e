import RemotePkgInstaller.Downloads

/-! Transfers with every call working, from hosts that honour ranges and announce the
length of what they send. -/
namespace RemotePkgInstaller
namespace ConformingHosts

open Downloads HttpState HttpTransfer TransferLoop

/-- No call fails, and every read delivers something while there is something left. -/
structure Works (sdk : Sdk) : Prop where
  createTemplate : 0 ≤ sdk.createTemplate
  enableOption : sdk.enableOption = 0
  createConnection : 0 ≤ sdk.createConnection
  createRequest : 0 ≤ sdk.createRequest
  addRequestHeader : ∀ i, sdk.addRequestHeader i = 0
  sendRequest : sdk.sendRequest = 0
  getStatusCode : 0 ≤ sdk.getStatusCode
  getContentLength : sdk.getContentLength = 0
  allocated : ∀ size, sdk.allocated size = true
  readData : ∀ i, 0 < sdk.readData i

/-- The answers to one URL serve a resource: the whole of it with 200, a range of it with
206, and a range outside it with 416. -/
structure Conforms (network : HostRequest → HostAnswer) (url resource : Bytes) : Prop where
  whole : ∀ headers, requestedRange ⟨url,headers⟩ = none →
    (network ⟨url,headers⟩).statusCode = 200 ∧
    (network ⟨url,headers⟩).contentLengthType = contentLengthExist ∧
    (network ⟨url,headers⟩).contentLength.toNat = resource.length ∧
    (network ⟨url,headers⟩).body = resource
  inside : ∀ headers range, requestedRange ⟨url,headers⟩ = some range → range.1 < resource.length →
    (network ⟨url,headers⟩).statusCode = 206 ∧
    (network ⟨url,headers⟩).contentLengthType = contentLengthExist ∧
    (network ⟨url,headers⟩).contentLength.toNat = (clipped resource range).length ∧
    (network ⟨url,headers⟩).body = clipped resource range
  outside : ∀ headers range, requestedRange ⟨url,headers⟩ = some range → resource.length ≤ range.1 →
    (network ⟨url,headers⟩).statusCode = 416

section Requests

variable {α : Type} {url : Bytes} {headers : List (Bytes × Bytes)} {init : α} {cb : Callback α}
  {mode : SslVerifyMode} {sdk : Sdk} {http : Http} {sslVerify : Option SslVerifyMode}

theorem addHeaders_works (h : Works sdk) (request : ℤ) (i : ℕ) (headers : List (Bytes × Bytes)) :
    (addHeaders sdk request i headers).1 = 0 := by
  induction headers generalizing i with
  | nil => rfl
  | cons header headers ih =>
    rw [addHeaders,if_neg (not_not.mpr (h.addRequestHeader i))]
    exact ih (i+1)

/-- The request has gone through, and ends as its callback does. -/
structure Completed (url : Bytes) (headers : List (Bytes × Bytes)) (cb : Callback α) (sdk : Sdk)
    (http : Http) (e : Exchange α) : Prop where
  http_eq : e.http = http
  result : (e.status,e.value) = cb sdk.createRequest (sdk.host ⟨url,headers⟩).statusCode
    (announced (sdk.host ⟨url,headers⟩)).2 (announced (sdk.host ⟨url,headers⟩)).1
    (sdk.host ⟨url,headers⟩).body

theorem useRequest_works (h : Works sdk) : Completed url headers cb sdk http
    (useRequest url headers init cb mode sdk http sdk.createRequest) := by
  have hadded := addHeaders_works h sdk.createRequest 0 headers
  have hlength : ¬ (isGoodStatus (sdk.host ⟨url,headers⟩).statusCode = true ∧
      sdk.getContentLength ≠ 0) := fun hboth => hboth.2 h.getContentLength
  unfold useRequest receive
  dsimp only
  rw [if_neg (not_not.mpr hadded),if_neg (not_not.mpr h.sendRequest),
    if_neg (not_lt.mpr h.getStatusCode),if_neg hlength]
  exact ⟨rfl,rfl⟩

theorem Completed.after {e : Exchange α} (h : Completed url headers cb sdk http e)
    (calls : List SdkCall) : Completed url headers cb sdk http (e.after calls) :=
  ⟨h.http_eq,h.result⟩

theorem Completed.andThen {e : Exchange α} (h : Completed url headers cb sdk http e)
    (calls : List SdkCall) : Completed url headers cb sdk http (e.andThen calls) :=
  ⟨h.http_eq,h.result⟩

theorem useConnection_works (h : Works sdk) (connection : ℤ) : Completed url headers cb sdk http
    (useConnection url headers init cb mode sdk http connection) := by
  unfold useConnection
  rw [if_neg (not_lt.mpr h.createRequest)]
  exact ((useRequest_works h).after _).andThen _

theorem applySslOptions_works (h : Works sdk) (template : ℤ) :
    (applySslOptions http template url mode sdk).http = http ∧
      (applySslOptions http template url mode sdk).value = true := by
  cases mode with
  | off => exact ⟨rfl,rfl⟩
  | on =>
    rw [applySslOptions]
    rw [if_neg (not_not.mpr h.enableOption)]
    exact ⟨rfl,rfl⟩

theorem useTemplate_works (h : Works sdk) (template : ℤ) : Completed url headers cb sdk http
    (useTemplate url headers init cb mode sdk http template) := by
  obtain ⟨hhttp,harmed⟩ := @applySslOptions_works url mode sdk http h template
  unfold useTemplate
  dsimp only
  rw [if_neg (by simp [harmed]),if_neg (not_lt.mpr h.createConnection),hhttp]
  exact ((useConnection_works h _).after _).andThen _

theorem doRequest_works (h : Works sdk) : Completed url headers cb sdk (httpClearLastError http)
    (doRequest url headers init cb sdk http sslVerify) := by
  unfold doRequest
  dsimp only
  rw [if_neg (not_lt.mpr h.createTemplate)]
  exact ((useTemplate_works h _).after _).andThen _

end Requests

section Downloads

variable {url : Bytes} {sdk : Sdk} {http : Http} {size offset : UInt64}
  {sslVerify : Option SslVerifyMode} {resource : Bytes} {answer : HostAnswer}

theorem totalSize_toNat {wanted : UInt64} (h : wanted ≠ unknownLength) (contentLength : UInt64) :
    (totalSize wanted contentLength).toNat = min wanted.toNat contentLength.toNat := by
  unfold totalSize
  rw [if_neg h]
  split_ifs with hlt
  · exact (min_eq_right (UInt64.lt_iff_toNat_lt.mp hlt).le).symm
  · exact (min_eq_left (not_lt.mp fun h => hlt (UInt64.lt_iff_toNat_lt.mpr h))).symm

theorem totalSize_zero (contentLength : UInt64) : totalSize 0 contentLength = 0 := by
  have h := totalSize_toNat (show (0 : UInt64) ≠ unknownLength by decide) contentLength
  exact UInt64.toNat_inj.mp (h.trans (Nat.zero_min _))

/-- What the callback does with an answer that has what it wants. -/
theorem downloadFileCb_works (h : Works sdk) {args : CbArgs}
    (hgood : isGoodStatus answer.statusCode = true)
    (hranged : args.wantPartial = true → answer.statusCode = 206)
    (htype : answer.contentLengthType = contentLengthExist)
    (hchunk : 0 < totalSize args.dataSize answer.contentLength → ∃ n, 0 < n ∧ args.chunk = some n) :
    downloadFileCb sdk args sdk.createRequest answer.statusCode (announced answer).2
      (announced answer).1 answer.body = (0,{ args with
        statusCode := answer.statusCode
        data := some (answer.body.take (totalSize args.dataSize answer.contentLength).toNat)
        dataSize := totalSize args.dataSize answer.contentLength
        actualSize := UInt64.ofNat
          (answer.body.take (totalSize args.dataSize answer.contentLength).toNat).length
        contentLength := answer.contentLength }) := by
  have hann : announced answer = (answer.contentLengthType,answer.contentLength) := by
    rw [announced,if_pos hgood]
  have hloop : readLoop sdk.readData (args.chunk.getD 0)
      (totalSize args.dataSize answer.contentLength).toNat 0
      (totalSize args.dataSize answer.contentLength).toNat answer.body =
      (answer.body.take (totalSize args.dataSize answer.contentLength).toNat,0) := by
    by_cases hzero : 0 < totalSize args.dataSize answer.contentLength
    · obtain ⟨n,hn,hsome⟩ := hchunk hzero
      rw [hsome]
      exact readLoop_full _ _ _ _ _ _ h.readData hn le_rfl
    · have htotal : (totalSize args.dataSize answer.contentLength).toNat = 0 :=
        Nat.eq_zero_of_not_pos fun hpos => hzero (UInt64.lt_iff_toNat_lt.mpr hpos)
      rw [htotal]
      rfl
  have hsome : ¬ (0 < totalSize args.dataSize answer.contentLength ∧ args.chunk = none) := by
    rintro ⟨hpos,hnone⟩
    obtain ⟨n,-,hsome⟩ := hchunk hpos
    rw [hsome] at hnone
    exact absurd hnone (by simp)
  unfold downloadFileCb
  dsimp only
  rw [if_neg (not_lt.mpr h.createRequest),if_neg (by simp [hgood]),
    if_neg (fun hboth => hboth.2 (hranged hboth.1)),hann]
  dsimp only
  rw [htype,if_neg (fun hboth => hboth.2 rfl),if_neg (not_not.mpr rfl),if_neg hsome,
    if_neg (by simp [h.allocated]),hloop]

theorem downloadChunkSize_pos : 0 < downloadChunkSize := by decide

theorem httpDownloadFile_good (h : Works sdk) (hinit : http.initialized = true)
    (hanswer : sdk.host ⟨url,downloadHeaders size offset⟩ = answer)
    (hgood : isGoodStatus answer.statusCode = true)
    (hranged : wantsRange size offset = true → answer.statusCode = 206)
    (htype : answer.contentLengthType = contentLengthExist) :
    (httpDownloadFile url sdk http (some size) offset sslVerify).http = httpClearLastError http ∧
    (httpDownloadFile url sdk http (some size) offset sslVerify).value =
      some ⟨answer.body.take (totalSize size answer.contentLength).toNat,
        UInt64.ofNat (answer.body.take (totalSize size answer.contentLength).toNat).length,
        answer.contentLength⟩ := by
  obtain ⟨args,hargs⟩ : ∃ args, args = CbArgs.new size (some downloadChunkSize)
    (wantsRange size offset) := ⟨_,rfl⟩
  obtain ⟨e,he⟩ : ∃ e, e = doRequest url (downloadHeaders size offset) args
    (downloadFileCb sdk args) sdk http sslVerify := ⟨_,rfl⟩
  have hdone : Completed url (downloadHeaders size offset) (downloadFileCb sdk args) sdk
      (httpClearLastError http) e := he ▸ doRequest_works h
  have hresult := hdone.result
  rw [hanswer,downloadFileCb_works h hgood (by rw [hargs]; exact hranged) htype
    (fun _ => ⟨_,downloadChunkSize_pos,by rw [hargs]; rfl⟩),Prod.mk.injEq] at hresult
  have hdata : args.dataSize = size := by rw [hargs]; rfl
  have hignored : args.rangeIgnored = false := by rw [hargs]; rfl
  unfold httpDownloadFile
  dsimp only [Option.getD_some]
  rw [← hargs,← he,if_neg (by simp [hinit])]
  rw [if_neg (by rw [hresult.2]; simp [hignored]),if_neg (not_not.mpr hresult.1),
    if_neg (by rw [hresult.2]; simp [hgood])]
  refine ⟨hdone.http_eq,?_⟩
  rw [hresult.2,hdata]
  rfl

theorem httpDownloadFile_refused (hanswer : sdk.host ⟨url,downloadHeaders size offset⟩ = answer)
    (hbad : isGoodStatus answer.statusCode = false) :
    (httpDownloadFile url sdk http (some size) offset sslVerify).value = none := by
  rcases hvalue : (httpDownloadFile url sdk http (some size) offset sslVerify).value with _ | f
  · rfl
  obtain ⟨answer',hanswer',hgood,-,-⟩ := httpDownloadFile_some hvalue
  rw [Option.getD_some,hanswer] at hanswer'
  rw [hanswer',hbad] at hgood
  exact absurd hgood (by decide)

/-- What a transfer gives of a body that the host declares as long as it is. -/
theorem httpDownloadFile_body (h : Works sdk) (hinit : http.initialized = true)
    (hunknown : size ≠ unknownLength) {body : Bytes}
    (hgood : isGoodStatus (sdk.host ⟨url,downloadHeaders size offset⟩).statusCode = true)
    (hranged : wantsRange size offset = true →
      (sdk.host ⟨url,downloadHeaders size offset⟩).statusCode = 206)
    (hdeclared : (sdk.host ⟨url,downloadHeaders size offset⟩).contentLengthType =
        contentLengthExist ∧
      (sdk.host ⟨url,downloadHeaders size offset⟩).contentLength.toNat = body.length ∧
      (sdk.host ⟨url,downloadHeaders size offset⟩).body = body) :
    (httpDownloadFile url sdk http (some size) offset sslVerify).http = httpClearLastError http ∧
      (httpDownloadFile url sdk http (some size) offset sslVerify).value =
        some ⟨body.take size.toNat,UInt64.ofNat (body.take size.toNat).length,
          (sdk.host ⟨url,downloadHeaders size offset⟩).contentLength⟩ := by
  obtain ⟨htype,hlength,hbody⟩ := hdeclared
  obtain ⟨hhttp,hvalue⟩ := @httpDownloadFile_good url sdk http size offset sslVerify _ h hinit rfl
    hgood hranged htype
  refine ⟨hhttp,?_⟩
  rw [hvalue,hbody,totalSize_toNat hunknown,hlength,← List.take_eq_take_min]

/-- The window that a conforming host and a working console transfer for a request. -/
theorem httpDownloadFile_conforms (h : Works sdk) (hinit : http.initialized = true)
    (hhost : Conforms sdk.host url resource) (hoffset : offset.toNat < 2^32)
    (hsize : 0 < size.toNat) (hbound : size.toNat < 2^38) :
    if offset = 0 ∨ offset.toNat < resource.length then
      ∃ contentLength : UInt64, (offset = 0 → contentLength.toNat = resource.length) ∧
        (httpDownloadFile url sdk http (some size) offset sslVerify).http =
          httpClearLastError http ∧
        (httpDownloadFile url sdk http (some size) offset sslVerify).value =
          some ⟨window resource offset.toNat size.toNat,
            UInt64.ofNat (window resource offset.toNat size.toNat).length,contentLength⟩
    else (httpDownloadFile url sdk http (some size) offset sslVerify).value = none := by
  have hunknown : size ≠ unknownLength := by
    rintro rfl
    exact absurd hbound (by decide)
  have hrange := requestedRange_download url size offset
  by_cases hzero : offset = 0
  · have hwants : ¬ wantsRange size offset = true := by
      rw [wantsRange_iff,hzero]
      exact fun hboth => absurd hboth.1 (by decide)
    rw [if_neg hwants] at hrange
    obtain ⟨hstatus,hdeclared⟩ := hhost.whole _ hrange
    obtain ⟨hhttp,hvalue⟩ := @httpDownloadFile_body url sdk http size offset sslVerify h hinit
      hunknown resource (by rw [hstatus]; rfl) (fun hw => absurd hw hwants) hdeclared
    have htake : resource.take size.toNat = window resource offset.toNat size.toNat := by
      rw [hzero]
      exact (window_zero_left _ _).symm
    rw [if_pos (Or.inl hzero)]
    exact ⟨_,fun _ => hdeclared.2.1,hhttp,htake ▸ hvalue⟩
  · have hpos : 0 < offset.toNat :=
      Nat.pos_of_ne_zero fun h0 => hzero (UInt64.toNat_inj.mp h0)
    rw [if_pos ((wantsRange_iff _ _).mpr ⟨hpos,hsize⟩)] at hrange
    by_cases hinside : offset.toNat < resource.length
    · obtain ⟨hstatus,hdeclared⟩ := hhost.inside _ _ hrange hinside
      rw [clipped_rangeEnd resource hpos (by omega)] at hdeclared
      obtain ⟨hhttp,hvalue⟩ := @httpDownloadFile_body url sdk http size offset sslVerify h hinit
        hunknown _ (by rw [hstatus]; rfl) (fun _ => hstatus) hdeclared
      have htake : (window resource offset.toNat size.toNat).take size.toNat =
          window resource offset.toNat size.toNat := by
        refine List.take_of_length_le ?_
        rw [window_length]
        exact min_le_left _ _
      rw [if_pos (Or.inr hinside)]
      exact ⟨_,fun h0 => absurd h0 hzero,hhttp,htake ▸ hvalue⟩
    · have hstatus := hhost.outside _ _ hrange (not_lt.mp hinside)
      rw [if_neg (not_or.mpr ⟨hzero,hinside⟩)]
      exact httpDownloadFile_refused rfl (by rw [hstatus]; rfl)

/-- A transfer of exactly what is asked for, which is how the headers are read. -/
theorem httpDownloadFile_exact (h : Works sdk) (hinit : http.initialized = true)
    (hhost : Conforms sdk.host url resource) (hoffset : offset.toNat < 2^32)
    (hsize : 0 < size.toNat) (hbound : size.toNat < 2^38) :
    if offset.toNat+size.toNat ≤ resource.length then
      ∃ contentLength : UInt64, (offset = 0 → contentLength.toNat = resource.length) ∧
        (httpDownloadFile url sdk http (some size) offset sslVerify).http =
          httpClearLastError http ∧
        (httpDownloadFile url sdk http (some size) offset sslVerify).value =
          some ⟨window resource offset.toNat size.toNat,size,contentLength⟩
    else ∀ f, (httpDownloadFile url sdk http (some size) offset sslVerify).value = some f →
      f.dataSize ≠ size := by
  have hcases := @httpDownloadFile_conforms url sdk http size offset sslVerify resource h hinit hhost
    hoffset hsize hbound
  have hlength := window_length resource offset.toNat size.toNat
  have hlt : (window resource offset.toNat size.toNat).length < 2^64 := by omega
  by_cases hfits : offset.toNat+size.toNat ≤ resource.length
  · have hinside : offset = 0 ∨ offset.toNat < resource.length := Or.inr (by omega)
    rw [if_pos hinside] at hcases
    rw [if_pos hfits]
    have hfull : UInt64.ofNat (window resource offset.toNat size.toNat).length = size := by
      refine UInt64.toNat_inj.mp ?_
      rw [UInt64.toNat_ofNat_of_lt' hlt]
      omega
    rw [hfull] at hcases
    exact hcases
  · rw [if_neg hfits]
    intro f hf hfull
    by_cases hinside : offset = 0 ∨ offset.toNat < resource.length
    · rw [if_pos hinside] at hcases
      obtain ⟨contentLength,-,-,hvalue⟩ := hcases
      rw [hf,Option.some.injEq] at hvalue
      have hdata := congrArg (fun g : Downloaded => g.dataSize.toNat) hvalue
      simp only [hfull,UInt64.toNat_ofNat_of_lt' hlt] at hdata
      have hzero : offset.toNat ≤ resource.length := by
        rcases hinside with h0 | h0
        · rw [h0]; exact Nat.zero_le _
        · exact h0.le
      omega
    · rw [if_neg hinside,hf] at hcases
      exact absurd hcases (by simp)

/-- The size of a piece, unless it is the value that stands for an unknown one. -/
theorem httpGetFileSize_conforms (h : Works sdk) (hinit : http.initialized = true)
    (hhost : Conforms sdk.host url resource) :
    if resource.length = unknownLength.toNat then
      (httpGetFileSize url sdk http sslVerify).value = none
    else (httpGetFileSize url sdk http sslVerify).http = httpClearLastError http ∧
      ∃ size : UInt64, size.toNat = resource.length ∧
        (httpGetFileSize url sdk http sslVerify).value = some size := by
  obtain ⟨args,hargs⟩ : ∃ args, args = CbArgs.new 0 none false := ⟨_,rfl⟩
  obtain ⟨e,he⟩ : ∃ e, e = doRequest url [] args (downloadFileCb sdk args) sdk http sslVerify :=
    ⟨_,rfl⟩
  obtain ⟨answer,hanswer⟩ : ∃ answer, answer = sdk.host ⟨url,[]⟩ := ⟨_,rfl⟩
  obtain ⟨hstatus,htype,hlength,-⟩ := hhost.whole [] rfl
  rw [← hanswer] at hstatus htype hlength
  have hgood : isGoodStatus answer.statusCode = true := by rw [hstatus]; rfl
  have hdone : Completed url [] (downloadFileCb sdk args) sdk (httpClearLastError http) e :=
    he ▸ doRequest_works h
  have hresult := hdone.result
  have hwanted : args.dataSize = 0 := by rw [hargs]; rfl
  rw [← hanswer,downloadFileCb_works h hgood (by rw [hargs]; exact fun hw => absurd hw (by decide))
    htype (fun hpos => by
      rw [hwanted,totalSize_zero] at hpos
      exact absurd hpos (by decide)),Prod.mk.injEq] at hresult
  have hstatusCode : e.value.statusCode = answer.statusCode := by rw [hresult.2]
  have hknown : e.value.contentLength = answer.contentLength := by rw [hresult.2]
  unfold httpGetFileSize
  dsimp only
  rw [← hargs,← he]
  simp only [hinit,hresult.1,hstatusCode,hgood,hknown,ne_eq,not_true_eq_false,if_false]
  by_cases hunknown : answer.contentLength = unknownLength
  · rw [if_pos (by rw [← hlength,hunknown])]
    simp only [hunknown,if_true,Bool.true_eq_false,if_false]
  · rw [if_neg (fun heq => hunknown (UInt64.toNat_inj.mp (hlength.trans heq)))]
    simp only [hunknown,Bool.true_eq_false,if_false]
    exact ⟨hdone.http_eq,_,hlength,rfl⟩

end Downloads

end ConformingHosts
end RemotePkgInstaller
