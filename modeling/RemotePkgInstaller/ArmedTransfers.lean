import RemotePkgInstaller.HttpTransfer

/-! What a transfer does to the state and in which order it calls libhttp: it leaves
nothing behind but the text of an error, and with verification on it sends its request on
a connection from a template on which the checks are enabled. -/
namespace RemotePkgInstaller
namespace ArmedTransfers

open HttpState HttpTransfer

/-- The two states differ in the text of the last error at most. -/
def OnlyLastError (http http' : Http) : Prop := ∃ text, http' = { http with lastError := text }

theorem OnlyLastError.sslVerifyMode {http http' : Http} (h : OnlyLastError http http') :
    http'.sslVerifyMode = http.sslVerifyMode := by
  obtain ⟨text,rfl⟩ := h
  rfl

theorem onlyLastError_refl (http : Http) : OnlyLastError http http := ⟨http.lastError,rfl⟩

theorem OnlyLastError.setLastError {http http' : Http} (h : OnlyLastError http http') (text : Bytes) :
    OnlyLastError http (http'.setLastError text) := by
  obtain ⟨_,rfl⟩ := h
  exact ⟨_,rfl⟩

/-- The call sends a request. -/
def isSend : SdkCall → Bool
  | .sendRequest _ => true
  | _ => false

def NoSend (calls : List SdkCall) : Prop := ∀ c ∈ calls, isSend c = false

theorem noSend_append {calls calls' : List SdkCall} (h : NoSend calls) (h' : NoSend calls') :
    NoSend (calls++calls') := by
  intro c hc
  rcases List.mem_append.mp hc with hc | hc
  · exact h c hc
  · exact h' c hc

/-- If the request is sent, then once, and behind these calls. -/
inductive Sends (request : ℤ) (before : List SdkCall) : List SdkCall → Prop
  | never {calls : List SdkCall} (h : NoSend calls) : Sends request before calls
  | once {after : List SdkCall} (hbefore : NoSend before) (hafter : NoSend after) :
      Sends request before (before++.sendRequest request::after)

theorem Sends.around {request : ℤ} {before calls : List SdkCall}
    (h : Sends request before calls) (first last : List SdkCall) (hfirst : NoSend first) (hlast : NoSend last) :
    Sends request (first++before) (first++calls++last) := by
  cases h with
  | never h => exact .never (noSend_append (noSend_append hfirst h) hlast)
  | @once after hbefore hafter =>
    have heq : first++(before++.sendRequest request::after)++last =
        (first++before)++.sendRequest request::(after++last) := by simp
    rw [heq]
    exact .once (noSend_append hfirst hbefore) (noSend_append hafter hlast)

/-- Of calls without another request, what precedes the request is determined. -/
theorem Sends.before_eq {request : ℤ} {before calls : List SdkCall} (h : Sends request before calls)
    {first last : List SdkCall} {r : ℤ} (heq : calls = first++.sendRequest r::last) :
    first = before ∧ r = request := by
  cases h with
  | never h =>
    have hmem : SdkCall.sendRequest r ∈ calls := by simp [heq]
    exact absurd (h _ hmem) (by simp [isSend])
  | once hbefore hafter =>
    rcases List.append_eq_append_iff.mp heq with ⟨middle,hfirst,hrest⟩ | ⟨middle,hfirst,hrest⟩
    · cases middle with
      | nil =>
        simp only [List.nil_append,List.cons.injEq,SdkCall.sendRequest.injEq] at hrest
        exact ⟨by simpa using hfirst,hrest.1.symm⟩
      | cons c middle =>
        simp only [List.cons_append,List.cons.injEq] at hrest
        have hmem : SdkCall.sendRequest r ∈ middle++.sendRequest r::last := by simp
        exact absurd (hafter _ (hrest.2 ▸ hmem)) (by simp [isSend])
    · cases middle with
      | nil =>
        simp only [List.nil_append,List.cons.injEq,SdkCall.sendRequest.injEq] at hrest
        exact ⟨by simpa using hfirst.symm,hrest.1⟩
      | cons c middle =>
        simp only [List.cons_append,List.cons.injEq] at hrest
        have hmem : SdkCall.sendRequest r ∈ before := by simp [hfirst,← hrest.1]
        exact absurd (hbefore _ hmem) (by simp [isSend])

section Requests

variable {α : Type} {url : Bytes} {headers : List (Bytes × Bytes)} {init : α} {cb : Callback α}
  {mode : SslVerifyMode} {sdk : Sdk} {http : Http}

/-- The headers that are added to a request. -/
def HeaderCalls (request : ℤ) (calls : List SdkCall) : Prop :=
  ∀ c ∈ calls, ∃ name value, c = .addRequestHeader request name value

theorem addHeaders_calls (request : ℤ) (i : ℕ) :
    HeaderCalls request (addHeaders sdk request i headers).2 := by
  induction headers generalizing i with
  | nil => simp [addHeaders,HeaderCalls]
  | cons header headers ih =>
    unfold addHeaders
    split_ifs
    · simp [HeaderCalls]
    · intro c hc
      rcases List.mem_cons.mp hc with rfl | hc
      · exact ⟨_,_,rfl⟩
      · exact ih (i+1) c hc

theorem HeaderCalls.noSend {request : ℤ} {calls : List SdkCall} (h : HeaderCalls request calls) :
    NoSend calls := by
  intro c hc
  obtain ⟨name,value,rfl⟩ := h c hc
  rfl

theorem receive_calls (request : ℤ) :
    OnlyLastError http (receive url headers init cb sdk http request).http ∧
      NoSend (receive url headers init cb sdk http request).calls := by
  unfold receive
  dsimp only
  refine ⟨by split_ifs <;> exact onlyLastError_refl _,?_⟩
  split_ifs <;> simp [NoSend,isSend]

theorem useRequest_calls (request : ℤ) :
    OnlyLastError http (useRequest url headers init cb mode sdk http request).http ∧
      Sends request (addHeaders sdk request 0 headers).2
        (useRequest url headers init cb mode sdk http request).calls := by
  have hadded := (@addHeaders_calls headers sdk request 0).noSend
  obtain ⟨hhttp,hreceive⟩ := @receive_calls α url headers init cb sdk http request
  unfold useRequest
  dsimp only
  split_ifs
  · exact ⟨onlyLastError_refl _,.never hadded⟩
  · exact ⟨(onlyLastError_refl _).setLastError _,.once hadded (by simp [NoSend,isSend])⟩
  · refine ⟨hhttp,?_⟩
    rw [Exchange.after,List.append_assoc,List.singleton_append]
    exact .once hadded hreceive

/-- What precedes the request on a connection from the template. -/
def connectionCalls (url : Bytes) (headers : List (Bytes × Bytes)) (sdk : Sdk) : List SdkCall :=
  [.createConnection sdk.createTemplate url,.createRequest sdk.createConnection url]++
    (addHeaders sdk sdk.createRequest 0 headers).2

/-- The checks of the server, and none on the client's own certificate. -/
def armingCalls (sdk : Sdk) : List SdkCall :=
  [.disableOption sdk.createTemplate sslClientVerify,
    .enableOption sdk.createTemplate sslServerChecks]

theorem useConnection_calls :
    OnlyLastError http (useConnection url headers init cb mode sdk http sdk.createConnection).http ∧
      Sends sdk.createRequest
        (.createRequest sdk.createConnection url::(addHeaders sdk sdk.createRequest 0 headers).2)
        (useConnection url headers init cb mode sdk http sdk.createConnection).calls := by
  obtain ⟨hhttp,hsends⟩ := @useRequest_calls α url headers init cb mode sdk http sdk.createRequest
  unfold useConnection
  split_ifs
  · exact ⟨onlyLastError_refl _,.never (by simp [NoSend,isSend])⟩
  · exact ⟨hhttp,hsends.around [.createRequest sdk.createConnection url]
      [.deleteRequest sdk.createRequest] (by simp [NoSend,isSend]) (by simp [NoSend,isSend])⟩

theorem useTemplate_onlyLastError :
    OnlyLastError http (useTemplate url headers init cb mode sdk http sdk.createTemplate).http := by
  have harmed : OnlyLastError http (applySslOptions http sdk.createTemplate url mode sdk).http := by
    unfold applySslOptions
    cases mode with
    | off => exact onlyLastError_refl _
    | on =>
      dsimp only
      split_ifs
      · exact (onlyLastError_refl _).setLastError _
      · exact onlyLastError_refl _
  unfold useTemplate
  dsimp only
  split_ifs
  · exact harmed
  · exact harmed
  · obtain ⟨text,htext⟩ := harmed
    obtain ⟨text',htext'⟩ := (@useConnection_calls α url headers init cb mode sdk
      (applySslOptions http sdk.createTemplate url mode sdk).http).1
    exact ⟨text',by rw [Exchange.andThen_http,Exchange.after_http,htext',htext]⟩

/-- With verification on, a request that is sent is sent on an armed connection. -/
theorem useTemplate_sends :
    (sdk.enableOption = 0 ∧ Sends sdk.createRequest (armingCalls sdk++connectionCalls url headers sdk)
      (useTemplate url headers init cb .on sdk http sdk.createTemplate).calls) ∨
    NoSend (useTemplate url headers init cb .on sdk http sdk.createTemplate).calls := by
  unfold useTemplate applySslOptions
  dsimp only
  by_cases henable : sdk.enableOption = 0
  · refine Or.inl ⟨henable,?_⟩
    rw [if_neg (not_not.mpr henable)]
    dsimp only
    rw [if_neg (by decide)]
    split_ifs
    · exact .never (by simp [NoSend,isSend])
    · obtain ⟨_,hsends⟩ := @useConnection_calls α url headers init cb .on sdk http
      exact hsends.around (armingCalls sdk++[.createConnection sdk.createTemplate url])
        [.deleteConnection sdk.createConnection] (by simp [NoSend,isSend,armingCalls])
        (by simp [NoSend,isSend])
  · refine Or.inr ?_
    rw [if_pos henable]
    simp [NoSend,isSend]

theorem doRequest_onlyLastError (sslVerify : Option SslVerifyMode) :
    OnlyLastError http (doRequest url headers init cb sdk http sslVerify).http := by
  unfold doRequest
  dsimp only
  split_ifs
  · exact ⟨_,rfl⟩
  · obtain ⟨text,htext⟩ := @useTemplate_onlyLastError α url headers init cb
      (resolveMode (httpClearLastError http) sslVerify) sdk (httpClearLastError http)
    exact ⟨text,by rw [Exchange.andThen_http,Exchange.after_http,htext]; rfl⟩

end Requests

/-- Before a request is sent, the full set of server checks has been enabled on the template
that its connection is created from. -/
def ArmedBeforeSending (sdk : Sdk) (calls : List SdkCall) : Prop :=
  ∀ before request after, calls = before++.sendRequest request::after →
    sdk.enableOption = 0 ∧ request = sdk.createRequest ∧ ∃ url added,
      HeaderCalls sdk.createRequest added ∧
      before = [.createTemplate,.disableOption sdk.createTemplate sslClientVerify,
        .enableOption sdk.createTemplate sslServerChecks,
        .createConnection sdk.createTemplate url,.createRequest sdk.createConnection url]++added

section Transfers

variable {α : Type} {url : Bytes} {headers : List (Bytes × Bytes)} {init : α} {cb : Callback α}
  {sdk : Sdk} {http : Http}

theorem armed_of_noSend {calls : List SdkCall} (h : NoSend calls) : ArmedBeforeSending sdk calls := by
  rintro before request after rfl
  exact absurd (h (.sendRequest request) (by simp)) (by simp [isSend])

theorem doRequest_armed :
    ArmedBeforeSending sdk (doRequest url headers init cb sdk http (some .on)).calls := by
  unfold doRequest
  dsimp only
  split_ifs
  · exact armed_of_noSend (by simp [NoSend,isSend])
  · rcases @useTemplate_sends α url headers init cb sdk (httpClearLastError http) with
      ⟨henable,hsends⟩ | hnone
    · intro before request after heq
      obtain ⟨hbefore,hrequest⟩ := (hsends.around [.createTemplate]
        [.deleteTemplate sdk.createTemplate] (by simp [NoSend,isSend])
        (by simp [NoSend,isSend])).before_eq heq
      exact ⟨henable,hrequest,url,_,addHeaders_calls sdk.createRequest 0,hbefore⟩
    · exact armed_of_noSend (noSend_append (noSend_append (by simp [NoSend,isSend]) hnone)
        (by simp [NoSend,isSend]))

theorem httpGetFileSize_onlyLastError (sslVerify : Option SslVerifyMode) :
    OnlyLastError http (httpGetFileSize url sdk http sslVerify).http := by
  unfold httpGetFileSize
  split_ifs
  · exact onlyLastError_refl _
  · have h := @doRequest_onlyLastError CbArgs url [] (CbArgs.new 0 none false)
      (downloadFileCb sdk (CbArgs.new 0 none false)) sdk http sslVerify
    dsimp only
    split_ifs
    · exact h
    · exact h.setLastError _
    · exact h.setLastError _
    · exact h

theorem httpDownloadFile_onlyLastError (size : Option UInt64) (offset : UInt64)
    (sslVerify : Option SslVerifyMode) :
    OnlyLastError http (httpDownloadFile url sdk http size offset sslVerify).http := by
  unfold httpDownloadFile
  split_ifs
  · exact onlyLastError_refl _
  · have h := @doRequest_onlyLastError CbArgs url
      (downloadHeaders (size.getD unknownLength) offset)
      (CbArgs.new (size.getD unknownLength) (some downloadChunkSize)
        (wantsRange (size.getD unknownLength) offset))
      (downloadFileCb sdk (CbArgs.new (size.getD unknownLength) (some downloadChunkSize)
        (wantsRange (size.getD unknownLength) offset))) sdk http sslVerify
    dsimp only
    split_ifs
    · exact h.setLastError _
    · exact h
    · exact h.setLastError _
    · exact h

theorem httpGetFileSize_armed :
    ArmedBeforeSending sdk (httpGetFileSize url sdk http (some .on)).calls := by
  unfold httpGetFileSize
  split_ifs
  · exact armed_of_noSend (by simp [NoSend])
  · dsimp only
    split_ifs <;> exact doRequest_armed

theorem httpDownloadFile_armed (size : Option UInt64) (offset : UInt64) :
    ArmedBeforeSending sdk (httpDownloadFile url sdk http size offset (some .on)).calls := by
  unfold httpDownloadFile
  split_ifs
  · exact armed_of_noSend (by simp [NoSend])
  · dsimp only
    split_ifs <;> exact doRequest_armed

end Transfers

end ArmedTransfers
end RemotePkgInstaller
