import RemotePkgInstaller.Downloads

/-! The text of the last error after a transfer.  It is cleared when a request begins, and
only some of the steps that can fail describe their failure in it. -/
namespace RemotePkgInstaller
namespace LastErrorText

open Downloads HttpState HttpTransfer Requests Responses TransferLoop Util

/-- The steps of a transfer that can fail. -/
inductive Failure
  | createTemplate | enableOption | createConnection | createRequest | addRequestHeader
  | sendRequest | getStatusCode | badStatus | getContentLength | rangeIgnored | noContentLength
  | noChunk | outOfMemory | readData | sizeUnknown
  deriving DecidableEq

/-- The failures that the text describes. -/
def Failure.described : Failure → Bool
  | enableOption | sendRequest | rangeIgnored | sizeUnknown => true
  | _ => false

/-- The two functions that transfer something, with what their caller asks for. -/
inductive Call
  | getFileSize
  | downloadFile (size : Option UInt64) (offset : UInt64)

def Call.headers : Call → List (Bytes × Bytes)
  | getFileSize => []
  | downloadFile size offset => downloadHeaders (size.getD unknownLength) offset

def Call.args : Call → CbArgs
  | getFileSize => .new 0 none false
  | downloadFile size offset => .new (size.getD unknownLength) (some downloadChunkSize)
      (wantsRange (size.getD unknownLength) offset)

/-- The state after a call, and whether it has succeeded. -/
def Call.run (call : Call) (url : Bytes) (sdk : Sdk) (http : Http) (sslVerify : Option SslVerifyMode) :
    Http × Bool :=
  match call with
  | getFileSize =>
    let t := httpGetFileSize url sdk http sslVerify
    (t.http,t.value.isSome)
  | downloadFile size offset =>
    let t := httpDownloadFile url sdk http size offset sslVerify
    (t.http,t.value.isSome)

section Failures

variable (url : Bytes) (headers : List (Bytes × Bytes)) (mode : SslVerifyMode) (sdk : Sdk)

/-- What stops a request that has been sent, before the callback is called. -/
def receiveFailure : Option Failure :=
  if sdk.getStatusCode < 0 then some .getStatusCode
  else if isGoodStatus (sdk.host ⟨url,headers⟩).statusCode = true ∧ sdk.getContentLength ≠ 0 then
    some .getContentLength
  else none

def useRequestFailure : Option Failure :=
  if ∃ i < headers.length, sdk.addRequestHeader i ≠ 0 then some .addRequestHeader
  else if sdk.sendRequest ≠ 0 then some .sendRequest
  else receiveFailure url headers sdk

def useConnectionFailure : Option Failure :=
  if sdk.createRequest < 0 then some .createRequest else useRequestFailure url headers sdk

def useTemplateFailure : Option Failure :=
  if mode = .on ∧ sdk.enableOption ≠ 0 then some .enableOption
  else if sdk.createConnection < 0 then some .createConnection
  else useConnectionFailure url headers sdk

def requestFailure : Option Failure :=
  if sdk.createTemplate < 0 then some .createTemplate else useTemplateFailure url headers mode sdk

/-- What stops the callback. -/
def callbackFailure (args : CbArgs) (answer : HostAnswer) : Option Failure :=
  let total := totalSize args.dataSize (knownLength answer)
  if isGoodStatus answer.statusCode = false then some .badStatus
  else if args.wantPartial = true ∧ answer.statusCode ≠ 206 then some .rangeIgnored
  else if args.dataSize = unknownLength ∧ answer.contentLengthType ≠ contentLengthExist then
    some .noContentLength
  else if 0 < total ∧ args.chunk = none then some .noChunk
  else if sdk.allocated (total+1) = false then some .outOfMemory
  else if (readLoop sdk.readData (args.chunk.getD 0) total.toNat 0 total.toNat answer.body).2 ≠ 0 then
    some .readData
  else none

/-- A size has to be known. -/
def Call.sizeFailure (answer : HostAnswer) : Call → Option Failure
  | getFileSize => if knownLength answer = unknownLength then some .sizeUnknown else none
  | downloadFile _ _ => none

/-- The first step of a call that fails, if any. -/
def Call.failure (call : Call) : Option Failure :=
  let answer := sdk.host ⟨url,call.headers⟩
  (requestFailure url call.headers mode sdk).or
    ((callbackFailure sdk call.args answer).or (call.sizeFailure answer))

/-- The request goes out, and the host answers it. -/
structure Answered : Prop where
  createTemplate : 0 ≤ sdk.createTemplate
  armed : ¬ (mode = .on ∧ sdk.enableOption ≠ 0)
  createConnection : 0 ≤ sdk.createConnection
  createRequest : 0 ≤ sdk.createRequest
  addRequestHeader : ∀ i < headers.length, sdk.addRequestHeader i = 0
  sendRequest : sdk.sendRequest = 0

end Failures

/-- After a call the text is empty if and only if the call has succeeded, and it names a
status of the answer that is neither 200 nor 206. -/
structure TellsFailure (call : Call) (url : Bytes) (mode : SslVerifyMode) (sdk : Sdk)
    (after : Http × Bool) : Prop where
  tells : after.1.lastError = [] ↔ after.2 = true
  names : Answered call.headers mode sdk →
    isGoodStatus (sdk.host ⟨url,call.headers⟩).statusCode = false →
    intText (sdk.host ⟨url,call.headers⟩).statusCode <:+: after.1.lastError

section Requests

variable {α : Type} {url : Bytes} {headers : List (Bytes × Bytes)} {init : α} {cb : Callback α}
  {mode : SslVerifyMode} {sdk : Sdk} {http : Http}

/-- The step that fails stops the request, with a text or without; if there is none the
callback decides. -/
def EndsBy (url : Bytes) (headers : List (Bytes × Bytes)) (init : α) (cb : Callback α) (sdk : Sdk)
    (e : Exchange α) : Option Failure → Prop
  | some f => e.status ≠ 0 ∧ e.value = init ∧ (e.http.lastError = [] ↔ f.described = false)
  | none => e.http.lastError = [] ∧ ∃ request, 0 ≤ request ∧
      (e.status,e.value) = cb request (sdk.host ⟨url,headers⟩).statusCode
        (announced (sdk.host ⟨url,headers⟩)).2 (announced (sdk.host ⟨url,headers⟩)).1
        (sdk.host ⟨url,headers⟩).body

theorem setLastError_ne_nil {text : Bytes} (h : text ≠ []) : (http.setLastError text).lastError ≠ [] := by
  intro hnil
  have hlength := congrArg List.length hnil
  rw [Http.setLastError,strlcpy_length,List.length_nil] at hlength
  have := List.length_pos_iff.mpr h
  omega

theorem addHeaders_ne_zero_iff (request : ℤ) (i : ℕ) :
    (addHeaders sdk request i headers).1 ≠ 0 ↔
      ∃ j < headers.length, sdk.addRequestHeader (i+j) ≠ 0 := by
  induction headers generalizing i with
  | nil => simp [addHeaders]
  | cons header headers ih =>
    rw [addHeaders]
    split_ifs with h
    · exact iff_of_true h ⟨0,by simp,h⟩
    · dsimp only
      rw [ih]
      constructor
      · rintro ⟨j,hj,hne⟩
        exact ⟨j+1,by simpa using hj,by rwa [← Nat.add_assoc,Nat.add_right_comm]⟩
      · rintro ⟨j,hj,hne⟩
        cases j with
        | zero => exact absurd hne h
        | succ j =>
          refine ⟨j,by simpa using hj,?_⟩
          rwa [Nat.add_right_comm,Nat.add_assoc]

theorem receive_endsBy (hclear : http.lastError = []) {request : ℤ} (hr : 0 ≤ request) :
    EndsBy url headers init cb sdk (receive url headers init cb sdk http request)
      (receiveFailure url headers sdk) := by
  unfold receive receiveFailure
  by_cases hstatus : sdk.getStatusCode < 0
  · rw [if_pos hstatus,if_pos hstatus]
    exact ⟨hstatus.ne,rfl,iff_of_true hclear rfl⟩
  · rw [if_neg hstatus,if_neg hstatus]
    dsimp only
    by_cases hlength : isGoodStatus (sdk.host ⟨url,headers⟩).statusCode = true ∧
        sdk.getContentLength ≠ 0
    · rw [if_pos hlength,if_pos hlength]
      exact ⟨hlength.2,rfl,iff_of_true hclear rfl⟩
    · rw [if_neg hlength,if_neg hlength]
      exact ⟨hclear,request,hr,rfl⟩

theorem useRequest_endsBy (hclear : http.lastError = []) {request : ℤ} (hr : 0 ≤ request) :
    EndsBy url headers init cb sdk (useRequest url headers init cb mode sdk http request)
      (useRequestFailure url headers sdk) := by
  have hheaders := @addHeaders_ne_zero_iff headers sdk request 0
  simp only [Nat.zero_add] at hheaders
  unfold useRequest useRequestFailure
  dsimp only
  by_cases hadded : (addHeaders sdk request 0 headers).1 ≠ 0
  · rw [if_pos hadded,if_pos (hheaders.mp hadded)]
    exact ⟨hadded,rfl,iff_of_true hclear rfl⟩
  · rw [if_neg hadded,if_neg (mt hheaders.mpr hadded)]
    by_cases hsend : sdk.sendRequest ≠ 0
    · rw [if_pos hsend,if_pos hsend]
      refine ⟨hsend,rfl,iff_of_false (setLastError_ne_nil ?_) (by decide)⟩
      unfold sendError
      dsimp only
      split_ifs <;> simp [quoted,bytes]
    · rw [if_neg hsend,if_neg hsend]
      have hreceive := @receive_endsBy _ url headers init cb sdk http hclear request hr
      cases hf : receiveFailure url headers sdk <;> rw [hf] at hreceive <;> exact hreceive

theorem useConnection_endsBy (hclear : http.lastError = []) (connection : ℤ) :
    EndsBy url headers init cb sdk (useConnection url headers init cb mode sdk http connection)
      (useConnectionFailure url headers sdk) := by
  unfold useConnection useConnectionFailure
  split_ifs with h
  · exact ⟨h.ne,rfl,iff_of_true hclear rfl⟩
  · have hused := @useRequest_endsBy _ url headers init cb mode sdk http hclear _ (not_lt.mp h)
    cases hf : useRequestFailure url headers sdk <;> rw [hf] at hused <;> exact hused

theorem useTemplate_endsBy (hclear : http.lastError = []) (template : ℤ) :
    EndsBy url headers init cb sdk (useTemplate url headers init cb mode sdk http template)
      (useTemplateFailure url headers mode sdk) := by
  have hconnected : ∀ calls : List SdkCall, EndsBy url headers init cb sdk
      (if sdk.createConnection < 0 then
        ⟨http,sdk.createConnection,init,calls++[.createConnection template url]⟩
      else
        ((useConnection url headers init cb mode sdk http sdk.createConnection).after
          (calls++[.createConnection template url])).andThen
          [.deleteConnection sdk.createConnection])
      (if sdk.createConnection < 0 then some .createConnection
      else useConnectionFailure url headers sdk) := by
    intro calls
    split_ifs with h
    · exact ⟨h.ne,rfl,iff_of_true hclear rfl⟩
    · have hused := @useConnection_endsBy _ url headers init cb mode sdk http hclear sdk.createConnection
      cases hf : useConnectionFailure url headers sdk <;> rw [hf] at hused <;> exact hused
  unfold useTemplate useTemplateFailure
  cases mode with
  | off =>
    have hoff : ¬ (SslVerifyMode.off = .on ∧ sdk.enableOption ≠ 0) := fun h => nomatch h.1
    rw [if_neg hoff]
    exact hconnected _
  | on =>
    by_cases harm : sdk.enableOption = 0
    · simp only [applySslOptions,harm,ne_eq,not_true_eq_false,if_false,and_false,Bool.true_eq_false]
      exact hconnected _
    · simp only [applySslOptions,harm,ne_eq,not_false_eq_true,if_true,and_self]
      exact ⟨errorInvalidValue_ne_zero,rfl,
        iff_of_false (setLastError_ne_nil (by simp [quoted,bytes])) (by decide)⟩

theorem doRequest_endsBy (sslVerify : Option SslVerifyMode) :
    EndsBy url headers init cb sdk (doRequest url headers init cb sdk http sslVerify)
      (requestFailure url headers (resolveMode http sslVerify) sdk) := by
  unfold doRequest requestFailure
  dsimp only
  split_ifs with h
  · exact ⟨h.ne,rfl,iff_of_true rfl rfl⟩
  · have hused := @useTemplate_endsBy _ url headers init cb (resolveMode http sslVerify) sdk
      (httpClearLastError http) rfl sdk.createTemplate
    cases hf : useTemplateFailure url headers (resolveMode http sslVerify) sdk <;>
      rw [hf] at hused <;> exact hused

end Requests

section Calls

variable {url : Bytes} {sdk : Sdk} {http : Http} {answer : HostAnswer}

/-- The callback returns an error exactly if one of its steps fails. -/
theorem downloadFileCb_failure {args : CbArgs} (hargs : args.rangeIgnored = false) {request : ℤ}
    (hr : 0 ≤ request) {r : ℤ × CbArgs}
    (h : r = downloadFileCb sdk args request answer.statusCode (announced answer).2
      (announced answer).1 answer.body) :
    match callbackFailure sdk args answer with
    | some f => r.1 ≠ 0 ∧ (r.2.rangeIgnored = true ↔ f = .rangeIgnored)
    | none => r.1 = 0 ∧ r.2.rangeIgnored = false ∧ r.2.statusCode = answer.statusCode ∧
        r.2.contentLength = knownLength answer ∧ isGoodStatus answer.statusCode = true := by
  have hne : errorInvalidValue ≠ 0 ∧ errorNoContentLength ≠ 0 ∧ errorOutOfMemory ≠ 0 := by decide
  have hbad : (404 : ℤ) ≠ 0 := by decide
  unfold downloadFileCb at h
  unfold callbackFailure
  dsimp only at h ⊢
  rw [if_neg (not_lt.mpr hr)] at h
  by_cases hgood : isGoodStatus answer.statusCode = false
  · rw [if_pos hgood] at h ⊢
    subst h
    exact ⟨hbad,by simp [hargs]⟩
  · have hann : announced answer = (answer.contentLengthType,answer.contentLength) := by
      rw [announced,if_pos (by simpa using hgood)]
    have hknown : (if answer.contentLengthType ≠ contentLengthExist then unknownLength
        else answer.contentLength) = knownLength answer := rfl
    rw [hann] at h
    rw [if_neg hgood] at h ⊢
    dsimp only at h
    rw [hknown] at h
    split_ifs at h ⊢ with hrange hlength hchunk hallocated hread
    · subst h
      exact ⟨hne.1,by simp⟩
    · subst h
      exact ⟨hne.2.1,by simp [hargs]⟩
    · subst h
      exact ⟨hne.1,by simp [hargs]⟩
    · subst h
      exact ⟨hne.2.2,by simp [hargs]⟩
    · subst h
      exact ⟨hread,by simp [hargs]⟩
    · subst h
      exact ⟨not_not.mp hread,hargs,rfl,rfl,by simpa using hgood⟩

/-- Of what stops a callback only an ignored range is described, by its caller. -/
theorem callbackFailure_cases {args : CbArgs} {f : Failure} (h : callbackFailure sdk args answer = some f) :
    (f = .rangeIgnored ∧ args.wantPartial = true ∧ isGoodStatus answer.statusCode = true) ∨
      (f ≠ .rangeIgnored ∧ f.described = false) := by
  unfold callbackFailure at h
  dsimp only at h
  by_cases hgood : isGoodStatus answer.statusCode = false
  · rw [if_pos hgood] at h
    injection h with h
    exact Or.inr ⟨by rw [← h]; decide,by rw [← h]; rfl⟩
  · rw [if_neg hgood] at h
    split_ifs at h with hrange
    · injection h with h
      exact Or.inl ⟨h.symm,hrange.1,by simpa using hgood⟩
    all_goals
      injection h with h
      exact Or.inr ⟨by rw [← h]; decide,by rw [← h]; rfl⟩

/-- What a call leaves, by the step of it that fails. -/
def Leaves (after : Http × Bool) : Option Failure → Prop
  | some f => after.2 = false ∧ (after.1.lastError = [] ↔ f.described = false)
  | none => after.2 = true ∧ after.1.lastError = []

theorem downloadFile_leaves (hinit : http.initialized = true) (size : Option UInt64)
    (offset : UInt64) (sslVerify : Option SslVerifyMode) :
    Leaves ((Call.downloadFile size offset).run url sdk http sslVerify)
      ((Call.downloadFile size offset).failure url (resolveMode http sslVerify) sdk) := by
  have hrequest := @doRequest_endsBy _ url (Call.downloadFile size offset).headers
    (Call.downloadFile size offset).args (downloadFileCb sdk (Call.downloadFile size offset).args) sdk
    http sslVerify
  unfold Call.run Call.failure httpDownloadFile
  dsimp only [Call.headers,Call.args] at hrequest ⊢
  rw [if_neg (by rw [hinit]; decide)]
  generalize doRequest url (downloadHeaders (size.getD unknownLength) offset) _ _ sdk http sslVerify = e
    at hrequest ⊢
  cases hf : requestFailure url (downloadHeaders (size.getD unknownLength) offset)
    (resolveMode http sslVerify) sdk with
  | some f =>
    rw [hf] at hrequest
    obtain ⟨hstatus,hvalue,htext⟩ := hrequest
    rw [hvalue,if_neg (by simp [CbArgs.new]),if_pos hstatus]
    exact ⟨rfl,htext⟩
  | none =>
    rw [hf] at hrequest
    obtain ⟨hclear,request,hr,hcb⟩ := hrequest
    have hcallback := downloadFileCb_failure rfl hr hcb
    dsimp only at hcallback
    rw [Option.none_or]
    cases hc : callbackFailure sdk (.new (size.getD unknownLength) (some downloadChunkSize)
        (wantsRange (size.getD unknownLength) offset))
        (sdk.host ⟨url,downloadHeaders (size.getD unknownLength) offset⟩) with
    | some f =>
      rw [hc] at hcallback
      obtain ⟨hstatus,hrange⟩ := hcallback
      rw [Option.some_or]
      by_cases hf : f = .rangeIgnored
      · rw [if_pos (hrange.mpr hf),hf]
        exact ⟨rfl,iff_of_false (setLastError_ne_nil (by simp [quoted,bytes])) (by decide)⟩
      · rw [if_neg (mt hrange.mp hf),if_pos hstatus]
        have hquiet := (callbackFailure_cases hc).resolve_left fun h => hf h.1
        exact ⟨rfl,iff_of_true hclear hquiet.2⟩
    | none =>
      rw [hc] at hcallback
      obtain ⟨hstatus,hrange,hcode,_,hgood⟩ := hcallback
      rw [Option.none_or,if_neg (by rw [hrange]; decide),if_neg (not_not.mpr hstatus),
        if_neg (by rw [hcode,hgood]; decide)]
      exact ⟨rfl,hclear⟩

theorem getFileSize_leaves (hinit : http.initialized = true) (sslVerify : Option SslVerifyMode) :
    Leaves (Call.getFileSize.run url sdk http sslVerify)
      (Call.getFileSize.failure url (resolveMode http sslVerify) sdk) := by
  have hrequest := @doRequest_endsBy _ url Call.getFileSize.headers Call.getFileSize.args
    (downloadFileCb sdk Call.getFileSize.args) sdk http sslVerify
  unfold Call.run Call.failure httpGetFileSize
  dsimp only [Call.headers,Call.args] at hrequest ⊢
  rw [if_neg (by rw [hinit]; decide)]
  generalize doRequest url [] _ _ sdk http sslVerify = e at hrequest ⊢
  cases hf : requestFailure url [] (resolveMode http sslVerify) sdk with
  | some f =>
    rw [hf] at hrequest
    obtain ⟨hstatus,_,htext⟩ := hrequest
    rw [if_pos hstatus]
    exact ⟨rfl,htext⟩
  | none =>
    rw [hf] at hrequest
    obtain ⟨hclear,request,hr,hcb⟩ := hrequest
    have hcallback := downloadFileCb_failure rfl hr hcb
    dsimp only at hcallback
    rw [Option.none_or]
    cases hc : callbackFailure sdk (.new 0 none false) (sdk.host ⟨url,[]⟩) with
    | some f =>
      rw [hc] at hcallback
      have hquiet := (callbackFailure_cases hc).resolve_left fun h => nomatch h.2.1
      rw [Option.some_or,if_pos hcallback.1]
      exact ⟨rfl,iff_of_true hclear hquiet.2⟩
    | none =>
      rw [hc] at hcallback
      obtain ⟨hstatus,_,hcode,hlength,hgood⟩ := hcallback
      rw [Option.none_or,if_neg (not_not.mpr hstatus),if_neg (by rw [hcode,hgood]; decide),hlength,
        Call.sizeFailure]
      split_ifs
      · exact ⟨rfl,iff_of_false (setLastError_ne_nil (by simp [quoted,bytes])) (by decide)⟩
      · exact ⟨rfl,hclear⟩

theorem run_leaves (hinit : http.initialized = true) (call : Call) (sslVerify : Option SslVerifyMode) :
    Leaves (call.run url sdk http sslVerify)
      (call.failure url (resolveMode http sslVerify) sdk) := by
  cases call with
  | getFileSize => exact getFileSize_leaves hinit sslVerify
  | downloadFile size offset => exact downloadFile_leaves hinit size offset sslVerify

/-- A host that answers a request is asked after the last step before the answer. -/
theorem Answered.requestFailure {headers : List (Bytes × Bytes)} {mode : SslVerifyMode}
    (h : Answered headers mode sdk) :
    requestFailure url headers mode sdk = receiveFailure url headers sdk := by
  have hadded : ¬ ∃ i < headers.length, sdk.addRequestHeader i ≠ 0 := by
    rintro ⟨i,hi,hne⟩
    exact hne (h.addRequestHeader i hi)
  rw [LastErrorText.requestFailure,if_neg (not_lt.mpr h.createTemplate),useTemplateFailure,
    if_neg h.armed,if_neg (not_lt.mpr h.createConnection),useConnectionFailure,
    if_neg (not_lt.mpr h.createRequest),useRequestFailure,if_neg hadded,
    if_neg (not_not.mpr h.sendRequest)]

/-- On an answer with a bad status nothing fails that is described. -/
theorem failure_of_badStatus {call : Call} {mode : SslVerifyMode}
    (hanswered : Answered call.headers mode sdk)
    (hbad : isGoodStatus (sdk.host ⟨url,call.headers⟩).statusCode = false) :
    call.failure url mode sdk = some .getStatusCode ∨ call.failure url mode sdk = some .badStatus := by
  unfold Call.failure
  rw [hanswered.requestFailure,receiveFailure]
  split_ifs with hcode hlength
  · exact Or.inl rfl
  · rw [hbad] at hlength
    exact absurd hlength.1 (by decide)
  · right
    rw [Option.none_or,callbackFailure,if_pos hbad]
    rfl

end Calls

/-- The text tells a failure from a success, and names a bad status, if and only if the step
that fails, if one does, is one of the four that the text describes. -/
theorem run_tellsFailure_iff {http : Http} (hinit : http.initialized = true) (call : Call)
    (url : Bytes) (sdk : Sdk) (sslVerify : Option SslVerifyMode) :
    TellsFailure call url (resolveMode http sslVerify) sdk (call.run url sdk http sslVerify) ↔
      ∀ f, call.failure url (resolveMode http sslVerify) sdk = some f → f.described = true := by
  have hleaves := @run_leaves url sdk http hinit call sslVerify
  constructor
  · intro htells f hf
    rw [hf] at hleaves
    obtain ⟨hfailed,htext⟩ := hleaves
    by_contra hquiet
    have hclear := htext.mpr (by simpa using hquiet)
    rw [htells.tells.mp hclear] at hfailed
    cases hfailed
  · intro hdescribed
    refine ⟨?_,fun hanswered hbad => ?_⟩
    · cases hf : call.failure url (resolveMode http sslVerify) sdk with
      | some f =>
        rw [hf] at hleaves
        refine iff_of_false (fun hclear => ?_) (by rw [hleaves.1]; decide)
        have hquiet := hleaves.2.mp hclear
        rw [hdescribed f hf] at hquiet
        cases hquiet
      | none =>
        rw [hf] at hleaves
        exact iff_of_true hleaves.2 hleaves.1
    · rcases failure_of_badStatus hanswered hbad with hf | hf
      · exact absurd (hdescribed _ hf) (by decide)
      · exact absurd (hdescribed _ hf) (by decide)

/-- After `http_init`, with verification on. -/
def up : Http := { Http.fresh with initialized := true }

def sampleUrl : Bytes := bytes "http://h/f"

theorem run_tellsFailure_iff_example :
    up.initialized = true ∧
      (TellsFailure .getFileSize sampleUrl (resolveMode up none)
          (workingSdk fun _ => ⟨200,contentLengthExist,1,[0x41]⟩)
          (Call.getFileSize.run sampleUrl (workingSdk fun _ => ⟨200,contentLengthExist,1,[0x41]⟩) up none) ↔
        ∀ f, Call.failure sampleUrl (resolveMode up none)
          (workingSdk fun _ => ⟨200,contentLengthExist,1,[0x41]⟩) .getFileSize = some f →
            f.described = true) :=
  ⟨rfl,run_tellsFailure_iff rfl _ _ _ _⟩

/-- A host without the file. -/
def missingFile : Sdk := workingSdk fun _ => ⟨404,contentLengthExist,0,[]⟩

/-- The download fails, and the text is as empty as after a success. -/
theorem missingFile_untold :
    ((Call.downloadFile none 0).run sampleUrl missingFile up none).2 = false ∧
      ((Call.downloadFile none 0).run sampleUrl missingFile up none).1.lastError = [] ∧
      ¬ TellsFailure (.downloadFile none 0) sampleUrl (resolveMode up none) missingFile
        ((Call.downloadFile none 0).run sampleUrl missingFile up none) := by
  have h : ((Call.downloadFile none 0).run sampleUrl missingFile up none).2 = false ∧
      ((Call.downloadFile none 0).run sampleUrl missingFile up none).1.lastError = [] := by decide
  refine ⟨h.1,h.2,fun htells => ?_⟩
  have hsucceeded := htells.tells.mp h.2
  rw [h.1] at hsucceeded
  cases hsucceeded

end LastErrorText
end RemotePkgInstaller
