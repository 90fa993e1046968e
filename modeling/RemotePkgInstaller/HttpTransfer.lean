import RemotePkgInstaller.HttpState

/-! The transfers of `http.c`: one request with its template, connection and headers, and
the callback that reads the body of the answer. -/
namespace RemotePkgInstaller
namespace HttpTransfer

open HttpState Requests Responses TransferLoop Util

/-- What a host receives. -/
structure HostRequest where
  url : Bytes
  headers : List (Bytes × Bytes)
  deriving DecidableEq

/-- What a host answers, its length as libhttp reports it. -/
structure HostAnswer where
  statusCode : ℤ
  contentLengthType : ℤ
  contentLength : UInt64
  body : Bytes
  deriving DecidableEq

/-- The results of the calls behind one transfer, and the host at its other end.  Calls
that create something return its id, or an error below zero. -/
structure Sdk where
  createTemplate : ℤ
  disableOption : ℤ
  enableOption : ℤ
  createConnection : ℤ
  createRequest : ℤ
  addRequestHeader : ℕ → ℤ
  sendRequest : ℤ
  lastErrno : Option ℤ
  getStatusCode : ℤ
  getContentLength : ℤ
  allocated : UInt64 → Bool
  readData : ℕ → ℤ
  host : HostRequest → HostAnswer

/-- The calls that a transfer makes, in order; `callback` is what it makes to read. -/
inductive SdkCall
  | createTemplate
  | disableOption (template : ℤ) (flags : ℕ)
  | enableOption (template : ℤ) (flags : ℕ)
  | createConnection (template : ℤ) (url : Bytes)
  | createRequest (connection : ℤ) (url : Bytes)
  | addRequestHeader (request : ℤ) (name value : Bytes)
  | sendRequest (request : ℤ)
  | getLastErrno (request : ℤ)
  | getStatusCode (request : ℤ)
  | getContentLength (request : ℤ)
  | callback (request : ℤ)
  | deleteRequest (request : ℤ)
  | deleteConnection (connection : ℤ)
  | deleteTemplate (template : ℤ)
  deriving DecidableEq

/-- Constants of the console's headers, as the `int` they are returned in. -/
def errorInvalidId : ℤ := toInt32 0x80431100
def errorOutOfMemory : ℤ := toInt32 0x80431022
def errorNoContentLength : ℤ := toInt32 0x80431071
def errorInvalidValue : ℤ := toInt32 0x804311fe

def contentLengthExist : ℤ := 1

/-- Server, host name, both dates and the issuer. -/
def sslServerChecks : ℕ := 0x01 ||| 0x04 ||| 0x08 ||| 0x10 ||| 0x20
def sslClientVerify : ℕ := 0x02

def downloadChunkSize : ℕ := 16384

/-- The in-band value for a length that is not known. -/
def unknownLength : UInt64 := 0xffffffffffffffff

def isGoodStatus (statusCode : ℤ) : Bool := statusCode = 200 || statusCode = 206

/-- What a step of a transfer leaves: the state, its result, what the callback has made of
its argument, and the calls. -/
structure Exchange (α : Type) where
  http : Http
  status : ℤ
  value : α
  calls : List SdkCall

def Exchange.andThen {α : Type} (e : Exchange α) (calls : List SdkCall) : Exchange α :=
  { e with calls := e.calls++calls }

def Exchange.after {α : Type} (calls : List SdkCall) (e : Exchange α) : Exchange α :=
  { e with calls := calls++e.calls }

/-- Verification that cannot be armed makes the request fail. -/
def applySslOptions (http : Http) (template : ℤ) (url : Bytes) (mode : SslVerifyMode) (sdk : Sdk) :
    Exchange Bool :=
  match mode with
  | .off => ⟨http,0,true,[.disableOption template (sslServerChecks ||| sslClientVerify)]⟩
  | .on =>
    let calls := [.disableOption template sslClientVerify,.enableOption template sslServerChecks]
    if sdk.enableOption ≠ 0 then
      ⟨http.setLastError (quoted (bytes "Unable to enable TLS verification for ") url
        (bytes ": 0x")++hex8Text sdk.enableOption++bytes "."),0,false,calls⟩
    else ⟨http,0,true,calls⟩

/-- Adds the headers from number `i` on, until one is refused. -/
def addHeaders (sdk : Sdk) (request : ℤ) : ℕ → List (Bytes × Bytes) → ℤ × List SdkCall
  | _,[] => (0,[])
  | i,header::headers =>
    if sdk.addRequestHeader i ≠ 0 then
      (sdk.addRequestHeader i,[.addRequestHeader request header.1 header.2])
    else
      let r := addHeaders sdk request (i+1) headers
      (r.1,.addRequestHeader request header.1 header.2::r.2)

/-- The message for a request that could not be sent. -/
def sendError (http : Http) (url : Bytes) (mode : SslVerifyMode) (sdk : Sdk) : Bytes :=
  let failed := quoted (bytes "Request to ") url (bytes " failed (0x")++hex8Text sdk.sendRequest++
    bytes ", errno "++intText (sdk.lastErrno.getD 0)
  if mode = .on ∧ startsWith url (bytes "https://") = true then
    failed++bytes "). With TLS verification on this is usually an untrusted or expired "++
      bytes "server certificate: add its issuer to "++http.caBundlePath.val++
      bytes ", or turn ssl_verify off."
  else failed++bytes ")."

/-- The length that a callback is given: that of the answer if its status is good. -/
def announced (answer : HostAnswer) : ℤ × UInt64 :=
  if isGoodStatus answer.statusCode then (answer.contentLengthType,answer.contentLength) else (-1,0)

abbrev Callback (α : Type) := ℤ → ℤ → UInt64 → ℤ → Bytes → ℤ × α

variable {α : Type} (url : Bytes) (headers : List (Bytes × Bytes)) (init : α) (cb : Callback α)
  (mode : SslVerifyMode) (sdk : Sdk)

/-- `do_request` once its request is sent. -/
def receive (http : Http) (request : ℤ) : Exchange α :=
  if sdk.getStatusCode < 0 then ⟨http,sdk.getStatusCode,init,[.getStatusCode request]⟩
  else
    let answer := sdk.host ⟨url,headers⟩
    let asked := if isGoodStatus answer.statusCode then [.getContentLength request] else []
    if isGoodStatus answer.statusCode ∧ sdk.getContentLength ≠ 0 then
      ⟨http,sdk.getContentLength,init,.getStatusCode request::asked⟩
    else
      let r := cb request answer.statusCode (announced answer).2 (announced answer).1 answer.body
      ⟨http,r.1,r.2,.getStatusCode request::(asked++[.callback request])⟩

/-- `do_request` once its request is created. -/
def useRequest (http : Http) (request : ℤ) : Exchange α :=
  let added := addHeaders sdk request 0 headers
  if added.1 ≠ 0 then ⟨http,added.1,init,added.2⟩
  else if sdk.sendRequest ≠ 0 then
    ⟨http.setLastError (sendError http url mode sdk),sdk.sendRequest,init,
      added.2++[.sendRequest request,.getLastErrno request]⟩
  else (receive url headers init cb sdk http request).after (added.2++[.sendRequest request])

/-- `do_request` once its connection is created. -/
def useConnection (http : Http) (connection : ℤ) : Exchange α :=
  if sdk.createRequest < 0 then
    ⟨http,sdk.createRequest,init,[.createRequest connection url]⟩
  else
    ((useRequest url headers init cb mode sdk http sdk.createRequest).after
      [.createRequest connection url]).andThen [.deleteRequest sdk.createRequest]

/-- `do_request` once its template is created. -/
def useTemplate (http : Http) (template : ℤ) : Exchange α :=
  let armed := applySslOptions http template url mode sdk
  if armed.value = false then ⟨armed.http,errorInvalidValue,init,armed.calls⟩
  else if sdk.createConnection < 0 then
    ⟨armed.http,sdk.createConnection,init,armed.calls++[.createConnection template url]⟩
  else
    ((useConnection url headers init cb mode sdk armed.http sdk.createConnection).after
      (armed.calls++[.createConnection template url])).andThen
      [.deleteConnection sdk.createConnection]

/-- Without a mode of its own a request uses the configured one. -/
def resolveMode (http : Http) (sslVerify : Option SslVerifyMode) : SslVerifyMode :=
  sslVerify.getD http.sslVerifyMode

def doRequest (http : Http) (sslVerify : Option SslVerifyMode) : Exchange α :=
  let http := httpClearLastError http
  if sdk.createTemplate < 0 then ⟨http,sdk.createTemplate,init,[.createTemplate]⟩
  else
    ((useTemplate url headers init cb (resolveMode http sslVerify) sdk http
      sdk.createTemplate).after [.createTemplate]).andThen [.deleteTemplate sdk.createTemplate]

/-- `struct download_file_cb_args`; of a buffer the bytes copied into it, behind which it
is zero, and of the chunk buffer its size, if there is one. -/
structure CbArgs where
  data : Option Bytes
  dataSize : UInt64
  actualSize : UInt64
  contentLength : UInt64
  chunk : Option ℕ
  wantPartial : Bool
  rangeIgnored : Bool
  statusCode : ℤ
  deriving DecidableEq

def CbArgs.new (dataSize : UInt64) (chunk : Option ℕ) (wantPartial : Bool) : CbArgs :=
  ⟨none,dataSize,0,0,chunk,wantPartial,false,0⟩

/-- The number of bytes to read: what is wanted, as far as the host announces it. -/
def totalSize (dataSize contentLength : UInt64) : UInt64 :=
  if dataSize = unknownLength then contentLength
  else if contentLength < dataSize then contentLength
  else dataSize

def downloadFileCb (sdk : Sdk) (args : CbArgs) : Callback CbArgs :=
  fun request statusCode contentLength contentLengthType body =>
    let args := { args with statusCode := statusCode }
    if request < 0 then (errorInvalidId,args)
    else if isGoodStatus statusCode = false then (404,args)
    -- a host without `Range` answers with the whole file, from its first byte
    else if args.wantPartial ∧ statusCode ≠ 206 then
      (errorInvalidValue,{ args with rangeIgnored := true })
    else
      let contentLength :=
        if contentLengthType ≠ contentLengthExist then unknownLength else contentLength
      if args.dataSize = unknownLength ∧ contentLengthType ≠ contentLengthExist then
        (errorNoContentLength,args)
      else
        let total := totalSize args.dataSize contentLength
        if 0 < total ∧ args.chunk = none then (errorInvalidValue,args)
        else if sdk.allocated (total+1) = false then
          (errorOutOfMemory,{ args with dataSize := total, contentLength := contentLength })
        else
          let r := readLoop sdk.readData (args.chunk.getD 0) total.toNat 0 total.toNat body
          (r.2,{ args with
            data := some r.1
            dataSize := total
            actualSize := UInt64.ofNat r.1.length
            contentLength := contentLength })

/-- The message for an answer whose status is neither 200 nor 206. -/
def statusError (statusCode : ℤ) (url : Bytes) : Bytes :=
  quoted (bytes "Unexpected HTTP status "++intText statusCode++bytes " for ") url (bytes ".")

/-- What a transfer leaves: the state, what it stores if it succeeds, and its calls. -/
structure Transfer (α : Type) where
  http : Http
  value : Option α
  calls : List SdkCall

/-- A host is asked for the whole file, and only the length of the answer is used. -/
def httpGetFileSize (http : Http) (sslVerify : Option SslVerifyMode) : Transfer UInt64 :=
  if http.initialized = false then ⟨http,none,[]⟩
  else
    let args := CbArgs.new 0 none false
    let e := doRequest url [] args (downloadFileCb sdk args) sdk http sslVerify
    if e.status ≠ 0 then ⟨e.http,none,e.calls⟩
    else if isGoodStatus e.value.statusCode = false then
      ⟨e.http.setLastError (statusError e.value.statusCode url),none,e.calls⟩
    -- the piece sizes written into the reference json have to be real numbers
    else if e.value.contentLength = unknownLength then
      ⟨e.http.setLastError (quoted (bytes "Server did not report a size for ") url (bytes ".")),none,
        e.calls⟩
    else ⟨e.http,some e.value.contentLength,e.calls⟩

/-- What `http_download_file` stores through its pointers. -/
structure Downloaded where
  data : Bytes
  dataSize : UInt64
  totalSize : UInt64
  deriving DecidableEq

def rangeText (offset dataSize : UInt64) : Bytes :=
  strlcpy (bytes "bytes="++Decimal.text offset.toNat++bytes "-"++
    Decimal.text (offset+dataSize-1).toNat) 48

def acceptEncoding : Bytes × Bytes := (bytes "Accept-Encoding",bytes "identity")

/-- A range is asked for when the first byte is not wanted. -/
def wantsRange (dataSize offset : UInt64) : Bool := 0 < offset && 0 < dataSize

def downloadHeaders (dataSize offset : UInt64) : List (Bytes × Bytes) :=
  if wantsRange dataSize offset then [acceptEncoding,(bytes "Range",rangeText offset dataSize)]
  else [acceptEncoding]

/-- `size` is what `*data_size` holds, if there is such a pointer. -/
def httpDownloadFile (http : Http) (size : Option UInt64) (offset : UInt64)
    (sslVerify : Option SslVerifyMode) : Transfer Downloaded :=
  if http.initialized = false then ⟨http,none,[]⟩
  else
    let dataSize := size.getD unknownLength
    let args := CbArgs.new dataSize (some downloadChunkSize) (wantsRange dataSize offset)
    let e := doRequest url (downloadHeaders dataSize offset) args (downloadFileCb sdk args) sdk http
      sslVerify
    if e.value.rangeIgnored then
      ⟨e.http.setLastError (quoted (bytes "Server answered a range request for ") url
        (bytes " with HTTP "++intText e.value.statusCode++
          bytes " instead of 206, so it cannot serve partial content.")),none,e.calls⟩
    else if e.status ≠ 0 then ⟨e.http,none,e.calls⟩
    else if isGoodStatus e.value.statusCode = false then
      ⟨e.http.setLastError (statusError e.value.statusCode url),none,e.calls⟩
    else
      ⟨e.http,some ⟨e.value.data.getD [],e.value.actualSize,e.value.contentLength⟩,e.calls⟩

section Exchanges

variable {url headers init cb mode sdk}

@[simp] theorem Exchange.andThen_value (e : Exchange α) (calls : List SdkCall) :
    (e.andThen calls).value = e.value := rfl
@[simp] theorem Exchange.andThen_status (e : Exchange α) (calls : List SdkCall) :
    (e.andThen calls).status = e.status := rfl
@[simp] theorem Exchange.andThen_http (e : Exchange α) (calls : List SdkCall) :
    (e.andThen calls).http = e.http := rfl
@[simp] theorem Exchange.after_value (e : Exchange α) (calls : List SdkCall) :
    (e.after calls).value = e.value := rfl
@[simp] theorem Exchange.after_status (e : Exchange α) (calls : List SdkCall) :
    (e.after calls).status = e.status := rfl
@[simp] theorem Exchange.after_http (e : Exchange α) (calls : List SdkCall) :
    (e.after calls).http = e.http := rfl

/-- A request either stops with a code of its own before the callback is called, or ends
as the callback does. -/
def Outcome (url : Bytes) (headers : List (Bytes × Bytes)) (init : α) (cb : Callback α) (sdk : Sdk)
    (e : Exchange α) : Prop :=
  (e.status ≠ 0 ∧ e.value = init) ∨
    ∃ request, 0 ≤ request ∧
      (e.status,e.value) = cb request (sdk.host ⟨url,headers⟩).statusCode
        (announced (sdk.host ⟨url,headers⟩)).2 (announced (sdk.host ⟨url,headers⟩)).1
        (sdk.host ⟨url,headers⟩).body

theorem receive_outcome (http : Http) {request : ℤ} (hr : 0 ≤ request) :
    Outcome url headers init cb sdk (receive url headers init cb sdk http request) := by
  unfold receive
  by_cases hstatus : sdk.getStatusCode < 0
  · rw [if_pos hstatus]
    exact Or.inl ⟨hstatus.ne,rfl⟩
  · rw [if_neg hstatus]
    dsimp only
    by_cases hlength : isGoodStatus (sdk.host ⟨url,headers⟩).statusCode = true ∧
        sdk.getContentLength ≠ 0
    · rw [if_pos hlength]
      exact Or.inl ⟨hlength.2,rfl⟩
    · rw [if_neg hlength]
      exact Or.inr ⟨request,hr,rfl⟩

theorem useRequest_outcome (http : Http) {request : ℤ} (hr : 0 ≤ request) :
    Outcome url headers init cb sdk (useRequest url headers init cb mode sdk http request) := by
  unfold useRequest
  dsimp only
  split_ifs with h1 h2
  · exact Or.inl ⟨h1,rfl⟩
  · exact Or.inl ⟨h2,rfl⟩
  · exact receive_outcome http hr

theorem useConnection_outcome (http : Http) (connection : ℤ) :
    Outcome url headers init cb sdk (useConnection url headers init cb mode sdk http connection) := by
  unfold useConnection
  split_ifs with h
  · exact Or.inl ⟨h.ne,rfl⟩
  · exact useRequest_outcome http (not_lt.mp h)

theorem errorInvalidValue_ne_zero : errorInvalidValue ≠ 0 := by decide

theorem useTemplate_outcome (http : Http) (template : ℤ) :
    Outcome url headers init cb sdk (useTemplate url headers init cb mode sdk http template) := by
  unfold useTemplate
  dsimp only
  split_ifs with h1 h2
  · exact Or.inl ⟨errorInvalidValue_ne_zero,rfl⟩
  · exact Or.inl ⟨h2.ne,rfl⟩
  · exact useConnection_outcome _ _

theorem doRequest_outcome (http : Http) (sslVerify : Option SslVerifyMode) :
    Outcome url headers init cb sdk (doRequest url headers init cb sdk http sslVerify) := by
  unfold doRequest
  dsimp only
  split_ifs with h
  · exact Or.inl ⟨h.ne,rfl⟩
  · exact useTemplate_outcome _ _

end Exchanges

end HttpTransfer
end RemotePkgInstaller
