import RemotePkgInstaller.BundleRuns
import RemotePkgInstaller.InstallerErrors

/-! The functions of `installer.c` and `http.c` that start, end or use a library of the
console, with the calls that they make in the state they are called in. -/
namespace RemotePkgInstaller
namespace LibraryCalls

open BundleRuns HttpState HttpText InstallerErrors InstallerFunctions Programs Program Util
open HttpTransfer hiding SdkCall

inductive Library
  | appInstUtil | bgft | http
  deriving DecidableEq

/-- A call of a library, with what it returns where that decides anything. -/
inductive LibraryCall
  | appInstUtilInitialize (ret : ℤ)
  | appInstUtilTerminate (ret : ℤ)
  | bgftServiceIntInit (ret : ℤ)
  | bgftServiceIntTerm (ret : ℤ)
  | sslInit (ret : ℤ)
  | sslTerm (ctx ret : ℤ)
  | httpInit (ret : ℤ)
  | httpTerm (ctx ret : ℤ)
  | installer (call : SdkCall)
  | httpsLoadCert (ctx : ℤ)
  | httpsUnloadCert (ctx : ℤ)
  | transfer (call : HttpTransfer.SdkCall)
  | uriUnescape
  | jsonEscape
  deriving DecidableEq

/-- The library that a call of `installer.c` is an operation of; the user service is none of
the three. -/
def libraryOf : SdkCall → Option Library
  | .service (.appUnInstall _) => some .appInstUtil
  | .service (.appUnInstallAddcont _ _) => some .appInstUtil
  | .service (.appUnInstallPat _) => some .appInstUtil
  | .service (.appUnInstallTheme _) => some .appInstUtil
  | .service (.appExists _) => some .appInstUtil
  | .service (.appGetSize _) => some .appInstUtil
  | .getForegroundUser => none
  | _ => some .bgft

/-- The library that a call is an operation of, if it neither starts nor ends one. -/
def LibraryCall.operates : LibraryCall → Option Library
  | installer c => libraryOf c
  | httpsLoadCert _ => some .http
  | httpsUnloadCert _ => some .http
  | transfer _ => some .http
  | uriUnescape => some .http
  | jsonEscape => some .http
  | _ => none

/-- The static variables of the two files.  A heap is known by its address. -/
structure Console where
  appInstUtilInitialized : Bool
  bgftInitialized : Bool
  bgftHeap : Option ℕ
  http : Http
  libsslCtxId : ℤ
  libhttpCtxId : ℤ

def Console.fresh : Console := ⟨false,false,none,.fresh,-1,-1⟩

def Console.flag (st : Console) : Library → Bool
  | .appInstUtil => st.appInstUtilInitialized
  | .bgft => st.bgftInitialized
  | .http => st.http.initialized

/-- A call of a library, with the state in which it is made. -/
structure Issued where
  st : Console
  call : LibraryCall

def Console.issue (st : Console) (calls : List LibraryCall) : List Issued := calls.map (Issued.mk st)

/-- What a function leaves: the state, whether it succeeds, and the calls it has made. -/
structure Left where
  st : Console
  succeeded : Bool
  issued : List Issued

section Functions

variable (st : Console)

def appInstUtilInit (ret : ℤ) : Left :=
  if st.appInstUtilInitialized then ⟨st,true,[]⟩
  else if ret ≠ 0 then
    ⟨{ st with appInstUtilInitialized := false },false,st.issue [.appInstUtilInitialize ret]⟩
  else ⟨{ st with appInstUtilInitialized := true },true,st.issue [.appInstUtilInitialize ret]⟩

def appInstUtilFini (ret : ℤ) : Left :=
  if st.appInstUtilInitialized = false then ⟨st,true,[]⟩
  else ⟨{ st with appInstUtilInitialized := false },true,st.issue [.appInstUtilTerminate ret]⟩

/-- `heap` is what `malloc` returns. -/
def bgftInit (heap : Option ℕ) (ret : ℤ) : Left :=
  if st.bgftInitialized then ⟨st,true,[]⟩
  else if heap = none then ⟨{ st with bgftInitialized := false, bgftHeap := none },false,[]⟩
  else if ret ≠ 0 then
    ⟨{ st with bgftInitialized := false, bgftHeap := none },false,st.issue [.bgftServiceIntInit ret]⟩
  else
    ⟨{ st with bgftInitialized := true, bgftHeap := heap },true,st.issue [.bgftServiceIntInit ret]⟩

def bgftFini (ret : ℤ) : Left :=
  if st.bgftInitialized = false then ⟨st,true,[]⟩
  else
    ⟨{ st with bgftInitialized := false, bgftHeap := none },true,st.issue [.bgftServiceIntTerm ret]⟩

/-- The services as `installer.c` sees them in this state. -/
def Console.services (sv : Installer.Services) : Installer.Services :=
  { sv with
    appInstUtilInitialized := st.appInstUtilInitialized
    bgftInitialized := st.bgftInitialized }

/-- The libraries answer a call in this way. -/
abbrev Replies := (call : SdkCall) → SdkReply call

def answering (replies : Replies) : Unit → (call : SdkCall) → Unit × SdkReply call :=
  fun _ call => ((),replies call)

def installerCall (sv : Installer.Services) (call : InstallerCall) (replies : Replies) : Left :=
  let p := call.run (st.services sv)
  ⟨st,(Program.run (answering replies) p ()).2.isOk,
    st.issue ((Program.history (answering replies) p ()).map fun e => .installer e.1)⟩

/-- The calls of `unload_ca_bundle`. -/
def unloadCalls (http : Http) (ctx : ℤ) : List LibraryCall :=
  if http.caBundleLoaded then [.httpsUnloadCert ctx] else []

/-- The calls of `http_load_ca_bundle`. -/
def loadCalls (http : Http) (ctx : ℤ) (path : Bytes) (calls : BundleCalls) : List LibraryCall :=
  if http.initialized = false ∨ path = [] then []
  else
    match readTextFile calls.content calls.read caBundleMaxSize with
    | none => []
    | some data => if data = [] then [] else unloadCalls http ctx++[.httpsLoadCert ctx]

/-- A null path is one without a text. -/
def httpLoadCaBundle (path : Option Bytes) (calls : BundleCalls) : Left :=
  let loaded := HttpState.httpLoadCaBundle st.http (path.getD []) calls
  ⟨{ st with http := loaded.1 },loaded.2,
    st.issue (loadCalls st.http st.libhttpCtxId (path.getD []) calls)⟩

/-- `http_init` behind the call of `sceHttpInit`: the settings are read, and the bundle is
loaded, which may fail. -/
def startHttp (ssl http : ℤ) (calls : InitCalls) : Console × List Issued :=
  let st := { st with libsslCtxId := ssl, libhttpCtxId := http }
  let started := { st.http with initialized := true }
  let configured := (HttpState.httpLoadConfig started calls.config calls.readConfig).1
  let path := configured.caBundlePath.val
  ({ st with http := (HttpState.httpInit st.http calls).1 },
    Console.issue { st with http := configured } (loadCalls configured http path (calls.bundle path)))

def httpInit (calls : InitCalls) (sslTerm : ℤ) : Left :=
  if st.http.initialized then ⟨st,true,[]⟩
  else if calls.netInitialized = false then ⟨st,false,[]⟩
  else if calls.sslInit < 0 then ⟨st,false,st.issue [.sslInit calls.sslInit]⟩
  else if calls.httpInit < 0 then
    ⟨{ st with libsslCtxId := -1 },false,st.issue [.sslInit calls.sslInit,.httpInit calls.httpInit,
      .sslTerm calls.sslInit sslTerm]⟩
  else
    let started := startHttp st calls.sslInit calls.httpInit calls
    ⟨started.1,true,st.issue [.sslInit calls.sslInit,.httpInit calls.httpInit]++started.2⟩

def httpFini (unloadCert httpTerm sslTerm : ℤ) : Left :=
  if st.http.initialized = false then ⟨st,true,[]⟩
  else
    ⟨{ st with
        http := BundleRuns.httpFini st.http unloadCert
        libsslCtxId := -1
        libhttpCtxId := -1 },true,
      st.issue (unloadCalls st.http st.libhttpCtxId++[.httpTerm st.libhttpCtxId httpTerm,
        .sslTerm st.libsslCtxId sslTerm])⟩

def httpLoadConfig (content : Bytes) (io : ReadCalls) : Left :=
  let loaded := HttpState.httpLoadConfig st.http content io
  ⟨{ st with http := loaded.1 },loaded.2,[]⟩

/-- The call of `http_escape_json_string`. -/
def escapeCalls (http : Http) : List LibraryCall := if http.initialized then [.jsonEscape] else []

def httpSaveConfig (sdk : TextSdk) (config : Option Bytes) (io : WriteCalls) : Left :=
  ⟨st,(HttpState.httpSaveConfig st.http sdk config io).2,st.issue (escapeCalls st.http)⟩

def httpEscapeJsonString (sdk : TextSdk) (maxOutSize : ℕ) : Option Bytes → Left
  | none => ⟨st,false,[]⟩
  | some s =>
    ⟨st,(HttpText.httpEscapeJsonString (st.http.text sdk) maxOutSize s).isSome,
      st.issue (escapeCalls st.http)⟩

/-- What the two calls of `sceHttpUriUnescape` return, and `malloc` between them. -/
structure UnescapeCalls where
  measure : ℤ
  allocated : Bool
  convert : ℤ
  text : Bytes

def UnescapeCalls.result (calls : UnescapeCalls) : Option Bytes :=
  if calls.measure = 0 ∧ calls.allocated = true ∧ calls.convert = 0 then some calls.text else none

def unescapeCalls (http : Http) (calls : UnescapeCalls) : List LibraryCall :=
  if http.initialized = false then []
  else if calls.measure = 0 ∧ calls.allocated = true then [.uriUnescape,.uriUnescape]
  else [.uriUnescape]

def httpUnescapeUri (sdk : TextSdk) (calls : UnescapeCalls) : Option Bytes → Left
  | none => ⟨st,false,[]⟩
  | some s =>
    let sdk := { st.http.text sdk with uriUnescape := fun _ => calls.result }
    ⟨st,(HttpText.httpUnescapeUri sdk s).isSome,st.issue (unescapeCalls st.http calls)⟩

def transferred {α : Type} (t : Transfer α) : Left :=
  ⟨{ st with http := t.http },t.value.isSome,st.issue (t.calls.map .transfer)⟩

def httpGetFileSize (url : Option Bytes) (sdk : Sdk) (sslVerify : Option SslVerifyMode) : Left :=
  match url with
  | none => ⟨st,false,[]⟩
  | some url => transferred st (HttpTransfer.httpGetFileSize url sdk st.http sslVerify)

def httpDownloadFile (url : Option Bytes) (sdk : Sdk) (size : Option UInt64) (offset : UInt64)
    (sslVerify : Option SslVerifyMode) : Left :=
  match url with
  | none => ⟨st,false,[]⟩
  | some url => transferred st (HttpTransfer.httpDownloadFile url sdk st.http size offset sslVerify)

end Functions

/-- A call of a function of the two files, with what the libraries, the files and `malloc` give. -/
inductive Call
  | appInstUtilInit (ret : ℤ)
  | appInstUtilFini (ret : ℤ)
  | bgftInit (heap : Option ℕ) (ret : ℤ)
  | bgftFini (ret : ℤ)
  | installer (sv : Installer.Services) (c : InstallerCall) (replies : Replies)
  | httpInit (calls : InitCalls) (sslTerm : ℤ)
  | httpFini (unloadCert httpTerm sslTerm : ℤ)
  | httpLoadCaBundle (path : Option Bytes) (calls : BundleCalls)
  | httpLoadConfig (content : Bytes) (io : ReadCalls)
  | httpSaveConfig (sdk : TextSdk) (config : Option Bytes) (io : WriteCalls)
  | httpSetSslVerify (mode : SslVerifyMode)
  | httpClearLastError
  | httpEscapeJsonString (sdk : TextSdk) (maxOutSize : ℕ) (s : Option Bytes)
  | httpUnescapeUri (sdk : TextSdk) (calls : UnescapeCalls) (s : Option Bytes)
  | httpGetFileSize (url : Option Bytes) (sdk : Sdk) (sslVerify : Option SslVerifyMode)
  | httpDownloadFile (url : Option Bytes) (sdk : Sdk) (size : Option UInt64) (offset : UInt64)
      (sslVerify : Option SslVerifyMode)

def Call.run (st : Console) : Call → Left
  | appInstUtilInit ret => LibraryCalls.appInstUtilInit st ret
  | appInstUtilFini ret => LibraryCalls.appInstUtilFini st ret
  | bgftInit heap ret => LibraryCalls.bgftInit st heap ret
  | bgftFini ret => LibraryCalls.bgftFini st ret
  | installer sv c replies => installerCall st sv c replies
  | httpInit calls sslTerm => LibraryCalls.httpInit st calls sslTerm
  | httpFini unloadCert httpTerm sslTerm => LibraryCalls.httpFini st unloadCert httpTerm sslTerm
  | httpLoadCaBundle path calls => LibraryCalls.httpLoadCaBundle st path calls
  | httpLoadConfig content io => LibraryCalls.httpLoadConfig st content io
  | httpSaveConfig sdk config io => LibraryCalls.httpSaveConfig st sdk config io
  | httpSetSslVerify mode => ⟨{ st with http := HttpState.httpSetSslVerify st.http mode },true,[]⟩
  | httpClearLastError => ⟨{ st with http := HttpState.httpClearLastError st.http },true,[]⟩
  | httpEscapeJsonString sdk maxOutSize s => LibraryCalls.httpEscapeJsonString st sdk maxOutSize s
  | httpUnescapeUri sdk calls s => LibraryCalls.httpUnescapeUri st sdk calls s
  | httpGetFileSize url sdk sslVerify => LibraryCalls.httpGetFileSize st url sdk sslVerify
  | httpDownloadFile url sdk size offset sslVerify =>
    LibraryCalls.httpDownloadFile st url sdk size offset sslVerify

/-- The library that the call is the `init` of. -/
def Call.initializes : Call → Option Library
  | appInstUtilInit _ => some .appInstUtil
  | bgftInit _ _ => some .bgft
  | httpInit _ _ => some .http
  | _ => none

/-- The libraries that a function of `installer.c` acts through. -/
def libraries : InstallerCall → List Library
  | .appInstUtilUninstallGame _ => [.appInstUtil]
  | .appInstUtilUninstallAc _ => [.appInstUtil]
  | .appInstUtilUninstallPatch _ => [.appInstUtil]
  | .appInstUtilUninstallTheme _ => [.appInstUtil]
  | .appInstUtilIsExists _ => [.appInstUtil]
  | .appInstUtilGetSize _ => [.appInstUtil]
  | .bgftDownloadRegisterPackageTask _ => [.appInstUtil,.bgft]
  | _ => [.bgft]

/-- The libraries that an operation acts through. -/
def Call.needs : Call → List Library
  | installer _ c _ => libraries c
  | httpLoadCaBundle _ _ => [.http]
  | httpSaveConfig _ _ _ => [.http]
  | httpEscapeJsonString _ _ _ => [.http]
  | httpUnescapeUri _ _ _ => [.http]
  | httpGetFileSize _ _ _ => [.http]
  | httpDownloadFile _ _ _ _ _ => [.http]
  | _ => []

end LibraryCalls
end RemotePkgInstaller
