import RemotePkgInstaller.LibraryCalls
import RemotePkgInstaller.Lifetimes
import RemotePkgInstaller.ServerStart

/-! `main.c` and `net.c`: what the program sets up one after the other before it listens, where
it goes when a call fails, and what it takes down on the way to its exit. -/
namespace RemotePkgInstaller
namespace ProgramStart

open HttpState HttpText LibraryCalls Lifetimes ServerStart
open ServerStart (Left)

inductive Module
  | sysCore | systemService | userService | netCtl | net | http | ssl | appInstUtil | bgft
  | npCommon
  deriving DecidableEq

/-- The modules as `load_modules` loads them. -/
def Module.inOrder : List Module :=
  [.sysCore,.systemService,.userService,.netCtl,.net,.http,.ssl,.appInstUtil,.bgft,.npCommon]

/-- The variables that hold credentials: `og` and `jailbreak_cred`. -/
inductive Credentials
  | og | jailbreakCred
  deriving DecidableEq

inductive JbcExport
  | getCred | jailbreakCred | setCred
  deriving DecidableEq

/-- A call of the console, of the libraries on it or of the server, with what it returns. -/
inductive SystemCall
  | loadLibjbc (handle : ℤ)
  | dlsym (symbol : JbcExport) (found : Bool)
  | loadExec
  | jbcGetCred
  | jbcJailbreakCred
  | jbcSetCred (cred : Credentials)
  | loadModule (m : Module) (ret : ℤ)
  | unloadModule (m : Module) (ret : ℤ)
  | userServiceInitialize (ret : ℤ)
  | userServiceTerminate (ret : ℤ)
  | netCtlInit (ret : ℤ)
  | netInit (ret : ℤ)
  | netPoolCreate (ret : ℤ)
  | netPoolDestroy (memId ret : ℤ)
  | netTerm (ret : ℤ)
  | netCtlTerm
  | netCtlGetInfo (ret : ℤ)
  | library (call : LibraryCall)
  | server (call : ServerCall)
  deriving DecidableEq

/-- The static variables of `net.c`. -/
structure Net where
  initialized : Bool
  libnetMemId : ℤ
  deriving DecidableEq

def Net.fresh : Net := ⟨false,-1⟩

/-- The static variables of the program. -/
structure Process where
  jailbroken : Bool
  jbcSetCred : Bool
  modulesLoaded : Bool
  net : Net
  console : Console
  server : Statics

def Process.fresh : Process := ⟨false,false,false,.fresh,.fresh,.fresh⟩

/-- What every call of a run gives; each of them is made at most once.  `ipAddressSize` is
`sizeof(info.ip_address)`. -/
structure Answers where
  libjbc : ℤ
  found : JbcExport → Bool
  loadModule : Module → ℤ
  unloadModule : Module → ℤ
  userServiceInitialize : ℤ
  userServiceTerminate : ℤ
  appInstUtilInitialize : ℤ
  appInstUtilTerminate : ℤ
  bgftHeap : Option ℕ
  bgftServiceIntInit : ℤ
  bgftServiceIntTerm : ℤ
  netCtlInit : ℤ
  netInit : ℤ
  netPoolCreate : ℤ
  netPoolDestroy : ℤ
  netTerm : ℤ
  netCtlGetInfo : ℤ
  ipAddressSize : ℕ
  ipAddressField : Bytes
  http : InitCalls
  httpsUnloadCert : ℤ
  httpTerm : ℤ
  sslTerm : ℤ
  wide : ℕ → UInt32
  server : StartAnswers
  polls : List ℤ

/-- What a function leaves, whether it succeeds, and the calls that it has made. -/
structure Started where
  st : Process
  succeeded : Bool
  calls : List SystemCall

/-- What a function that cannot fail leaves, and the calls that it has made. -/
abbrev Ended := Process × List SystemCall

section Functions

variable (a : Answers) (st : Process)

/-- The pointers are null until `sceKernelDlsym` stores something in them. -/
def jailbreak : Ended :=
  if a.libjbc ≤ 0 then (st,[.loadLibjbc a.libjbc,.loadExec])
  else
    let looked := .loadLibjbc a.libjbc::
      [JbcExport.getCred,.jailbreakCred,.setCred].map fun symbol => .dlsym symbol (a.found symbol)
    let st := { st with jbcSetCred := a.found .setCred }
    if a.found .getCred = false ∨ a.found .jailbreakCred = false ∨ a.found .setCred = false then
      (st,looked++[.loadExec])
    else
      ({ st with jailbroken := true },
        looked++[.jbcGetCred,.jbcJailbreakCred,.jbcSetCred .jailbreakCred])

def unjailbreak : Ended :=
  if st.jailbroken = true ∧ st.jbcSetCred = true then
    ({ st with jailbroken := false },[.jbcSetCred .og])
  else (st,[])

def unload (modules : List Module) : List SystemCall :=
  modules.map fun m => .unloadModule m (a.unloadModule m)

/-- The rungs of `load_modules`; a failure falls through the labels of all that are loaded, the
last of them first. -/
def loadFrom (loaded : List Module) : List Module → Bool × List SystemCall
  | [] => (true,[])
  | m::modules =>
    if a.loadModule m ≠ 0 then (false,.loadModule m (a.loadModule m)::unload a loaded)
    else
      let rest := loadFrom (m::loaded) modules
      (rest.1,.loadModule m (a.loadModule m)::rest.2)

def loadModules : Started :=
  if st.modulesLoaded then ⟨st,true,[]⟩
  else
    let loaded := loadFrom a [] Module.inOrder
    ⟨{ st with modulesLoaded := loaded.1 },loaded.1,loaded.2⟩

def unloadModules : Ended :=
  if st.modulesLoaded = false then (st,[])
  else ({ st with modulesLoaded := false },unload a Module.inOrder.reverse)

/-- What `exit` runs. -/
def cleanup : Ended :=
  let unloaded := unloadModules a st
  let restored := unjailbreak unloaded.1
  (restored.1,unloaded.2++restored.2)

def userServiceInitialize : Started :=
  ⟨st,a.userServiceInitialize = 0,[.userServiceInitialize a.userServiceInitialize]⟩

def userServiceTerminate : Ended := (st,[.userServiceTerminate a.userServiceTerminate])

/-- A function of `installer.c` or `http.c`, on its own static variables. -/
def onConsole (left : LibraryCalls.Left) : Started :=
  ⟨{ st with console := left.st },left.succeeded,left.issued.map fun i => .library i.call⟩

def Started.ended (s : Started) : Ended := (s.st,s.calls)

def netInit : Started :=
  if st.net.initialized then ⟨st,true,[]⟩
  else if a.netCtlInit ≠ 0 then ⟨st,false,[.netCtlInit a.netCtlInit]⟩
  else if a.netInit ≠ 0 then
    ⟨st,false,[.netCtlInit a.netCtlInit,.netInit a.netInit,.netCtlTerm]⟩
  else if a.netPoolCreate < 0 then
    ⟨st,false,[.netCtlInit a.netCtlInit,.netInit a.netInit,.netPoolCreate a.netPoolCreate,
      .netTerm a.netTerm,.netCtlTerm]⟩
  else
    ⟨{ st with net := ⟨true,a.netPoolCreate⟩ },true,
      [.netCtlInit a.netCtlInit,.netInit a.netInit,.netPoolCreate a.netPoolCreate]⟩

def netFini : Ended :=
  if st.net.initialized = false then (st,[])
  else
    ({ st with net := ⟨false,-1⟩ },
      [.netPoolDestroy st.net.libnetMemId a.netPoolDestroy,.netTerm a.netTerm,.netCtlTerm])

def netIsInitialized : Bool := st.net.initialized

/-- What `net_get_ipv4` returns, and the text that `strlcpy` leaves in the buffer. -/
def netGetIpv4 (bufSize : ℕ) : ℤ × Bytes × List SystemCall :=
  if bufSize < a.ipAddressSize then (0x80020016-2^32,[],[])
  else if a.netCtlGetInfo ≠ 0 then (a.netCtlGetInfo,[],[.netCtlGetInfo a.netCtlGetInfo])
  else
    (0,(a.ipAddressField.takeWhile (· ≠ 0)).take (bufSize-1),[.netCtlGetInfo a.netCtlGetInfo])

/-- A part of a run of `main`: what it leaves, whether it has come to its end, and its calls. -/
structure Life where
  st : Process
  ended : Bool
  calls : List SystemCall

/-- Set up, go on, and take down again once that has ended; a failure skips both. -/
def bracket (up : Started) (go : Process → Life) (down : Process → Ended) : Life :=
  if up.succeeded = false then ⟨up.st,true,up.calls⟩
  else
    let life := go up.st
    if life.ended = false then ⟨life.st,false,up.calls++life.calls⟩
    else ⟨(down life.st).1,true,up.calls++(life.calls++(down life.st).2)⟩

/-- `SERVER_PORT` -/
def serverPort : ℤ := 12801

def listen : Life :=
  let looped := serverListen st.server a.polls
  ⟨st,looped.ended,looped.calls.map .server⟩

def onServer (left : ServerStart.Left) : Started :=
  ⟨{ st with server := left.st },left.succeeded,left.calls.map .server⟩

/-- The call of `server_start` in `main`. -/
def startServer (ipAddress : Bytes) : Started :=
  onServer st (serverStart a.wide a.server st.server ipAddress serverPort (bytes "/data"))

def stopServer : Ended :=
  let stopped := serverStop st.server
  ({ st with server := stopped.1 },stopped.2.map .server)

/-- `main` from `server_start` down to the label `err_http_finalize`. -/
def withServer (ipAddress : Bytes) : Life :=
  bracket (startServer a st ipAddress) (listen a) stopServer

def initHttp : Started :=
  onConsole st (httpInit st.console { a.http with netInitialized := netIsInitialized st } a.sslTerm)

def finiHttp : Ended :=
  (onConsole st (httpFini st.console a.httpsUnloadCert a.httpTerm a.sslTerm)).ended

/-- `main` from `http_init` down to its `http_fini`. -/
def withHttp (ipAddress : Bytes) : Life :=
  bracket (initHttp a st) (fun st => withServer a st ipAddress) (finiHttp a)

/-- `main` from `net_get_ipv4` down to the label `err_net_finalize`. -/
def withAddress : Life :=
  let address := netGetIpv4 a 16
  bracket ⟨st,address.1 = 0,address.2.2⟩ (fun st => withHttp a st address.2.1) fun st => (st,[])

def withNet : Life := bracket (netInit a st) (withAddress a) (netFini a)

def initBgft : Started := onConsole st (bgftInit st.console a.bgftHeap a.bgftServiceIntInit)

def finiBgft : Ended := (onConsole st (bgftFini st.console a.bgftServiceIntTerm)).ended

def withBgft : Life := bracket (initBgft a st) (withNet a) (finiBgft a)

def initAppInstUtil : Started := onConsole st (appInstUtilInit st.console a.appInstUtilInitialize)

def finiAppInstUtil : Ended :=
  (onConsole st (appInstUtilFini st.console a.appInstUtilTerminate)).ended

def withAppInstUtil : Life := bracket (initAppInstUtil a st) (withBgft a) (finiAppInstUtil a)

def withUserService : Life :=
  bracket (userServiceInitialize a st) (withAppInstUtil a) (userServiceTerminate a)

/-- `main` behind `jailbreak`, as far as its call of `exit`. -/
def withModules : Life :=
  bracket (loadModules a st) (withUserService a) fun st => (st,[])

/-- A run of the program. -/
def main : Life :=
  let jailed := jailbreak a .fresh
  bracket ⟨jailed.1,true,jailed.2⟩ (withModules a) (cleanup a)

end Functions

end ProgramStart
end RemotePkgInstaller
