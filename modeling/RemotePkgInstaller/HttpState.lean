import RemotePkgInstaller.Requests
import RemotePkgInstaller.Util

/-! What `http.c` keeps between requests: the configured TLS mode, the CA bundle with
its buffer, and the text of the last error.  The bundles registered with libhttp and
the buffers that have been freed are kept with it. -/
namespace RemotePkgInstaller
namespace HttpState

open HttpText JsonText Requests Responses TinyJson Util

inductive SslVerifyMode
  | off
  | on
  deriving DecidableEq

def httpConfigPath : Bytes := bytes "/data/rpi_config.json"
def httpCaBundlePath : Bytes := bytes "/data/rpi_cacert.pem"

def caBundleMaxSize : ℕ := 1024*1024
def configMaxSize : ℕ := 64*1024

/-- The size of the buffer for the path of the CA bundle. -/
def pathSize : ℕ := 256

abbrev PathBuffer := {path : Bytes // path.length < pathSize}

def PathBuffer.copy (path : Bytes) : PathBuffer :=
  ⟨strlcpy path pathSize,by rw [strlcpy_length]; exact (min_le_left _ _).trans_lt (by decide)⟩

/-- A copy of what the buffer holds, also onto itself, changes nothing. -/
@[simp] theorem PathBuffer.copy_val (path : PathBuffer) : PathBuffer.copy path.val = path :=
  Subtype.ext (strlcpy_eq_self path.2)

/-- A buffer from `malloc`. -/
structure Buffer where
  address : ℕ
  content : Bytes
  deriving DecidableEq

structure Http where
  initialized : Bool
  sslVerifyMode : SslVerifyMode
  caBundlePath : PathBuffer
  caBundleData : Option Buffer
  caBundleLoaded : Bool
  lastError : Bytes
  registered : List Buffer
  allocated : ℕ
  freed : List ℕ
  deriving DecidableEq

/-- Before the first call. -/
def Http.fresh : Http where
  initialized := false
  sslVerifyMode := .on
  caBundlePath := PathBuffer.copy httpCaBundlePath
  caBundleData := none
  caBundleLoaded := false
  lastError := []
  registered := []
  allocated := 0
  freed := []

/-- The text conversions in this state. -/
def Http.text (st : Http) (sdk : TextSdk) : TextSdk := { sdk with initialized := st.initialized }

/-- The contents of the bundle in force. -/
def Http.loadedBundle (st : Http) : Option Bytes :=
  if st.caBundleLoaded then st.caBundleData.map Buffer.content else none

/-- The buffer for the text of the last error has 512 bytes. -/
def Http.setLastError (st : Http) (text : Bytes) : Http := { st with lastError := strlcpy text 512 }

def httpClearLastError (st : Http) : Http := { st with lastError := [] }

def sslVerifyMode (verify : Bool) : SslVerifyMode := if verify then .on else .off

def httpSetSslVerify (st : Http) (mode : SslVerifyMode) : Http := { st with sslVerifyMode := mode }

def Http.free (st : Http) (buffer : Option Buffer) : Http :=
  { st with freed := (buffer.map Buffer.address).toList++st.freed }

/-- A call that reports an error leaves the registrations as they were. -/
def unloadCaBundle (st : Http) (unloadCert : ℤ) : Http :=
  let registered := if st.caBundleLoaded ∧ unloadCert = 0 then [] else st.registered
  { st.free st.caBundleData with
    caBundleLoaded := false
    caBundleData := none
    registered := registered }

/-- The calls behind a load of a CA bundle; `content` is what the named file holds. -/
structure BundleCalls where
  content : Bytes
  read : ReadCalls
  unloadCert : ℤ
  loadCert : ℤ

/-- The part of `http_load_ca_bundle` from the call that drops the old bundle on. -/
def replaceCaBundle (st : Http) (path : Bytes) (buffer : Buffer) (calls : BundleCalls) :
    Http × Bool :=
  let st := unloadCaBundle st calls.unloadCert
  if calls.loadCert ≠ 0 then
    ((st.free (some buffer)).setLastError
      (quoted (bytes "Unable to load CA bundle ") path (bytes ": 0x")++hex8Text calls.loadCert++
        bytes "."),false)
  else
    ({ st with
      caBundleData := some buffer
      caBundleLoaded := true
      caBundlePath := PathBuffer.copy path
      registered := st.registered++[buffer] },true)

def httpLoadCaBundle (st : Http) (path : Bytes) (calls : BundleCalls) : Http × Bool :=
  if st.initialized = false then (st.setLastError (bytes "HTTP is not initialized."),false)
  else if path = [] then (st.setLastError (bytes "Empty CA bundle path."),false)
  else
    match readTextFile calls.content calls.read caBundleMaxSize with
    | none =>
      (st.setLastError (quoted (bytes "Unable to read CA bundle ") path (bytes ".")),false)
    | some data =>
      let buffer := ⟨st.allocated,data⟩
      let st := { st with allocated := st.allocated+1 }
      if data = [] then
        ((st.setLastError (quoted (bytes "CA bundle ") path (bytes " is empty."))).free
          (some buffer),false)
      else replaceCaBundle st path buffer calls

/-- The named file can be read and holds something, and libhttp takes it. -/
def BundleCalls.Taken (calls : BundleCalls) : Prop :=
  (∃ data, readTextFile calls.content calls.read caBundleMaxSize = some data ∧ data ≠ []) ∧
    calls.loadCert = 0

/-- The bundle that a load of the file puts in force. -/
def BundleCalls.bundle (calls : BundleCalls) : Option Bytes :=
  match readTextFile calls.content calls.read caBundleMaxSize with
  | none => none
  | some data => if data ≠ [] ∧ calls.loadCert = 0 then some data else none

/-- The named file can be read and holds something, and libhttp refuses it. -/
def BundleCalls.Refused (calls : BundleCalls) : Prop :=
  (∃ data, readTextFile calls.content calls.read caBundleMaxSize = some data ∧ data ≠ []) ∧
    calls.loadCert ≠ 0

def poolSize : ℕ := 16

/-- The settings of a config file, as far as they are well-typed. -/
def readConfig (st : Http) (nodes : List Node) : Http :=
  let st := match rootProperty nodes (bytes "ssl_verify") with
    | some field =>
      if jsonGetType field = .boolean then httpSetSslVerify st (sslVerifyMode (jsonGetBoolean field))
      else st
    | none => st
  match rootProperty nodes (bytes "ca_bundle") with
  | some field =>
    if jsonGetType field = .text then
      { st with caBundlePath := PathBuffer.copy (jsonGetValue field) }
    else st
  | none => st

/-- `content` is what the config file holds. -/
def httpLoadConfig (st : Http) (content : Bytes) (io : ReadCalls) : Http × Bool :=
  match readTextFile content io configMaxSize with
  | none => (st,false)
  | some text =>
    match jsonCreate text poolSize with
    | none => (st,false)
    | some nodes => (readConfig st nodes,true)

def boolText (b : Bool) : Bytes := if b then bytes "true" else bytes "false"

def configText (mode : SslVerifyMode) (escapedPath : Bytes) : Bytes :=
  bytes "\x7b \"ssl_verify\": "++boolText (mode = .on)++bytes ", \"ca_bundle\": \""++escapedPath++
    bytes "\" \x7d\n"

/-- The text that is saved, if the path can be escaped and the text fits its buffer. -/
def configText? (st : Http) (sdk : TextSdk) : Option Bytes :=
  match httpEscapeJsonString (st.text sdk) (pathSize*2+1) st.caBundlePath.val with
  | none => none
  | some escapedPath =>
    let text := configText st.sslVerifyMode escapedPath
    if 512 ≤ text.length then none else some text

/-- What the config file holds afterwards, and whether the settings are saved. -/
def httpSaveConfig (st : Http) (sdk : TextSdk) (config : Option Bytes) (io : WriteCalls) :
    Option Bytes × Bool :=
  match configText? st sdk with
  | none => (config,false)
  | some text =>
    let written := writeFileTrunc config text io
    (written.file,written.status)

/-- The calls behind `http_init`, with what the config file holds. -/
structure InitCalls where
  netInitialized : Bool
  sslInit : ℤ
  httpInit : ℤ
  config : Bytes
  readConfig : ReadCalls
  bundle : Bytes → BundleCalls

def httpInit (st : Http) (calls : InitCalls) : Http × Bool :=
  if st.initialized then (st,true)
  else if calls.netInitialized = false ∨ calls.sslInit < 0 ∨ calls.httpInit < 0 then (st,false)
  else
    let st := (httpLoadConfig { st with initialized := true } calls.config calls.readConfig).1
    let loaded := httpLoadCaBundle st st.caBundlePath.val (calls.bundle st.caBundlePath.val)
    -- the bundle is optional, and its absence is not the first request's error
    (if loaded.2 then loaded.1 else httpClearLastError loaded.1,true)

theorem BundleCalls.bundle_eq_none_iff {calls : BundleCalls} : calls.bundle = none ↔ ¬ calls.Taken := by
  unfold BundleCalls.bundle BundleCalls.Taken
  cases readTextFile calls.content calls.read caBundleMaxSize with
  | none => simp
  | some data => simp

section Bundle

variable (st : Http) (path : Bytes) (calls : BundleCalls)

/-- Loading succeeds exactly for a path of a file that can be read and is taken. -/
theorem httpLoadCaBundle_status :
    (httpLoadCaBundle st path calls).2 = true ↔
      st.initialized = true ∧ path ≠ [] ∧ calls.Taken := by
  unfold httpLoadCaBundle
  split_ifs with hinit hpath
  · simp [hinit]
  · simp [hpath]
  · simp only [BundleCalls.Taken]
    cases hr : readTextFile calls.content calls.read caBundleMaxSize with
    | none => simp
    | some data =>
      by_cases hd : data = []
      · simp [hd]
      · by_cases hl : calls.loadCert = 0 <;> simp [hd,hl,hpath,hinit,replaceCaBundle]

/-- Neither outcome touches the mode. -/
@[simp] theorem httpLoadCaBundle_sslVerifyMode :
    (httpLoadCaBundle st path calls).1.sslVerifyMode = st.sslVerifyMode := by
  unfold httpLoadCaBundle replaceCaBundle
  repeat' split
  all_goals rfl

@[simp] theorem httpLoadCaBundle_initialized :
    (httpLoadCaBundle st path calls).1.initialized = st.initialized := by
  unfold httpLoadCaBundle replaceCaBundle
  repeat' split
  all_goals rfl

/-- The stored path changes with success only. -/
theorem httpLoadCaBundle_path :
    (httpLoadCaBundle st path calls).1.caBundlePath =
      if (httpLoadCaBundle st path calls).2 then PathBuffer.copy path else st.caBundlePath := by
  unfold httpLoadCaBundle replaceCaBundle
  repeat' split
  all_goals first | rfl | contradiction

/-- A load that does not succeed leaves the bundle in force alone, unless libhttp is
what refuses the new one. -/
theorem httpLoadCaBundle_loadedBundle (hr : ¬ calls.Refused ∨ st.loadedBundle = none) :
    (httpLoadCaBundle st path calls).1.loadedBundle =
      if st.initialized = true ∧ path ≠ [] then calls.bundle.or st.loadedBundle
      else st.loadedBundle := by
  unfold httpLoadCaBundle
  by_cases hinit : st.initialized = false
  · simp only [hinit,if_true,Bool.false_eq_true,false_and,if_false]
    rfl
  · by_cases hpath : path = []
    · simp only [hinit,hpath,if_true,if_false,ne_eq,not_true_eq_false,and_false]
      rfl
    · simp only [Bool.not_eq_false] at hinit
      simp only [hinit,hpath,Bool.true_eq_false,if_false,ne_eq,not_false_eq_true,and_self,if_true]
      cases hread : readTextFile calls.content calls.read caBundleMaxSize with
      | none =>
        simp only [BundleCalls.bundle,hread,Option.none_or]
        rfl
      | some data =>
        by_cases hd : data = []
        · simp only [BundleCalls.bundle,hread,hd,if_true,ne_eq,not_true_eq_false,false_and,if_false,
            Option.none_or]
          rfl
        · by_cases hl : calls.loadCert = 0
          · simp [BundleCalls.bundle,hread,hd,hl,replaceCaBundle,Http.loadedBundle]
          · have hnone : st.loadedBundle = none :=
              hr.resolve_left fun h => h ⟨⟨data,hread,hd⟩,hl⟩
            simp only [BundleCalls.bundle,hread,hd,hl,replaceCaBundle,if_false,if_true,ne_eq,
              not_false_eq_true,and_false,Option.none_or,hnone]
            rfl

end Bundle

end HttpState
end RemotePkgInstaller
