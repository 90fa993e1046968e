import RemotePkgInstaller.Installer
import RemotePkgInstaller.PieceUrls
import RemotePkgInstaller.PkgSetup

/-! `install_pieces`: the package is inspected, its reference json published and a download
task handed to the background transfer service. -/
namespace RemotePkgInstaller
namespace InstallPieces

open BufferAccess HttpState HttpText Installer PkgSetup Programs Program Requests Responses
  ServerCalls Sfo

/-- What a temporary name is made of: the time at which the stream was created, and where
its record is. -/
structure StreamId where
  initTime : UInt64
  address : UInt64
  deriving DecidableEq

/-- The lower half of the address. -/
def StreamId.low (s : StreamId) : UInt64 := s.address &&& 0xffffffff

/-- Lower-case hexadecimal digits, as `%x` writes them. -/
def lowerHexText (n : ℕ) : Bytes := (Nat.toDigits 16 n).map fun c => UInt8.ofNat c.toNat

def tmpName (s : StreamId) : Bytes :=
  strlcpy (bytes "tmp_"++lowerHexText (s.initTime ^^^ s.low).toNat) 32

def workDir : Bytes := bytes "/data"

def tempPath (name extension : Bytes) : Bytes :=
  strlcpy (workDir++bytes "/"++name++extension) 1024

def tempPaths (s : StreamId) : TempPaths where
  refPkgJson := tempPath (tmpName s) (bytes ".json")
  paramSfo := tempPath (tmpName s) (bytes ".sfo")
  icon0Png := tempPath (tmpName s) (bytes ".png")

/-- Where the server can be reached. -/
structure Host where
  ipAddress : Bytes
  port : ℤ

def contentUrl (host : Host) (s : StreamId) : Bytes :=
  strlcpy (bytes "http://"++host.ipAddress++bytes ":"++intText host.port++bytes "/static/"++
    tmpName s++bytes ".json") 256

def iconPath (s : StreamId) : Bytes :=
  strlcpy (bytes "/user"++workDir++bytes "/"++tmpName s++bytes ".png") 1024

/-- The results of the allocations and text conversions of one install, those of the walks
over its pieces in `pieces`, and what `ret` holds when nothing is stored in it. -/
structure InstallCalls where
  text : TextSdk
  pieces : PieceUrls.Call
  sfoAllocated : Bool
  sfoEntryAllocated : ℕ → Bool
  uninitialized : ℤ

def throwInternalError (sdk : TextSdk) (text : Bytes) : Answer :=
  kickErrorf sdk 500 (bytes "Internal server error") text

def isspace (c : UInt8) : Bool := c = 0x20 || (0x09 ≤ c && c ≤ 0x0d)

def rtrim (s : Bytes) : Bytes := (s.reverse.dropWhile isspace).reverse

def contentTypeGd : ℕ := 0x1a
def contentTypeAc : ℕ := 0x1b
def contentTypeAl : ℕ := 0x1c
def contentTypeDp : ℕ := 0x1e

def packageType (contentType : ℕ) : Option Bytes :=
  if contentType = contentTypeGd then some (bytes "PS4GD")
  else if contentType = contentTypeAc then some (bytes "PS4AC")
  else if contentType = contentTypeAl then some (bytes "PS4AL")
  else if contentType = contentTypeDp then some (bytes "PS4DP")
  else none

def sfoFormatString : ℕ := 0x204

def sfoFindEntry (entries : List SfoEntry) (key : Bytes) : Option SfoEntry :=
  entries.find? fun entry => entry.key = key

/-- `%02d` of an `int`. -/
def int2Text (n : ℤ) : Bytes :=
  if 0 ≤ n ∧ n < 10 then 0x30::intText n else intText n

/-- The title in the console's language, or the one for every language, with its key. -/
def findTitle (entries : List SfoEntry) (langId : ℤ) : Option (Bytes × SfoEntry) :=
  let key := strlcpy (bytes "TITLE_"++int2Text langId) 16
  match sfoFindEntry entries key with
  | some entry => some (key,entry)
  | none => (sfoFindEntry entries (bytes "TITLE")).map fun entry => (bytes "TITLE",entry)

/-- What a task is registered with and reported as. -/
structure Task where
  contentId : Bytes
  titleName : Bytes
  escapedTitleName : Bytes
  packageType : Bytes
  info : PackageInfo
  deriving DecidableEq

/-- A message about one entry of the system file object. -/
def invalidFormat (key url : Bytes) : Bytes :=
  quoted (bytes "Invalid format of ") key
    (quoted (bytes " entry in system file object for package ") url (bytes "."))

/-- What is read from the entries; `url` names the package in a message. -/
def readTask (sdk : TextSdk) (url packageType : Bytes) (info : PackageInfo) (langId : ℤ)
    (entries : List SfoEntry) : Except Bytes Task :=
  match findTitle entries langId with
  | none => .error (quoted (bytes "Unable to get title for package ") url (bytes "."))
  | some (key,title) =>
    if title.format ≠ sfoFormatString ∨ title.size < 1 then .error (invalidFormat key url)
    else
      let titleName := strlcpy (cstr title.value) 256
      match httpEscapeJsonString sdk (256*2+1) titleName with
      | none => .error (bytes "Unable to escape title name.")
      | some escapedTitleName =>
        match sfoFindEntry entries (bytes "CONTENT_ID") with
        | none => .error (quoted (bytes "Unable to get content id for package ") url (bytes "."))
        | some entry =>
          if entry.format ≠ sfoFormatString ∨ entry.size ≠ ContentId.pkgContentIdSize+1 then
            .error (invalidFormat (bytes "CONTENT_ID") url)
          else
            .ok ⟨strlcpy (cstr entry.value) (ContentId.pkgContentIdSize+1),titleName,
              escapedTitleName,packageType,info⟩

/-- The message when `pkg_setup_prerequisites` fails with this text. -/
def setupError (url text : Bytes) : Bytes :=
  if rtrim text ≠ [] then
    quoted (bytes "Unable to set up prerequisites for package ") url (bytes ": ")++rtrim text
  else quoted (bytes "Unable to set up prerequisites for package ") url (bytes ".")

/-- The entries that `sfo_load_from_file` finds, if it succeeds. -/
def sfoLoadFromFile {ε : Type} (path : Bytes) (alloc : ℕ → Bool) :
    ServerProgram ε (Option (List SfoEntry)) := do
  let data ← ask (.readFile path)
  match data with
  | none => pure none
  | some data =>
    match (sfoLoadFromMemory data alloc).outcome with
    | .ok entries => pure (some entries)
    | _ => pure none

variable (calls : InstallCalls) (stream : StreamId) (urls : List Bytes)
  (sslVerify : SslVerifyMode)

/-- The part of `install_pieces` that fails with a message, and then leaves no file. -/
def prepareTask (langId : ℤ) : ServerProgram Bytes Task := do
  let paths := tempPaths stream
  let url := urls.headD []
  let setup ← caught (pkgSetupPrerequisites sslVerify paths urls)
  match setup with
  | .error text => fail (setupError url text)
  | .ok info =>
    match packageType info.contentType with
    | none => fail (quoted (bytes "Unsupported content type for package ") url (bytes "."))
    | some packageType =>
      if calls.sfoAllocated = false then
        fail (quoted (bytes "Unable to allocate system file object for package ") url (bytes "."))
      else do
        let entries ← sfoLoadFromFile paths.paramSfo calls.sfoEntryAllocated
        match entries with
        | none =>
          fail (quoted (bytes "Unable to load system file object for package ") url (bytes "."))
        | some entries => ofExcept (readTask calls.text url packageType info langId entries)

def downloadParam (host : Host) (task : Task) (userId : ℤ) : DownloadParam where
  userId := userId
  id := task.contentId
  contentUrl := contentUrl host stream
  contentName := task.titleName
  iconPath := if task.info.hasIcon then iconPath stream else []
  packageType := task.packageType
  packageSubType := []
  packageSize := task.info.packageSize

def sameApplicationAlreadyInstalled : ℤ := toInt32 0x80990088

/-- What is made of the answer of the service: `true` and the task id, or the error. -/
def registrationResult (answer : Registered) : Except ℤ ℤ :=
  if answer.ret ≠ 0 then
    if answer.ret = sameApplicationAlreadyInstalled then .ok (-1) else .error answer.ret
  else .ok (toInt32 answer.taskId)

def bgftDownloadRegisterPackageTask {ε : Type} (sv : Services) (host : Host) (task : Task) :
    ServerProgram ε (Except ℤ ℤ) :=
  if sv.appInstUtilInitialized = false ∨ sv.bgftInitialized = false then
    pure (.error sv.errorEnxio)
  else if (ContentId.pkgParseContentId task.contentId).isNone then pure (.error sv.errorEinval)
  else do
    let user ← ask .getForegroundUser
    match user with
    -- nothing is stored in `*error` here
    | .error _ => pure (.error calls.uninitialized)
    | .ok userId => do
      let param := downloadParam stream host task userId
      if task.info.isPatch then
        let answer ← ask (.debugDownloadRegisterPkg param)
        pure (registrationResult answer)
      else
        let answer ← ask (.downloadRegisterTask param)
        pure (registrationResult answer)

def successText (taskId : ℤ) (escapedTitleName : Bytes) : Bytes :=
  bytes "\x7b \"status\": \"success\", \"task_id\": "++intText taskId++bytes ", \"title\": \""++
    escapedTitleName++bytes "\" \x7d\n"

def taskAnswer (task : Task) (registered : Except ℤ ℤ) : Answer :=
  match registered with
  | .ok taskId => kickResultHeaderJson++[.write (successText taskId task.escapedTitleName)]
  | .error ret => kickErrorJson ret

/-- It fails with the answer after which it returns `false`. -/
def installPieces (sv : Services) (host : Host) : ServerProgram Answer Answer := do
  let paths := tempPaths stream
  let langId ← ask .getLanguageId
  match langId with
  -- the paths are still empty, and nothing is unlinked
  | none => fail (throwInternalError calls.text (bytes "Unable to get language id."))
  | some langId => do
    let prepared ← caught (prepareTask calls stream urls sslVerify langId)
    match prepared with
    | .error text => do
      ask (.unlink paths.refPkgJson)
      ask (.unlink paths.paramSfo)
      ask (.unlink paths.icon0Png)
      fail (throwInternalError calls.text text)
    | .ok task => do
      let registered ← bgftDownloadRegisterPackageTask calls stream sv host task
      ask (.unlink paths.paramSfo)
      pure (taskAnswer task registered)

/-- Both services are up, and the content id is one. -/
structure Ready (sv : Services) (task : Task) : Prop where
  appInstUtil : sv.appInstUtilInitialized = true
  bgft : sv.bgftInitialized = true
  contentId : (ContentId.pkgParseContentId task.contentId).isSome = true

/-- The call that registers a package, with its answer. -/
def registerEvent (isPatch : Bool) (param : DownloadParam) (answer : Registered) : ServerEvent :=
  if isPatch then ⟨.debugDownloadRegisterPkg param,answer⟩ else ⟨.downloadRegisterTask param,answer⟩

/-- How the registration of a task can go. -/
theorem registration_cases {ε : Type} {sv : Services} {host : Host} {task : Task}
    {history : List ServerEvent} {r : Except ε (Except ℤ ℤ)}
    (h : Ends (bgftDownloadRegisterPackageTask calls stream sv host task) history r) :
    (¬ Ready sv task ∧ history = [] ∧ ∃ code, r = .ok (.error code)) ∨
    (Ready sv task ∧ (∃ code, history = [⟨.getForegroundUser,.error code⟩]) ∧
      r = .ok (.error calls.uninitialized)) ∨
    (Ready sv task ∧ ∃ userId answer,
      history = [⟨.getForegroundUser,.ok userId⟩,
        registerEvent task.info.isPatch (downloadParam stream host task userId) answer] ∧
      r = .ok (registrationResult answer)) := by
  unfold bgftDownloadRegisterPackageTask at h
  split_ifs at h with hdown hid hpatch
  · obtain ⟨rfl,rfl⟩ := ends_done.mp h
    refine Or.inl ⟨fun hready => ?_,rfl,_,rfl⟩
    rcases hdown with hdown | hdown
    · exact absurd (hdown.symm.trans hready.appInstUtil) (by decide)
    · exact absurd (hdown.symm.trans hready.bgft) (by decide)
  · obtain ⟨rfl,rfl⟩ := ends_done.mp h
    refine Or.inl ⟨fun hready => ?_,rfl,_,rfl⟩
    have hsome := hready.contentId
    rw [Option.isNone_iff_eq_none.mp hid] at hsome
    exact absurd hsome (by decide)
  all_goals
    have hready : Ready sv task := by
      simp only [not_or,Bool.not_eq_false] at hdown
      exact ⟨hdown.1,hdown.2,by simpa [Option.isSome_iff_ne_none] using hid⟩
    obtain ⟨user,rest,rfl,huser⟩ := ends_perform_bind.mp h
    refine Or.inr ?_
    cases user with
    | error code =>
      obtain ⟨rfl,rfl⟩ := ends_done.mp huser
      exact Or.inl ⟨hready,⟨code,rfl⟩,rfl⟩
    | ok userId =>
      obtain ⟨answer,rest,rfl,hanswer⟩ := ends_perform_bind.mp huser
      obtain ⟨rfl,rfl⟩ := ends_done.mp hanswer
      exact Or.inr ⟨hready,userId,answer,by simp [registerEvent,hpatch],rfl⟩

/-- A task is described with what was found out about its package. -/
theorem readTask_info {sdk : TextSdk} {url packageType : Bytes} {info : PackageInfo} {langId : ℤ}
    {entries : List SfoEntry} {task : Task}
    (h : readTask sdk url packageType info langId entries = .ok task) : task.info = info := by
  unfold readTask at h
  split at h
  · cases h
  · split_ifs at h
    dsimp only at h
    split at h
    · cases h
    · split at h
      · cases h
      · split_ifs at h
        injection h with h
        rw [← h]

section Calls

/-- What is called before the task is registered. -/
inductive PrepareCall : ServerCall → Prop
  | setup {c : ServerCall} (h : SetupCall sslVerify (tempPaths stream) urls c) : PrepareCall c
  | readFile (path : Bytes) : PrepareCall (.readFile path)

/-- The calls of `install_pieces`. -/
inductive InstallCall : ServerCall → Prop
  | prepare {c : ServerCall} (h : PrepareCall stream urls sslVerify c) : InstallCall c
  | getLanguageId : InstallCall .getLanguageId
  | unlink (path : Bytes) : InstallCall (.unlink path)
  | getForegroundUser : InstallCall .getForegroundUser
  | downloadRegisterTask (param : DownloadParam) : InstallCall (.downloadRegisterTask param)
  | debugDownloadRegisterPkg (param : DownloadParam) :
      InstallCall (.debugDownloadRegisterPkg param)

theorem calls_ofExcept {ε α : Type} (P : ServerCall → Prop) (r : Except ε α) :
    Calls P (ofExcept r : ServerProgram ε α) := by
  cases r <;> trivial

theorem calls_sfoLoadFromFile {ε : Type} (path : Bytes) (alloc : ℕ → Bool) :
    Calls (PrepareCall stream urls sslVerify)
      (sfoLoadFromFile path alloc : ServerProgram ε (Option (List SfoEntry))) := by
  refine calls_perform_bind (.readFile path) fun data => ?_
  cases data with
  | none => trivial
  | some data =>
    dsimp only
    split <;> trivial

theorem calls_prepareTask (langId : ℤ) :
    Calls (PrepareCall stream urls sslVerify) (prepareTask calls stream urls sslVerify langId) := by
  refine calls_bind (calls_caught ((calls_pkgSetupPrerequisites _ _ _).mono fun _ => .setup))
    fun setup => ?_
  cases setup with
  | error text => trivial
  | ok info =>
    dsimp only
    split
    · trivial
    · split_ifs
      · trivial
      · refine calls_bind (calls_sfoLoadFromFile _ _ _ _ _) fun entries => ?_
        cases entries with
        | none => trivial
        | some entries => exact calls_ofExcept _ _

theorem calls_bgftDownloadRegisterPackageTask {ε : Type} (sv : Services) (host : Host)
    (task : Task) :
    Calls (InstallCall stream urls sslVerify)
      (bgftDownloadRegisterPackageTask calls stream sv host task :
        ServerProgram ε (Except ℤ ℤ)) := by
  unfold bgftDownloadRegisterPackageTask
  split_ifs with _ _ hpatch
  · trivial
  · trivial
  all_goals
    refine calls_perform_bind .getForegroundUser fun user => ?_
    cases user with
    | error e => trivial
    | ok userId =>
      first
      | exact calls_perform_bind (.debugDownloadRegisterPkg _) fun _ => trivial
      | exact calls_perform_bind (.downloadRegisterTask _) fun _ => trivial

theorem calls_installPieces (sv : Services) (host : Host) :
    Calls (InstallCall stream urls sslVerify)
      (installPieces calls stream urls sslVerify sv host) := by
  refine calls_perform_bind .getLanguageId fun langId => ?_
  cases langId with
  | none => trivial
  | some langId =>
    refine calls_bind (calls_caught ((calls_prepareTask _ _ _ _ _).mono fun _ => .prepare))
      fun prepared => ?_
    cases prepared with
    | error text =>
      exact calls_perform_bind (.unlink _) fun _ => calls_perform_bind (.unlink _) fun _ =>
        calls_perform_bind (.unlink _) fun _ => trivial
    | ok task =>
      exact calls_bind (calls_bgftDownloadRegisterPackageTask _ _ _ _ _ _ _) fun registered =>
        calls_perform_bind (.unlink _) fun _ => trivial

end Calls

section Sample

/-- A system file object with a title and a content id. -/
def sampleSfo : Bytes :=
  sfoMagic++[1,1,0,0]++[0x34,0,0,0]++[0x48,0,0,0]++[2,0,0,0]++
    [0,0,0x04,0x02]++[2,0,0,0]++[4,0,0,0]++[0,0,0,0]++
    [6,0,0x04,0x02]++[37,0,0,0]++[40,0,0,0]++[4,0,0,0]++
    bytes "TITLE"++[0]++bytes "CONTENT_ID"++[0,0,0,0]++
    bytes "T"++[0,0,0]++bytes "UP0000-CUSA00001_00-ABCDEFGHIJKLMNOP"++[0,0,0,0]

def zeros (n : ℕ) : Bytes := List.replicate n 0

/-- The header of a game of 0x3000 bytes, with one entry in the table behind it. -/
def sampleHeader : Bytes :=
  pkgMagic++zeros 0xc++[0,0,0,1]++zeros 4++[0,0,0x20,0]++zeros 0x58++[0,0,0,0x1a]++zeros 0x3b8++
    [0,0,0,0,0,0,0x30,0]++zeros 0x1bc8

/-- The one entry is `param.sfo`. -/
def sampleEntryTable : Bytes := [0,0,0x10,0]++zeros 0xc++[0,0,0x28,0]++[0,0,0,0x74]++zeros 8

def sampleDownload (offset : UInt64) : HttpTransfer.Downloaded :=
  if offset = 0 then ⟨sampleHeader,0x2000,0x3000⟩
  else if offset = 0x2000 then ⟨sampleEntryTable,0x20,0x20⟩
  else ⟨sampleSfo,0x74,0x74⟩

/-- A console on which every call succeeds, with this answer to a registration. -/
def sampleReply (registered : Registered) : (c : ServerCall) → Reply c
  | .httpGetSslVerify => .on
  | .httpSetSslVerify _ => ()
  | .httpLoadCaBundle _ => true
  | .httpSaveConfig _ => true
  | .httpGetLastError => []
  | .httpGetCaBundlePath => httpCaBundlePath
  | .httpHasCaBundle => true
  | .httpDownloadFile _ _ offset _ => some (sampleDownload offset)
  | .httpGetFileSize _ _ => some 0x3000
  | .getLanguageId => some 1
  | .unlink _ => ()
  | .fopen _ => .ok ()
  | .fprintf _ print => print.text.length
  | .fclose _ => ()
  | .writeFileTrunc _ data => ⟨true,fun _ => data.length⟩
  | .readFile _ => some sampleSfo
  | .stat _ => some true
  | .openFile _ => 3
  | .fstat _ => some 0
  | .getForegroundUser => .ok 1
  | .downloadRegisterTask _ => registered
  | .debugDownloadRegisterPkg _ => registered

/-- Every allocation and conversion succeeds. -/
def sampleCalls : InstallCalls := ⟨plainSdk,PieceUrls.plainCall [],true,fun _ => true,0⟩

def sampleServices : Services where
  appInstUtilInitialized := true
  bgftInitialized := true
  ret := fun _ => 0
  existsFlag := fun _ => 0
  size32 := fun _ => 0
  progress := fun _ => ⟨0,0,0,0,0,0,0,0,0,0,0,0⟩
  foundTask := fun _ _ => 0
  errorEnxio := toInt32 0x80020006
  errorEinval := toInt32 0x80020016
  subTypeUnknown := 0
  subTypeMax := 11

def sampleHost : Host := ⟨bytes "10.0.0.2",12801⟩
def sampleStream : StreamId := ⟨0x60000000,0x880012340⟩
def sampleUrls : List Bytes := [bytes "http://h/a.pkg"]

/-- The install of the sample on such a console. -/
def sampleHistory (registered : Registered) : List ServerEvent :=
  Program.history (fun (_ : Unit) c => ((),sampleReply registered c))
    (installPieces sampleCalls sampleStream sampleUrls .on sampleServices sampleHost) ()

def sampleResult (registered : Registered) : Except Answer Answer :=
  (Program.run (fun (_ : Unit) c => ((),sampleReply registered c))
    (installPieces sampleCalls sampleStream sampleUrls .on sampleServices sampleHost) ()).2

theorem sample_ends (registered : Registered) :
    Ends (installPieces sampleCalls sampleStream sampleUrls .on sampleServices sampleHost)
      (sampleHistory registered) (sampleResult registered) :=
  ends_run _ _ _

end Sample

end InstallPieces
end RemotePkgInstaller
