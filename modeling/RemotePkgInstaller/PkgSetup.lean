import RemotePkgInstaller.ServerCalls
import RemotePkgInstaller.Sfo

/-! `pkg_setup_prerequisites`: what an install needs to know of a package, and the files
that it puts into the working directory for it. -/
namespace RemotePkgInstaller
namespace PkgSetup

open HttpState HttpTransfer Programs Program Requests Responses ServerCalls

/-- The files of one install. -/
structure TempPaths where
  refPkgJson : Bytes
  paramSfo : Bytes
  icon0Png : Bytes
  deriving DecidableEq

/-- What is stored through the pointers. -/
structure PackageInfo where
  contentType : ℕ
  packageSize : UInt64
  isPatch : Bool
  hasIcon : Bool
  deriving DecidableEq

def sizeofPkgHeader : ℕ := 0x2000
def sizeofPkgTableEntry : ℕ := 0x20
def pkgMagic : Bytes := [0x7f,0x43,0x4e,0x54]

def entryIdParamSfo : ℕ := 0x1000
def entryIdIcon0Png : ℕ := 0x1200

def contentFlagsFirstPatch : ℕ := 0x00100000
def contentFlagsSubsequentPatch : ℕ := 0x40000000
def contentFlagsDeltaPatch : ℕ := 0x41000000
def contentFlagsCumulativePatch : ℕ := 0x60000000

/-- A program that fails with the text it leaves in `error_buf`. -/
abbrev Setup := ServerProgram Bytes

/-- The buffer of the caller has 256 bytes. -/
def errorText (text : Bytes) : Bytes := strlcpy text 256

def pkgThrowError {α : Type} (text : Bytes) : Setup α := fail (errorText text)

/-- A transfer's own message is passed on when it left one. -/
def pkgThrowHttpError {α : Type} (text : Bytes) : Setup α := do
  let first ← ask .httpGetLastError
  if first ≠ [] then
    let lastError ← ask .httpGetLastError
    pkgThrowError lastError
  else pkgThrowError text

def require (c : Prop) [Decidable c] (text : Bytes) : Setup Unit :=
  if c then pure () else pkgThrowError text

/-- A message that ends with the package's first URL in quotes. -/
def about (text url : Bytes) : Bytes := quoted text url (bytes ".\n")

/-- A header, its fields being big-endian. -/
abbrev PkgHeader := Bytes

section Header

variable (hdr : PkgHeader)

def PkgHeader.entryCount : ℕ := be (window hdr 0x10 4)
def PkgHeader.entryTableOffset : ℕ := be (window hdr 0x18 4)
def PkgHeader.contentType : ℕ := be (window hdr 0x74 4)
def PkgHeader.contentFlags : ℕ := be (window hdr 0x78 4)
def PkgHeader.packageSize : UInt64 := UInt64.ofNat (be (window hdr 0x430 8))
def PkgHeader.digest : Bytes := window hdr 0xfe0 0x20

def pkgIsPatch : Bool :=
  let flags := PkgHeader.contentFlags hdr
  flags &&& contentFlagsFirstPatch ≠ 0 || flags &&& contentFlagsSubsequentPatch ≠ 0 ||
    flags &&& contentFlagsDeltaPatch ≠ 0 || flags &&& contentFlagsCumulativePatch ≠ 0

end Header

/-- Where the entry table says that the two files are. -/
structure EntryScan where
  paramSfoOffset : ℕ
  paramSfoSize : ℕ
  icon0PngOffset : ℕ
  icon0PngSize : ℕ
  deriving DecidableEq

/-- Of several entries with the same id the last one counts. -/
def scanEntry (entries : Bytes) (scan : EntryScan) (i : ℕ) : EntryScan :=
  let entry := window entries (i*sizeofPkgTableEntry) sizeofPkgTableEntry
  let id := be (window entry 0x00 4)
  let offset := be (window entry 0x10 4)
  let size := be (window entry 0x14 4)
  if id = entryIdParamSfo then { scan with paramSfoOffset := offset, paramSfoSize := size }
  else if id = entryIdIcon0Png then { scan with icon0PngOffset := offset, icon0PngSize := size }
  else scan

def scanEntries (entries : Bytes) (entryCount : ℕ) : EntryScan :=
  (List.range entryCount).foldl (scanEntry entries) ⟨0,0,0,0⟩

def EntryScan.hasIcon (scan : EntryScan) : Bool := 0 < scan.icon0PngOffset && 0 < scan.icon0PngSize

/-- What the transfers from a package's first piece deliver. -/
structure Package where
  header : PkgHeader
  totalSize : UInt64
  paramSfo : Bytes
  icon0Png : Option Bytes
  deriving DecidableEq

variable (sslVerify : SslVerifyMode)

/-- One range of the package. -/
def download (url : Bytes) (size : ℕ) (offset : ℕ) (failed mismatch : Bytes) : Setup Downloaded := do
  let answer ← ask
    (.httpDownloadFile url (some (UInt64.ofNat size)) (UInt64.ofNat offset) (some sslVerify))
  match answer with
  | none => pkgThrowHttpError failed
  | some downloaded => do
    require (downloaded.dataSize = UInt64.ofNat size) mismatch
    pure downloaded

def downloadHeader (url : Bytes) (pieceCount : ℕ) : Setup Downloaded := do
  let downloaded ← download sslVerify url sizeofPkgHeader 0
    (about (bytes "Unable to download package header for ") url)
    (about (bytes "Package header size mismatch for ") url)
  let hdr : PkgHeader := downloaded.data
  require (hdr.take 4 = pkgMagic) (about (bytes "Invalid package format for ") url)
  require (¬ (pieceCount = 1 ∧ 0 < hdr.packageSize ∧ downloaded.totalSize ≠ hdr.packageSize))
    (about (bytes "Unexpected file size for ") url)
  pure downloaded

def downloadEntryTable (url : Bytes) (hdr : PkgHeader) : Setup EntryScan := do
  let entryTableSize := hdr.entryCount*sizeofPkgTableEntry
  require (entryTableSize ≠ 0) (about (bytes "Empty entry table for ") url)
  let downloaded ← download sslVerify url entryTableSize hdr.entryTableOffset
    (about (bytes "Unable to download package entry table for ") url)
    (about (bytes "Package entry table size mismatch for ") url)
  pure (scanEntries downloaded.data hdr.entryCount)

/-- Without `param.sfo` the install cannot be described to the download service, and one
without the magic is the wrong bytes. -/
def downloadParamSfo (url : Bytes) (scan : EntryScan) : Setup Bytes := do
  require (scan.paramSfoOffset ≠ 0 ∧ scan.paramSfoSize ≠ 0)
    (about (bytes "No param.sfo entry in package ") url)
  let downloaded ← download sslVerify url scan.paramSfoSize scan.paramSfoOffset
    (about (bytes "Unable to download param.sfo for ") url)
    (about (bytes "param.sfo size mismatch for ") url)
  require (4 ≤ scan.paramSfoSize ∧ downloaded.data.take 4 = Sfo.sfoMagic)
    (about (bytes "Invalid param.sfo contents for ") url)
  pure downloaded.data

def downloadIcon (url : Bytes) (scan : EntryScan) : Setup (Option Bytes) :=
  if scan.hasIcon then do
    let downloaded ← download sslVerify url scan.icon0PngSize scan.icon0PngOffset
      (about (bytes "Unable to download icon0.png for ") url)
      (about (bytes "icon0.png size mismatch for ") url)
    pure (some downloaded.data)
  else pure none

def inspectPackage (url : Bytes) (pieceCount : ℕ) : Setup Package := do
  let header ← downloadHeader sslVerify url pieceCount
  let scan ← downloadEntryTable sslVerify url header.data
  let paramSfo ← downloadParamSfo sslVerify url scan
  let icon0Png ← downloadIcon sslVerify url scan
  pure ⟨header.data,header.totalSize,paramSfo,icon0Png⟩

def hexDigits : Bytes := bytes "0123456789ABCDEF"

/-- Two upper-case digits a byte; the buffers of both digests are large enough. -/
def bytesToHex (data : Bytes) : Bytes :=
  data.flatMap fun (c : UInt8) => [hexDigits.getD (c >>> 4).toNat 0,hexDigits.getD (c &&& 0xf).toNat 0]

def zeroMiniDigest : Bytes := List.replicate 0x14 0

/-- The size of a piece: that of the first one is known. -/
def pieceSize (known : Option UInt64) (url : Bytes) : Setup UInt64 :=
  match known with
  | some totalSize => pure totalSize
  | none => do
    let answer ← ask (.httpGetFileSize url (some sslVerify))
    match answer with
    | none => pkgThrowHttpError (about (bytes "Unable to get file size for piece ") url)
    | some totalSize => pure totalSize

/-- The loop over the pieces from `offset` on; it ends with their total size. -/
def printPieces (json : Bytes) : Option UInt64 → UInt64 → List Bytes → Setup UInt64
  | _,offset,[] => pure offset
  | known,offset,url::urls => do
    let totalSize ← pieceSize sslVerify known url
    let _ ← ask (.fprintf json
      (.piece url offset.toNat totalSize.toNat (bytesToHex zeroMiniDigest)))
    if urls ≠ [] then
      let _ ← ask (.fprintf json .comma)
      printPieces json none (offset+totalSize) urls
    else printPieces json none (offset+totalSize) urls

def writeFile (path data failed : Bytes) : Setup Unit := do
  let io ← ask (.writeFileTrunc path data)
  require ((Util.writeFileTrunc none data io).status = true) failed

/-- What is done while the reference json is open. -/
def writeFiles (paths : TempPaths) (urls : List Bytes) (package : Package) : Setup Unit := do
  let url := urls.headD []
  let packageSize := package.header.packageSize
  let _ ← ask (.fprintf paths.refPkgJson
    (.head packageSize.toNat (bytesToHex package.header.digest) urls.length))
  let offset ← printPieces sslVerify paths.refPkgJson (some package.totalSize) 0 urls
  let _ ← ask (.fprintf paths.refPkgJson .tail)
  require (¬ (0 < packageSize ∧ offset ≠ packageSize))
    (about (bytes "Unexpected total file size for ") url)
  writeFile paths.paramSfo package.paramSfo (about (bytes "Unable to write param.sfo file for ") url)
  match package.icon0Png with
  | none => pure ()
  | some icon0Png =>
    writeFile paths.icon0Png icon0Png (about (bytes "Unable to write icon0.png file for ") url)

/-- The files are written, or none of them is left. -/
def publish (paths : TempPaths) (urls : List Bytes) (package : Package) : Setup Unit := do
  let opened ← ask (.fopen paths.refPkgJson)
  match opened with
  | .error errno => pkgThrowError (bytes "fopen("++paths.refPkgJson++bytes ") failed: "++
      intText errno++bytes "\n")
  | .ok () => do
    let written ← caught (writeFiles sslVerify paths urls package)
    ask (.fclose paths.refPkgJson)
    match written with
    | .ok () => pure ()
    | .error text => do
      ask (.unlink paths.icon0Png)
      ask (.unlink paths.paramSfo)
      ask (.unlink paths.refPkgJson)
      fail text

def pkgSetupPrerequisites (paths : TempPaths) (urls : List Bytes) : Setup PackageInfo := do
  require (urls ≠ []) (bytes "No pieces.\n")
  require (paths.refPkgJson ≠ []) (bytes "Empty reference package json file path specified.\n")
  require (paths.paramSfo ≠ []) (bytes "Empty param.sfo file path specified.\n")
  require (paths.icon0Png ≠ []) (bytes "Empty icon0.png file path specified.\n")
  ask (.unlink paths.refPkgJson)
  ask (.unlink paths.paramSfo)
  ask (.unlink paths.icon0Png)
  let package ← inspectPackage sslVerify (urls.headD []) urls.length
  publish sslVerify paths urls package
  pure ⟨package.header.contentType,package.header.packageSize,pkgIsPatch package.header,
    package.icon0Png.isSome⟩

section Calls

/-- The calls of `pkg_setup_prerequisites`: every transfer has the mode that was given, and
every URL is one that was given. -/
inductive SetupCall (paths : TempPaths) (urls : List Bytes) : ServerCall → Prop
  | httpGetLastError : SetupCall paths urls .httpGetLastError
  | httpDownloadFile {url : Bytes} (hurl : url ∈ urls) (size : Option UInt64) (offset : UInt64) :
      SetupCall paths urls (.httpDownloadFile url size offset (some sslVerify))
  | httpGetFileSize {url : Bytes} (hurl : url ∈ urls) :
      SetupCall paths urls (.httpGetFileSize url (some sslVerify))
  | unlink (path : Bytes) : SetupCall paths urls (.unlink path)
  | fopen : SetupCall paths urls (.fopen paths.refPkgJson)
  | fprintf {print : JsonPrint}
      (hurl : ∀ url fileOffset fileSize hashValue,
        print = .piece url fileOffset fileSize hashValue → url ∈ urls) :
      SetupCall paths urls (.fprintf paths.refPkgJson print)
  | fclose : SetupCall paths urls (.fclose paths.refPkgJson)
  | writeParamSfo (data : Bytes) : SetupCall paths urls (.writeFileTrunc paths.paramSfo data)
  | writeIcon0Png (data : Bytes) : SetupCall paths urls (.writeFileTrunc paths.icon0Png data)

variable {sslVerify : SslVerifyMode} {paths : TempPaths} {urls : List Bytes} {α : Type}

theorem calls_require (P : ServerCall → Prop) (c : Prop) [Decidable c] (text : Bytes) :
    Calls P (require c text) := by
  unfold require
  split_ifs <;> trivial

theorem calls_require_bind {P : ServerCall → Prop} {c : Prop} [Decidable c] {text : Bytes}
    {f : Unit → Setup α} (h : c → Calls P (f ())) : Calls P (require c text >>= f) := by
  unfold require
  split_ifs with hc
  · exact h hc
  · trivial

/-- The calls of a transfer from this URL have the property. -/
structure Transfers (P : ServerCall → Prop) (sslVerify : SslVerifyMode) (url : Bytes) : Prop where
  httpGetLastError : P .httpGetLastError
  httpDownloadFile : ∀ size offset, P (.httpDownloadFile url size offset (some sslVerify))

theorem calls_pkgThrowHttpError {P : ServerCall → Prop} (h : P .httpGetLastError) (text : Bytes) :
    Calls P (pkgThrowHttpError text : Setup α) := by
  refine calls_perform_bind h fun first => ?_
  split_ifs
  · exact calls_perform_bind h fun _ => trivial
  · trivial

section Transfers

variable {P : ServerCall → Prop} {url : Bytes}

theorem calls_download (h : Transfers P sslVerify url) (size offset : ℕ) (failed mismatch : Bytes) :
    Calls P (download sslVerify url size offset failed mismatch) := by
  refine calls_perform_bind (h.httpDownloadFile _ _) fun answer => ?_
  cases answer with
  | none => exact calls_pkgThrowHttpError h.httpGetLastError failed
  | some downloaded => exact calls_require_bind fun _ => trivial

theorem calls_downloadEntryTable (h : Transfers P sslVerify url) (hdr : PkgHeader) :
    Calls P (downloadEntryTable sslVerify url hdr) :=
  calls_require_bind fun _ => calls_bind (calls_download h _ _ _ _) fun _ => trivial

theorem calls_downloadParamSfo (h : Transfers P sslVerify url) (scan : EntryScan) :
    Calls P (downloadParamSfo sslVerify url scan) :=
  calls_require_bind fun _ => calls_bind (calls_download h _ _ _ _) fun _ =>
    calls_require_bind fun _ => trivial

theorem calls_downloadIcon (h : Transfers P sslVerify url) (scan : EntryScan) :
    Calls P (downloadIcon sslVerify url scan) := by
  unfold downloadIcon
  split_ifs
  · exact calls_bind (calls_download h _ _ _ _) fun _ => trivial
  · trivial

theorem calls_inspectPackage (h : Transfers P sslVerify url) (pieceCount : ℕ) :
    Calls P (inspectPackage sslVerify url pieceCount) := by
  refine calls_bind ?_ fun header => calls_bind (calls_downloadEntryTable h _) fun scan =>
    calls_bind (calls_downloadParamSfo h scan) fun paramSfo =>
    calls_bind (calls_downloadIcon h scan) fun icon0Png => trivial
  exact calls_bind (calls_download h _ _ _ _) fun _ =>
    calls_require_bind fun _ => calls_require_bind fun _ => trivial

end Transfers

theorem calls_pieceSize (known : Option UInt64) {url : Bytes} (hurl : url ∈ urls) :
    Calls (SetupCall sslVerify paths urls) (pieceSize sslVerify known url) := by
  cases known with
  | some totalSize => trivial
  | none =>
    refine calls_perform_bind (.httpGetFileSize hurl) fun answer => ?_
    cases answer with
    | none => exact calls_pkgThrowHttpError .httpGetLastError _
    | some totalSize => trivial

theorem calls_printPieces (known : Option UInt64) (offset : UInt64) {rest : List Bytes}
    (hrest : ∀ url ∈ rest, url ∈ urls) :
    Calls (SetupCall sslVerify paths urls)
      (printPieces sslVerify paths.refPkgJson known offset rest) := by
  induction rest generalizing known offset with
  | nil => trivial
  | cons url rest ih =>
    have hurl := hrest url (by simp)
    have hih := fun offset => ih none offset fun u hu => hrest u (by simp [hu])
    refine calls_bind (calls_pieceSize known hurl) fun totalSize =>
      calls_perform_bind (.fprintf ?_) fun _ => ?_
    · rintro u _ _ _ h
      injection h with h
      exact h ▸ hurl
    · split_ifs
      · exact calls_perform_bind (.fprintf (by simp)) fun _ => hih _
      · exact hih _

theorem calls_writeFiles (package : Package) :
    Calls (SetupCall sslVerify paths urls) (writeFiles sslVerify paths urls package) := by
  have hwrite : ∀ {path data failed : Bytes},
      SetupCall sslVerify paths urls (.writeFileTrunc path data) →
      Calls (SetupCall sslVerify paths urls) (writeFile path data failed) :=
    fun h => calls_perform_bind h fun _ => calls_require _ _ _
  refine calls_perform_bind (.fprintf (by simp)) fun _ =>
    calls_bind (calls_printPieces _ _ fun _ h => h) fun _ =>
    calls_perform_bind (.fprintf (by simp)) fun _ => calls_require_bind fun _ =>
    calls_bind (hwrite (.writeParamSfo _)) fun _ => ?_
  cases package.icon0Png with
  | none => trivial
  | some icon0Png => exact hwrite (.writeIcon0Png _)

theorem calls_publish (package : Package) :
    Calls (SetupCall sslVerify paths urls) (publish sslVerify paths urls package) := by
  refine calls_perform_bind .fopen fun opened => ?_
  cases opened with
  | error errno => trivial
  | ok u =>
    refine calls_bind (calls_caught (calls_writeFiles package)) fun written =>
      calls_perform_bind .fclose fun _ => ?_
    cases written with
    | ok u => trivial
    | error text =>
      exact calls_perform_bind (.unlink _) fun _ => calls_perform_bind (.unlink _) fun _ =>
        calls_perform_bind (.unlink _) fun _ => trivial

theorem calls_pkgSetupPrerequisites (sslVerify : SslVerifyMode) (paths : TempPaths)
    (urls : List Bytes) :
    Calls (SetupCall sslVerify paths urls) (pkgSetupPrerequisites sslVerify paths urls) := by
  refine calls_require_bind fun hurls => calls_require_bind fun _ => calls_require_bind fun _ =>
    calls_require_bind fun _ => calls_perform_bind (.unlink _) fun _ =>
    calls_perform_bind (.unlink _) fun _ => calls_perform_bind (.unlink _) fun _ => ?_
  have hurl : urls.headD [] ∈ urls := by
    obtain ⟨url,rest,rfl⟩ := List.exists_cons_of_ne_nil hurls
    exact List.mem_cons_self
  exact calls_bind (calls_inspectPackage ⟨.httpGetLastError,.httpDownloadFile hurl⟩ _) fun package =>
    calls_bind (calls_publish package) fun _ => trivial

end Calls

end PkgSetup
end RemotePkgInstaller
