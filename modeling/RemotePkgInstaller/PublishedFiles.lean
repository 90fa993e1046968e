import RemotePkgInstaller.InstallPieces

/-! The files that the calls of an install create, fill and delete, and what
`pkg_setup_prerequisites` leaves of them when it succeeds. -/
namespace RemotePkgInstaller
namespace PublishedFiles

open HttpState HttpTransfer PkgSetup Programs Program ServerCalls

abbrev Files := Bytes → Option Bytes

/-- Every `unlink` succeeds; of a print the first bytes get into the file. -/
def fileEffect (files : Files) : ServerEvent → Files
  | ⟨.unlink path,_⟩ => Function.update files path none
  | ⟨.fopen path,.ok ()⟩ => Function.update files path (some [])
  | ⟨.fprintf path print,accepted⟩ =>
    Function.update files path ((files path).map (·++print.text.take accepted))
  | ⟨.writeFileTrunc path data,io⟩ =>
    Function.update files path (Util.writeFileTrunc (files path) data io).file
  | _ => files

def transferOf : ServerEvent → List Downloaded
  | ⟨.httpDownloadFile _ _ _ _,some downloaded⟩ => [downloaded]
  | _ => []

def printOf : ServerEvent → List (JsonPrint × ℕ)
  | ⟨.fprintf _ print,accepted⟩ => [(print,accepted)]
  | _ => []

/-- The service has registered a task. -/
def registers : ServerEvent → Bool
  | ⟨.downloadRegisterTask _,answer⟩ => answer.ret = 0
  | ⟨.debugDownloadRegisterPkg _,answer⟩ => answer.ret = 0
  | _ => false

/-- What an onlooker has seen: the files, what has been downloaded and printed, and whether
a task has been registered. -/
structure Seen where
  files : Files
  transfers : List Downloaded
  printed : List (JsonPrint × ℕ)
  registered : Bool

def Seen.start (files : Files) : Seen := ⟨files,[],[],false⟩

def see (s : Seen) (e : ServerEvent) : Seen :=
  ⟨fileEffect s.files e,s.transfers++transferOf e,s.printed++printOf e,s.registered || registers e⟩

/-- The package has an icon: its entry table, the second thing that is downloaded, lists one. -/
def listsIcon : List Downloaded → Bool
  | header::entryTable::_ =>
    (scanEntries entryTable.data (PkgHeader.entryCount header.data)).hasIcon
  | _ => false

/-- What gets into the reference json. -/
def printedText (printed : List (JsonPrint × ℕ)) : Bytes :=
  printed.flatMap fun print => print.1.text.take print.2

/-- The prints for pieces and their sizes, the first of which starts at `offset`. -/
def piecePrints : UInt64 → List (Bytes × UInt64) → List JsonPrint
  | _,[] => []
  | offset,(url,size)::pieces =>
    .piece url offset.toNat size.toNat (bytesToHex zeroMiniDigest)::
      ((if pieces = [] then [] else [.comma])++piecePrints (offset+size) pieces)

def jsonPrints (packageSize : ℕ) (packageDigest : Bytes) (pieces : List (Bytes × UInt64)) :
    List JsonPrint :=
  .head packageSize packageDigest pieces.length::(piecePrints 0 pieces++[.tail])

/-- Nothing but downloads lies between the two. -/
structure Downloads (s s' : Seen) : Prop where
  files : s'.files = s.files
  printed : s'.printed = s.printed
  registered : s'.registered = s.registered

section Setup

variable {sslVerify : SslVerifyMode} {paths : TempPaths} {s : Seen} {α : Type}

section Checks

variable {S : Type} {effect : S → ServerEvent → S} {st : S}

theorem yields_require {c : Prop} [Decidable c] {text : Bytes} {Q : S → Unit → Prop}
    (h : c → Q st ()) : Yields effect Q (require c text) st := by
  unfold require
  split_ifs with hc
  · exact yields_done.mpr (h hc)
  · exact yields_fail

theorem yields_require_bind {c : Prop} [Decidable c] {text : Bytes} {f : Unit → Setup α}
    {Q : S → α → Prop} (h : c → Yields effect Q (f ()) st) :
    Yields effect Q (require c text >>= f) st :=
  yields_bind.mpr (yields_require h)

theorem yields_pkgThrowHttpError {text : Bytes} {Q : S → α → Prop} :
    Yields effect Q (pkgThrowHttpError text) st := by
  refine yields_perform_bind.mpr fun first => ?_
  split_ifs
  · exact yields_perform_bind.mpr fun _ => yields_fail
  · exact yields_fail

end Checks

theorem yields_download (url : Bytes) (size offset : ℕ) (failed mismatch : Bytes) :
    Yields see (fun s' downloaded => Downloads s s' ∧ s'.transfers = s.transfers++[downloaded])
      (download sslVerify url size offset failed mismatch) s := by
  refine yields_perform_bind.mpr fun answer => ?_
  cases answer with
  | none => exact yields_pkgThrowHttpError
  | some downloaded =>
    refine yields_require_bind fun _ => yields_done.mpr ⟨⟨rfl,?_,?_⟩,rfl⟩
    · exact List.append_nil _
    · exact Bool.or_false _

theorem Downloads.trans {s s' s'' : Seen} (h : Downloads s s') (h' : Downloads s' s'') :
    Downloads s s'' :=
  ⟨h'.files.trans h.files,h'.printed.trans h.printed,h'.registered.trans h.registered⟩

theorem yields_downloadHeader (url : Bytes) (pieceCount : ℕ) :
    Yields see (fun s' downloaded => Downloads s s' ∧ s'.transfers = s.transfers++[downloaded])
      (downloadHeader sslVerify url pieceCount) s := by
  refine yields_bind.mpr ((yields_download _ _ _ _ _).mono fun s' downloaded h => ?_)
  exact yields_require_bind fun _ => yields_require_bind fun _ => yields_done.mpr h

theorem yields_downloadEntryTable (url : Bytes) (hdr : PkgHeader) :
    Yields see (fun s' scan => Downloads s s' ∧ ∃ entryTable,
        s'.transfers = s.transfers++[entryTable] ∧
          scan = scanEntries entryTable.data hdr.entryCount)
      (downloadEntryTable sslVerify url hdr) s := by
  refine yields_require_bind fun _ => yields_bind.mpr
    ((yields_download _ _ _ _ _).mono fun s' downloaded h => ?_)
  exact yields_done.mpr ⟨h.1,downloaded,h.2,rfl⟩

theorem yields_downloadParamSfo (url : Bytes) (scan : EntryScan) :
    Yields see (fun s' paramSfo => Downloads s s' ∧ ∃ downloaded,
        s'.transfers = s.transfers++[downloaded] ∧ paramSfo = downloaded.data)
      (downloadParamSfo sslVerify url scan) s := by
  refine yields_require_bind fun _ => yields_bind.mpr
    ((yields_download _ _ _ _ _).mono fun s' downloaded h => ?_)
  exact yields_require_bind fun _ => yields_done.mpr ⟨h.1,downloaded,h.2,rfl⟩

theorem yields_downloadIcon (url : Bytes) (scan : EntryScan) :
    Yields see (fun s' icon0Png => Downloads s s' ∧ icon0Png.isSome = scan.hasIcon ∧
        ∃ icon : Option Downloaded, s'.transfers = s.transfers++icon.toList ∧
          icon0Png = icon.map Downloaded.data)
      (downloadIcon sslVerify url scan) s := by
  unfold downloadIcon
  split_ifs with hicon
  · refine yields_bind.mpr ((yields_download _ _ _ _ _).mono fun s' downloaded h => ?_)
    exact yields_done.mpr ⟨h.1,hicon.symm,some downloaded,h.2,rfl⟩
  · refine yields_done.mpr ⟨⟨rfl,rfl,rfl⟩,?_,none,(List.append_nil _).symm,rfl⟩
    simpa using hicon

/-- What the transfers of an inspection have delivered. -/
structure Delivered (transfers : List Downloaded) (package : Package) : Prop where
  listsIcon_eq : listsIcon transfers = package.icon0Png.isSome
  delivered : ∃ (header entryTable paramSfo : Downloaded) (icon : Option Downloaded),
    transfers = header::entryTable::paramSfo::icon.toList ∧ package.header = header.data ∧
      package.totalSize = header.totalSize ∧ package.paramSfo = paramSfo.data ∧
      package.icon0Png = icon.map Downloaded.data

theorem yields_inspectPackage (url : Bytes) (pieceCount : ℕ) (hs : s.transfers = []) :
    Yields see (fun s' package => Downloads s s' ∧ Delivered s'.transfers package)
      (inspectPackage sslVerify url pieceCount) s := by
  refine yields_bind.mpr ((yields_downloadHeader _ _).mono fun s1 header h1 => ?_)
  refine yields_bind.mpr ((yields_downloadEntryTable _ _).mono fun s2 scan h2 => ?_)
  refine yields_bind.mpr ((yields_downloadParamSfo _ _).mono fun s3 paramSfo h3 => ?_)
  refine yields_bind.mpr ((yields_downloadIcon _ _).mono fun s4 icon0Png h4 => ?_)
  obtain ⟨hd2,entryTable,ht2,rfl⟩ := h2
  obtain ⟨hd3,downloaded,ht3,hsfo⟩ := h3
  obtain ⟨hd4,hicon,icon,ht4,hdata⟩ := h4
  have htransfers : s4.transfers = header::entryTable::downloaded::icon.toList := by
    rw [ht4,ht3,ht2,h1.2,hs]
    simp
  refine yields_done.mpr ⟨((h1.1.trans hd2).trans hd3).trans hd4,?_,header,entryTable,downloaded,
    icon,htransfers,rfl,rfl,hsfo,hdata⟩
  rw [htransfers,listsIcon,hicon]

/-- Nothing but prints into the reference json lies between the two, and what has been
printed is what the file holds. -/
structure Prints (json : Bytes) (s s' : Seen) (prints : List JsonPrint) : Prop where
  transfers : s'.transfers = s.transfers
  registered : s'.registered = s.registered
  printed : ∃ printed, s'.printed = s.printed++printed ∧ printed.map Prod.fst = prints ∧
    s'.files json = (s.files json).map (·++printedText printed)
  other : ∀ path, path ≠ json → s'.files path = s.files path

theorem Prints.refl (json : Bytes) (s : Seen) : Prints json s s [] :=
  ⟨rfl,rfl,⟨[],(List.append_nil _).symm,rfl,by simp [printedText]⟩,fun _ _ => rfl⟩

theorem Prints.trans {json : Bytes} {s s' s'' : Seen} {prints prints' : List JsonPrint}
    (h : Prints json s s' prints) (h' : Prints json s' s'' prints') :
    Prints json s s'' (prints++prints') := by
  obtain ⟨printed,hp,hfst,hfile⟩ := h.printed
  obtain ⟨printed',hp',hfst',hfile'⟩ := h'.printed
  refine ⟨h'.transfers.trans h.transfers,h'.registered.trans h.registered,
    ⟨printed++printed',?_,?_,?_⟩,fun path hpath => (h'.other path hpath).trans (h.other path hpath)⟩
  · rw [hp',hp,List.append_assoc]
  · rw [List.map_append,hfst,hfst']
  · rw [hfile',hfile,Option.map_map]
    congr 1
    funext text
    simp [printedText]

/-- A print into the file, whatever part of it gets there. -/
theorem prints_fprintf (json : Bytes) (s : Seen) (print : JsonPrint) (accepted : ℕ) :
    Prints json s (see s ⟨.fprintf json print,accepted⟩) [print] := by
  refine ⟨List.append_nil _,Bool.or_false _,⟨[(print,accepted)],rfl,rfl,?_⟩,fun path hpath => ?_⟩
  · simp [see,fileEffect,printedText]
  · simp [see,fileEffect,hpath]

/-- A question to the host is not seen. -/
theorem prints_httpGetFileSize (json : Bytes) (s : Seen) (url : Bytes)
    (answer : Option UInt64) :
    Prints json s (see s ⟨.httpGetFileSize url (some sslVerify),answer⟩) [] :=
  ⟨List.append_nil _,Bool.or_false _,
    ⟨[],rfl,rfl,by simp [see,fileEffect,printedText]⟩,fun _ _ => rfl⟩

theorem yields_pieceSize (json : Bytes) (known : Option UInt64) (url : Bytes) :
    Yields see (fun s' _ => Prints json s s' []) (pieceSize sslVerify known url) s := by
  cases known with
  | some totalSize => exact yields_done.mpr (.refl _ _)
  | none =>
    refine yields_perform_bind.mpr fun answer => ?_
    cases answer with
    | none => exact yields_pkgThrowHttpError
    | some totalSize => exact yields_done.mpr (prints_httpGetFileSize json s url _)

/-- The loop prints every piece, in order, each where the one before it ends. -/
theorem yields_printPieces (json : Bytes) (urls : List Bytes) (known : Option UInt64)
    (offset : UInt64) :
    Yields see (fun s' _ => ∃ sizes : List UInt64, sizes.length = urls.length ∧
        Prints json s s' (piecePrints offset (urls.zip sizes)))
      (printPieces sslVerify json known offset urls) s := by
  induction urls generalizing s known offset with
  | nil => exact yields_done.mpr ⟨[],rfl,.refl _ _⟩
  | cons url urls ih =>
    refine yields_bind.mpr ((yields_pieceSize json known url).mono fun s1 totalSize h1 => ?_)
    refine yields_perform_bind.mpr fun accepted => ?_
    have h2 := h1.trans (prints_fprintf json s1
      (.piece url offset.toNat totalSize.toNat (bytesToHex zeroMiniDigest)) accepted)
    split_ifs with hurls
    · refine yields_perform_bind.mpr fun accepted' => ?_
      have h3 := h2.trans (prints_fprintf json _ .comma accepted')
      refine (ih none (offset+totalSize)).mono ?_
      rintro s4 _ ⟨sizes,hlen,h4⟩
      have hzip : urls.zip sizes ≠ [] := by
        obtain ⟨u,us,rfl⟩ := List.exists_cons_of_ne_nil hurls
        cases sizes with
        | nil => simp at hlen
        | cons size sizes => simp
      exact ⟨totalSize::sizes,by simp [hlen],by simpa [piecePrints,hzip] using h3.trans h4⟩
    · refine (ih none (offset+totalSize)).mono ?_
      rintro s3 _ ⟨sizes,hlen,h3⟩
      have hnil : urls = [] := by simpa using hurls
      subst hnil
      exact ⟨totalSize::sizes,by simp [hlen],by simpa [piecePrints] using h2.trans h3⟩

/-- A file that is reported as written holds its data, and nothing else is changed. -/
theorem yields_writeFile (path data failed : Bytes) :
    Yields see (fun s' _ => s' = { s with files := Function.update s.files path (some data) })
      (writeFile path data failed) s := by
  refine yields_perform_bind.mpr fun io => yields_require fun hstatus => ?_
  have hfile : (Util.writeFileTrunc (s.files path) data io).file = some data := by
    apply Util.writeFileTrunc_complete
    rw [Util.writeFileTrunc_status] at hstatus ⊢
    exact hstatus
  simp [see,fileEffect,transferOf,printOf,registers,hfile]

/-- The three paths name three files. -/
structure Distinct (paths : TempPaths) : Prop where
  json_sfo : paths.refPkgJson ≠ paths.paramSfo
  json_icon : paths.refPkgJson ≠ paths.icon0Png
  sfo_icon : paths.paramSfo ≠ paths.icon0Png

/-- The files of a package that has been inspected are written. -/
structure Written (paths : TempPaths) (urls : List Bytes) (package : Package) (s s' : Seen) :
    Prop where
  transfers : s'.transfers = s.transfers
  registered : s'.registered = s.registered
  json : s'.files paths.refPkgJson = some (printedText s'.printed)
  icon : s'.files paths.icon0Png = package.icon0Png
  prints : ∃ sizes : List UInt64, sizes.length = urls.length ∧
    s'.printed.map Prod.fst = jsonPrints package.header.packageSize.toNat
      (bytesToHex package.header.digest) (urls.zip sizes)

theorem yields_writeFiles (hpaths : Distinct paths) (urls : List Bytes) (package : Package)
    (hprinted : s.printed = []) (hjson : s.files paths.refPkgJson = some [])
    (hicon : s.files paths.icon0Png = none) :
    Yields see (fun s' _ => Written paths urls package s s' ∧
        s'.files paths.paramSfo = some package.paramSfo)
      (writeFiles sslVerify paths urls package) s := by
  refine yields_perform_bind.mpr fun accepted => ?_
  have h1 := prints_fprintf paths.refPkgJson s
    (.head package.header.packageSize.toNat (bytesToHex package.header.digest) urls.length) accepted
  refine yields_bind.mpr ((yields_printPieces _ _ _ _).mono ?_)
  rintro s2 offset ⟨sizes,hlen,h2⟩
  refine yields_perform_bind.mpr fun accepted' => ?_
  have h3 := (h1.trans h2).trans (prints_fprintf paths.refPkgJson s2 .tail accepted')
  generalize see s2 ⟨.fprintf paths.refPkgJson .tail,accepted'⟩ = s3 at h3
  refine yields_require_bind fun _ => yields_bind.mpr ((yields_writeFile _ _ _).mono ?_)
  rintro s4 _ rfl
  -- what the prints have left, before the two other files are written
  obtain ⟨printed,hp,hfst,hfile⟩ := h3.printed
  rw [hprinted,List.nil_append] at hp
  rw [hjson,Option.map_some,List.nil_append,← hp] at hfile
  have hprints : s3.printed.map Prod.fst = jsonPrints package.header.packageSize.toNat
      (bytesToHex package.header.digest) (urls.zip sizes) := by
    rw [hp,hfst,jsonPrints,List.length_zip,hlen,min_self,List.singleton_append,List.cons_append]
  have hnone : s3.files paths.icon0Png = none :=
    (h3.other _ hpaths.json_icon.symm).trans hicon
  split
  · next hpackage =>
    refine yields_done.mpr ⟨⟨h3.transfers,h3.registered,?_,?_,sizes,hlen,hprints⟩,
      Function.update_self _ _ _⟩
    · exact (Function.update_of_ne hpaths.json_sfo _ _).trans hfile
    · exact (Function.update_of_ne hpaths.sfo_icon.symm _ _).trans (hnone.trans hpackage.symm)
  · next icon0Png hpackage =>
    refine (yields_writeFile _ _ _).mono ?_
    rintro s5 _ rfl
    refine ⟨⟨h3.transfers,h3.registered,?_,?_,sizes,hlen,hprints⟩,?_⟩
    · exact (Function.update_of_ne hpaths.json_icon _ _).trans
        ((Function.update_of_ne hpaths.json_sfo _ _).trans hfile)
    · exact (Function.update_self _ _ _).trans hpackage.symm
    · exact (Function.update_of_ne hpaths.sfo_icon _ _).trans (Function.update_self _ _ _)

theorem see_fclose (s : Seen) (path : Bytes) (r : Unit) : see s ⟨.fclose path,r⟩ = s := by
  simp [see,fileEffect,transferOf,printOf,registers]

theorem see_unlink (s : Seen) (path : Bytes) (r : Unit) :
    see s ⟨.unlink path,r⟩ = { s with files := Function.update s.files path none } := by
  simp [see,fileEffect,transferOf,printOf,registers]

theorem see_fopen (s : Seen) (path : Bytes) :
    see s ⟨.fopen path,.ok ()⟩ = { s with files := Function.update s.files path (some []) } := by
  simp [see,fileEffect,transferOf,printOf,registers]

theorem yields_publish (hpaths : Distinct paths) (urls : List Bytes) (package : Package)
    (hprinted : s.printed = []) (hicon : s.files paths.icon0Png = none) :
    Yields see (fun s' _ => Written paths urls package s s' ∧
        s'.files paths.paramSfo = some package.paramSfo)
      (publish sslVerify paths urls package) s := by
  refine yields_perform_bind.mpr fun opened => ?_
  cases opened with
  | error errno => exact yields_fail
  | ok u =>
    have hs1 := see_fopen s paths.refPkgJson
    refine yields_bind.mpr (yields_caught.mpr ?_)
    refine Ensures.mono (yields_writeFiles hpaths urls package (by rw [hs1]; exact hprinted)
      (by rw [hs1]; exact Function.update_self _ _ _)
      (by rw [hs1]; exact (Function.update_of_ne hpaths.json_icon.symm _ _).trans hicon))
      fun s2 written h2 => yields_perform_bind.mpr fun r => ?_
    rw [see_fclose]
    cases written with
    | ok u =>
      obtain ⟨hw,hsfo⟩ := h2 u rfl
      refine yields_done.mpr ⟨⟨?_,?_,hw.json,hw.icon,hw.prints⟩,hsfo⟩
      · rw [hw.transfers,hs1]
      · rw [hw.registered,hs1]
    | error text => exact fun _ _ _ => yields_fail

/-- What `pkg_setup_prerequisites` leaves when it succeeds: the reference json, and an icon
if the package has one. -/
structure Published (paths : TempPaths) (urls : List Bytes) (s s' : Seen) (info : PackageInfo) :
    Prop where
  registered : s'.registered = s.registered
  json : s'.files paths.refPkgJson = some (printedText s'.printed)
  icon : (s'.files paths.icon0Png).isSome = listsIcon s'.transfers
  prints : ∃ (digest : Bytes) (sizes : List UInt64), sizes.length = urls.length ∧
    s'.printed.map Prod.fst =
      jsonPrints info.packageSize.toNat (bytesToHex digest) (urls.zip sizes)

/-- The other two files hold what has been downloaded for them. -/
structure Kept (paths : TempPaths) (s : Seen) : Prop where
  paramSfo : ∃ downloaded, s.transfers[2]? = some downloaded ∧
    s.files paths.paramSfo = some downloaded.data
  icon0Png : s.files paths.icon0Png = s.transfers[3]?.map Downloaded.data

theorem Delivered.kept {package : Package} {s' : Seen} (h : Delivered s'.transfers package)
    (hsfo : s'.files paths.paramSfo = some package.paramSfo)
    (hicon : s'.files paths.icon0Png = package.icon0Png) : Kept paths s' := by
  obtain ⟨header,entryTable,paramSfo,icon,htransfers,-,-,hsfo',hicon'⟩ := h.delivered
  refine ⟨⟨paramSfo,by rw [htransfers]; rfl,by rw [hsfo,hsfo']⟩,?_⟩
  rw [hicon,hicon',htransfers]
  cases icon <;> rfl

theorem yields_pkgSetupPrerequisites (hpaths : Distinct paths) (urls : List Bytes)
    (hprinted : s.printed = []) (htransfers : s.transfers = []) :
    Yields see (fun s' info => Published paths urls s s' info ∧ Kept paths s')
      (pkgSetupPrerequisites sslVerify paths urls) s := by
  have hcleared : ∀ s0 : Seen, s0.files paths.icon0Png = none → s0.transfers = [] →
      s0.printed = [] → s0.registered = s.registered →
      Yields see (fun s' info => Published paths urls s s' info ∧ Kept paths s') (do
        let package ← inspectPackage sslVerify (urls.headD []) urls.length
        publish sslVerify paths urls package
        pure ⟨package.header.contentType,package.header.packageSize,pkgIsPatch package.header,
          package.icon0Png.isSome⟩) s0 := by
    intro s0 hicon0 htransfers0 hprinted0 hregistered0
    refine yields_bind.mpr ((yields_inspectPackage _ _ htransfers0).mono ?_)
    rintro s1 package ⟨h1,hdelivered⟩
    refine yields_bind.mpr ((yields_publish hpaths urls package (h1.printed.trans hprinted0)
      (by rw [h1.files,hicon0])).mono fun s2 _ h2 => yields_done.mpr ?_)
    obtain ⟨hw,hsfo⟩ := h2
    rw [← hw.transfers] at hdelivered
    refine ⟨⟨?_,hw.json,?_,package.header.digest,hw.prints⟩,hdelivered.kept hsfo hw.icon⟩
    · exact hw.registered.trans (h1.registered.trans hregistered0)
    · rw [hw.icon,hdelivered.listsIcon_eq]
  refine yields_require_bind fun _ => yields_require_bind fun _ => yields_require_bind fun _ =>
    yields_require_bind fun _ => yields_perform_bind.mpr fun _ => yields_perform_bind.mpr fun _ =>
    yields_perform_bind.mpr fun _ => ?_
  rw [see_unlink,see_unlink,see_unlink]
  exact hcleared _ (Function.update_self _ _ _) htransfers hprinted rfl

theorem urls_ne_nil {urls : List Bytes} {history : List ServerEvent} {info : PackageInfo}
    (h : Ends (pkgSetupPrerequisites sslVerify paths urls) history (.ok info)) : urls ≠ [] := by
  rintro rfl
  exact nomatch (ends_fail.mp h).2

end Setup

end PublishedFiles
end RemotePkgInstaller
