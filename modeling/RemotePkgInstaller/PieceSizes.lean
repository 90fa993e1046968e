import RemotePkgInstaller.Downloads
import RemotePkgInstaller.PublishedFiles
import RemotePkgInstaller.SharedServer
import RemotePkgInstaller.WrappingSums

/-! The pieces that a reference json lists: their sizes against those that the hosts report,
and where each of them begins. -/
namespace RemotePkgInstaller
namespace PieceSizes

open Downloads HttpState HttpTransfer InstallPieces PkgSetup Programs Program PublishedFiles ServerCalls
  SharedServer WrappingSums

/-- A piece, as it is printed. -/
structure WrittenPiece where
  url : Bytes
  fileOffset : ℕ
  fileSize : ℕ
  deriving DecidableEq

def pieceOf : ServerCall → List WrittenPiece
  | .fprintf _ (.piece url fileOffset fileSize _) => [⟨url,fileOffset,fileSize⟩]
  | _ => []

def isDownload : ServerCall → Bool
  | .httpDownloadFile _ _ _ _ => true
  | _ => false

def asksSize : ServerCall → Bool
  | .httpGetFileSize _ _ => true
  | _ => false

/-- The pieces of these sizes, the first of which starts at `offset`. -/
def layout : UInt64 → List (Bytes × UInt64) → List WrittenPiece
  | _,[] => []
  | offset,(url,size)::pieces =>
    ⟨url,offset.toNat,size.toNat⟩::layout (offset+size) pieces

section Layout

variable (offset : UInt64) (pieces : List (Bytes × UInt64))

theorem layout_urls : (layout offset pieces).map WrittenPiece.url = pieces.map Prod.fst := by
  induction pieces generalizing offset with
  | nil => rfl
  | cons piece pieces ih => exact congrArg _ (ih _)

theorem layout_sizes : (layout offset pieces).map WrittenPiece.fileSize =
    (pieces.map Prod.snd).map UInt64.toNat := by
  induction pieces generalizing offset with
  | nil => rfl
  | cons piece pieces ih => exact congrArg _ (ih _)

theorem layout_offsets : (layout offset pieces).map WrittenPiece.fileOffset =
    (starts offset (pieces.map Prod.snd)).map UInt64.toNat := by
  induction pieces generalizing offset with
  | nil => rfl
  | cons piece pieces ih => exact congrArg _ (ih _)

theorem layout_pairs : (layout offset pieces).map (fun piece => (piece.url,some piece.fileSize)) =
    pieces.map fun piece => (piece.1,some piece.2.toNat) := by
  induction pieces generalizing offset with
  | nil => rfl
  | cons piece pieces ih => exact congrArg _ (ih _)

theorem layout_sum : ((layout offset pieces).map WrittenPiece.fileSize).sum =
    exactSum (pieces.map Prod.snd) := by
  rw [layout_sizes,exactSum]

theorem layout_take_sum (i : ℕ) : (((layout offset pieces).take i).map WrittenPiece.fileSize).sum =
    exactSum ((pieces.map Prod.snd).take i) := by
  rw [List.map_take,layout_sizes,exactSum,List.map_take]

/-- Every piece starts at the exact end of those before it, if and only if these ends fit. -/
theorem layout_exact_iff : (∀ (i : ℕ) (piece : WrittenPiece), (layout 0 pieces)[i]? = some piece →
      piece.fileOffset = (((layout 0 pieces).take i).map WrittenPiece.fileSize).sum) ↔
    exactSum (pieces.map Prod.snd).dropLast < 2^64 := by
  have hoffset : ∀ i : ℕ, ((layout 0 pieces)[i]?).map WrittenPiece.fileOffset =
      ((starts 0 (pieces.map Prod.snd))[i]?).map UInt64.toNat := by
    intro i
    rw [← List.getElem?_map,← List.getElem?_map,layout_offsets]
  rw [← starts_exact_iff]
  constructor
  · intro h i s hs
    have hi := hoffset i
    rw [hs,Option.map_some,Option.map_eq_some_iff] at hi
    obtain ⟨piece,hpiece,heq⟩ := hi
    rw [← heq,h i piece hpiece,layout_take_sum]
  · intro h i piece hpiece
    have hi := hoffset i
    rw [hpiece,Option.map_some,eq_comm,Option.map_eq_some_iff] at hi
    obtain ⟨s,hs,heq⟩ := hi
    rw [← heq,h i s hs,layout_take_sum]

end Layout

/-- What a run has asked the hosts, and the pieces that it has printed. -/
structure Ledger where
  downloads : List ServerEvent
  sizes : List ServerEvent
  pieces : List WrittenPiece

def Ledger.start : Ledger := ⟨[],[],[]⟩

def note (s : Ledger) (e : ServerEvent) : Ledger :=
  ⟨s.downloads++[e].filter fun e => isDownload e.1,s.sizes++[e].filter fun e => asksSize e.1,
    s.pieces++pieceOf e.1⟩

theorem note_foldl (s : Ledger) (history : List ServerEvent) :
    history.foldl note s = ⟨s.downloads++history.filter fun e => isDownload e.1,
      s.sizes++history.filter fun e => asksSize e.1,
      s.pieces++history.flatMap fun e => pieceOf e.1⟩ := by
  induction history generalizing s with
  | nil => simp
  | cons e history ih =>
    rw [List.foldl_cons,ih,note]
    simp only [List.append_assoc,List.flatMap_cons,← List.filter_append,List.singleton_append]

/-- What the ledger has to show once the header has been downloaded. -/
structure Shows (first : ServerEvent) (sizes : List ServerEvent) (pieces : List WrittenPiece)
    (s : Ledger) : Prop where
  first_eq : s.downloads.head? = some first
  sizes_eq : s.sizes = sizes
  pieces_eq : s.pieces = pieces

/-- A call that neither asks for a size nor prints a piece. -/
def Quiet (c : ServerCall) : Prop := asksSize c = false ∧ pieceOf c = []

section Setup

variable {sslVerify : SslVerifyMode} {paths : TempPaths} {s : Ledger} {α : Type}
  {first : ServerEvent} {sizes : List ServerEvent} {pieces : List WrittenPiece}

theorem Shows.note_quiet (h : Shows first sizes pieces s) {c : ServerCall} (hc : Quiet c)
    (r : Reply c) : Shows first sizes pieces (note s ⟨c,r⟩) := by
  obtain ⟨hfirst,hsizes,hpieces⟩ := h
  refine ⟨?_,?_,?_⟩
  · obtain ⟨rest,hrest⟩ := List.head?_eq_some_iff.mp hfirst
    simp [note,hrest]
  · simp [note,hsizes,hc.1]
  · simp [note,hpieces,hc.2]

theorem quiet_yields {p : Setup α} (h : Calls Quiet p) (hs : Shows first sizes pieces s) :
    Yields note (fun s' _ => Shows first sizes pieces s') p s :=
  Ensures.mono (ensures_invariant h (fun _ _ r hc hinv => hinv.note_quiet hc r) hs)
    fun _ _ hinv _ _ => hinv

theorem quiet_transfers (url : Bytes) : Transfers Quiet sslVerify url :=
  ⟨⟨rfl,rfl⟩,fun _ _ => ⟨rfl,rfl⟩⟩

theorem quiet_writeFile (path data failed : Bytes) : Calls Quiet (writeFile path data failed) :=
  calls_perform_bind ⟨rfl,rfl⟩ fun _ => calls_require _ _ _

/-- The question for the size of one piece, and its answer. -/
def sizeEvent (sslVerify : SslVerifyMode) (piece : Bytes × UInt64) : ServerEvent :=
  ⟨.httpGetFileSize piece.1 (some sslVerify),some piece.2⟩

/-- The first transfer of a run. -/
def headerEvent (sslVerify : SslVerifyMode) (url : Bytes) (header : Downloaded) : ServerEvent :=
  ⟨.httpDownloadFile url (some (UInt64.ofNat sizeofPkgHeader)) 0 (some sslVerify),some header⟩

theorem yields_downloadHeader (url : Bytes) (pieceCount : ℕ) (hs : s.downloads = [])
    (hsizes : s.sizes = []) (hpieces : s.pieces = []) :
    Yields note (fun s' header => Shows (headerEvent sslVerify url header) [] [] s' ∧
        header.dataSize = UInt64.ofNat sizeofPkgHeader)
      (downloadHeader sslVerify url pieceCount) s := by
  refine yields_bind.mpr (yields_perform_bind.mpr fun answer => ?_)
  cases answer with
  | none => exact yields_pkgThrowHttpError
  | some header =>
    refine yields_require_bind fun hsize => yields_done.mpr ?_
    refine yields_require_bind fun _ => yields_require_bind fun _ => yields_done.mpr ⟨⟨?_,?_,?_⟩,hsize⟩
    · simp [note,hs,isDownload,headerEvent]
    · simp [note,hsizes,asksSize]
    · simp [note,hpieces,pieceOf]

theorem yields_inspectPackage (url : Bytes) (pieceCount : ℕ) (hs : s = .start) :
    Yields note (fun s' package => ∃ header : Downloaded,
        Shows (headerEvent sslVerify url header) [] [] s' ∧
        header.dataSize = UInt64.ofNat sizeofPkgHeader ∧
        package.header = header.data ∧ package.totalSize = header.totalSize)
      (inspectPackage sslVerify url pieceCount) s := by
  subst hs
  refine yields_bind.mpr ((yields_downloadHeader url pieceCount rfl rfl rfl).mono ?_)
  rintro s1 header ⟨h1,hsize⟩
  have hquiet : Transfers Quiet sslVerify url := quiet_transfers url
  refine yields_bind.mpr
    ((quiet_yields (calls_downloadEntryTable hquiet _) h1).mono fun s2 scan h2 => ?_)
  refine yields_bind.mpr
    ((quiet_yields (calls_downloadParamSfo hquiet _) h2).mono fun s3 sfo h3 => ?_)
  refine yields_bind.mpr ((quiet_yields (calls_downloadIcon hquiet _) h3).mono fun s4 icon h4 => ?_)
  exact yields_done.mpr ⟨header,h4,hsize,rfl,rfl⟩

/-- One round of the loop, once the size of the piece is known. -/
theorem yields_printPiece (json url : Bytes) (urls : List Bytes) (offset totalSize : UInt64)
    {Q : Ledger → UInt64 → Prop}
    (h : Shows first sizes pieces s) (hnext : ∀ s', Shows first sizes
      (pieces++[⟨url,offset.toNat,totalSize.toNat⟩]) s' →
        Yields note Q (printPieces sslVerify json none (offset+totalSize) urls) s') :
    Yields note Q (do
      let _ ← ask (.fprintf json
        (.piece url offset.toNat totalSize.toNat (bytesToHex zeroMiniDigest)))
      if urls ≠ [] then
        let _ ← ask (.fprintf json .comma)
        printPieces sslVerify json none (offset+totalSize) urls
      else printPieces sslVerify json none (offset+totalSize) urls) s := by
  refine yields_perform_bind.mpr fun accepted => ?_
  have h1 : Shows first sizes (pieces++[⟨url,offset.toNat,totalSize.toNat⟩]) (note s ⟨.fprintf json
      (.piece url offset.toNat totalSize.toNat (bytesToHex zeroMiniDigest)),accepted⟩) := by
    refine ⟨?_,?_,?_⟩
    · simpa [note,isDownload] using h.first_eq
    · simpa [note,asksSize] using h.sizes_eq
    · simp [note,pieceOf,h.pieces_eq]
  split_ifs
  · exact yields_perform_bind.mpr fun _ => hnext _ (h1.note_quiet ⟨rfl,rfl⟩ _)
  · exact hnext _ h1

/-- The loop over the pieces behind the first one. -/
theorem yields_printPieces (json : Bytes) (urls : List Bytes) (offset : UInt64)
    (h : Shows first sizes pieces s) :
    Yields note (fun s' last => ∃ more : List UInt64, more.length = urls.length ∧
        last = finish offset more ∧
        Shows first (sizes++(urls.zip more).map (sizeEvent sslVerify))
          (pieces++layout offset (urls.zip more)) s')
      (printPieces sslVerify json none offset urls) s := by
  induction urls generalizing s offset sizes pieces with
  | nil => exact yields_done.mpr ⟨[],rfl,rfl,by simpa [layout] using h⟩
  | cons url urls ih =>
    refine yields_bind.mpr (yields_perform_bind.mpr fun answer => ?_)
    cases answer with
    | none => exact yields_pkgThrowHttpError
    | some totalSize =>
      refine yields_done.mpr ?_
      have h1 : Shows first (sizes++[sizeEvent sslVerify (url,totalSize)]) pieces
          (note s ⟨.httpGetFileSize url (some sslVerify),some totalSize⟩) := by
        refine ⟨?_,?_,?_⟩
        · simpa [note,isDownload] using h.first_eq
        · simp [note,asksSize,h.sizes_eq,sizeEvent]
        · simpa [note,pieceOf] using h.pieces_eq
      refine yields_printPiece json url urls offset totalSize h1 fun s2 h2 => (ih _ h2).mono ?_
      rintro s3 last ⟨more,hlen,hlast,h3⟩
      refine ⟨totalSize::more,by simp [hlen],hlast,?_⟩
      simpa [layout] using h3

/-- All pieces; the size of the first one is known. -/
theorem yields_printAll (json url : Bytes) (urls : List Bytes) (known : UInt64)
    (h : Shows first [] [] s) :
    Yields note (fun s' last => ∃ more : List UInt64, more.length = urls.length ∧
        last = finish 0 (known::more) ∧
        Shows first ((urls.zip more).map (sizeEvent sslVerify))
          (layout 0 ((url::urls).zip (known::more))) s')
      (printPieces sslVerify json (some known) 0 (url::urls)) s := by
  refine yields_bind.mpr (yields_done.mpr (yields_printPiece json url urls 0 known h fun s1 h1 => ?_))
  refine (yields_printPieces json urls _ h1).mono ?_
  rintro s2 last ⟨more,hlen,hlast,h2⟩
  exact ⟨more,hlen,hlast,by simpa [layout] using h2⟩

theorem yields_writeFiles (url : Bytes) (urls : List Bytes) (package : Package)
    (h : Shows first [] [] s) :
    Yields note (fun s' _ => ∃ more : List UInt64, more.length = urls.length ∧
        ¬ (0 < package.header.packageSize ∧
          finish 0 (package.totalSize::more) ≠ package.header.packageSize) ∧
        Shows first ((urls.zip more).map (sizeEvent sslVerify))
          (layout 0 ((url::urls).zip (package.totalSize::more))) s')
      (writeFiles sslVerify paths (url::urls) package) s := by
  refine yields_perform_bind.mpr fun _ => yields_bind.mpr ?_
  refine (yields_printAll _ url urls _ (h.note_quiet ⟨rfl,rfl⟩ _)).mono ?_
  rintro s1 last ⟨more,hlen,rfl,h1⟩
  refine yields_perform_bind.mpr fun _ => yields_require_bind fun hsize => ?_
  refine yields_bind.mpr ((quiet_yields (quiet_writeFile _ _ _) (h1.note_quiet ⟨rfl,rfl⟩ _)).mono
    fun s2 _ h2 => ?_)
  cases package.icon0Png with
  | none => exact yields_done.mpr ⟨more,hlen,hsize,h2⟩
  | some icon0Png =>
    exact (quiet_yields (quiet_writeFile _ _ _) h2).mono fun _ _ h3 => ⟨more,hlen,hsize,h3⟩

/-- What a run that succeeds has asked the hosts and printed. -/
structure Sized (sslVerify : SslVerifyMode) (url : Bytes) (urls : List Bytes) (info : PackageInfo)
    (header : Downloaded) (more : List UInt64) (s : Ledger) : Prop where
  shows : Shows (headerEvent sslVerify url header) ((urls.zip more).map (sizeEvent sslVerify))
    (layout 0 ((url::urls).zip (header.totalSize::more))) s
  length_eq : more.length = urls.length
  dataSize : header.dataSize = UInt64.ofNat sizeofPkgHeader
  total : PkgHeader.packageSize header.data ≠ 0 →
    finish 0 (header.totalSize::more) = PkgHeader.packageSize header.data

theorem yields_pkgSetupPrerequisites (url : Bytes) (urls : List Bytes) :
    Yields note (fun s' info => ∃ header more, Sized sslVerify url urls info header more s')
      (pkgSetupPrerequisites sslVerify paths (url::urls)) .start := by
  refine yields_require_bind fun _ => yields_require_bind fun _ => yields_require_bind fun _ =>
    yields_require_bind fun _ => yields_perform_bind.mpr fun _ => yields_perform_bind.mpr fun _ =>
    yields_perform_bind.mpr fun _ => yields_bind.mpr ((yields_inspectPackage _ _ rfl).mono ?_)
  rintro s1 package ⟨header,h1,hsize,hheader,htotal⟩
  refine yields_bind.mpr (yields_perform_bind.mpr fun opened => ?_)
  cases opened with
  | error errno => exact yields_fail
  | ok u =>
    refine yields_bind.mpr (yields_caught.mpr (Ensures.mono
      (yields_writeFiles url urls package (h1.note_quiet ⟨rfl,rfl⟩ _)) fun s2 written h2 =>
        yields_perform_bind.mpr fun r => ?_))
    cases written with
    | error text => exact fun _ _ _ => yields_fail
    | ok u =>
      obtain ⟨more,hlen,hoffset,h3⟩ := h2 u rfl
      rw [hheader,htotal] at hoffset
      rw [htotal] at h3
      refine yields_done.mpr (yields_done.mpr ⟨header,more,h3.note_quiet ⟨rfl,rfl⟩ r,hlen,hsize,?_⟩)
      intro hne
      by_contra hdiffers
      exact hoffset ⟨UInt64.pos_iff_ne_zero.mpr hne,hdiffers⟩

end Setup

section Hosts

/-- The size that an answer reports, if it does. -/
def reportedSize (answer : HostAnswer) : Option ℕ :=
  if answer.contentLengthType = contentLengthExist then some answer.contentLength.toNat else none

/-- What the host answers to the request of a transfer, with the URL. -/
def hostAnswer (t : Taken) : Option (Bytes × HostAnswer) :=
  match t.call with
  | .httpDownloadFile url size offset _ =>
    some (url,t.calls.sdk.host ⟨url,downloadHeaders (size.getD unknownLength) offset⟩)
  | .httpGetFileSize url _ => some (url,t.calls.sdk.host ⟨url,[]⟩)
  | _ => none

/-- What the hosts of the pieces say of their sizes: the first of them with the header of the
package, the others when they are asked. -/
def pieceAnswers (trace : List Taken) : List (Bytes × HostAnswer) :=
  ((trace.filter fun t => isDownload t.call).take 1++
    trace.filter fun t => asksSize t.call).filterMap hostAnswer

def writtenPieces (trace : List Taken) : List WrittenPiece :=
  trace.flatMap fun t => pieceOf t.call

/-- `package_size` of the header that the first host sends. -/
def headerPackageSize (trace : List Taken) : ℕ :=
  be (window (((pieceAnswers trace).head?.map fun a => a.2.body).getD []) 0x430 8)

/-- The pieces that are written tile the package. -/
structure Tiles (urls : List Bytes) (trace : List Taken) : Prop where
  urls_eq : (writtenPieces trace).map WrittenPiece.url = urls
  reported : (writtenPieces trace).map (fun piece => (piece.url,some piece.fileSize)) =
    (pieceAnswers trace).map fun a => (a.1,reportedSize a.2)
  offsets : ∀ (i : ℕ) (piece : WrittenPiece), (writtenPieces trace)[i]? = some piece →
    piece.fileOffset = (((writtenPieces trace).take i).map WrittenPiece.fileSize).sum
  total : headerPackageSize trace ≠ 0 →
    ((writtenPieces trace).map WrittenPiece.fileSize).sum = headerPackageSize trace

def lengthOf (a : Bytes × HostAnswer) : ℕ := (reportedSize a.2).getD 0

/-- The first host reports a size, and what the hosts report adds up in 64 bits, without the
last piece if the header does not tell the size of the package. -/
structure SizesFit (trace : List Taken) : Prop where
  reported : ∀ a, (pieceAnswers trace).head? = some a → (reportedSize a.2).isSome
  earlier : ((pieceAnswers trace).dropLast.map lengthOf).sum < 2^64
  all : headerPackageSize trace ≠ 0 → ((pieceAnswers trace).map lengthOf).sum < 2^64

variable {sslVerify : SslVerifyMode} {paths : TempPaths} {url : Bytes} {urls : List Bytes}
  {trace : List Taken} {info : PackageInfo}

theorem hostAnswer_size {t : Taken} {piece : Bytes × UInt64} (h : t.event = sizeEvent sslVerify piece) :
    ∃ answer, hostAnswer t = some (piece.1,answer) ∧ reportedSize answer = some piece.2.toNat := by
  obtain ⟨before,calls,c⟩ := t
  injection h with hc hr
  subst hc
  obtain ⟨htype,hlength⟩ := httpGetFileSize_some (eq_of_heq hr)
  exact ⟨_,rfl,by rw [reportedSize,if_pos htype,hlength]⟩

theorem hostAnswers_sizes {ts : List Taken} {pieces : List (Bytes × UInt64)}
    (h : ts.map Taken.event = pieces.map (sizeEvent sslVerify)) :
    (ts.filterMap hostAnswer).map (fun a => (a.1,reportedSize a.2)) =
      pieces.map fun piece => (piece.1,some piece.2.toNat) := by
  induction ts generalizing pieces with
  | nil =>
    rw [List.map_nil,List.nil_eq,List.map_eq_nil_iff] at h
    subst h
    rfl
  | cons t ts ih =>
    cases pieces with
    | nil => exact nomatch h
    | cons piece pieces =>
      injection h with hfirst hrest
      obtain ⟨answer,hanswer,hsize⟩ := hostAnswer_size hfirst
      rw [List.filterMap_cons,hanswer]
      simp only [List.map_cons,hsize,ih hrest]

theorem hostAnswer_header {t : Taken} {header : Downloaded}
    (h : t.event = headerEvent sslVerify url header)
    (hsize : header.dataSize = UInt64.ofNat sizeofPkgHeader) :
    ∃ answer, hostAnswer t = some (url,answer) ∧ header.totalSize = knownLength answer ∧
      (PkgHeader.packageSize header.data).toNat = be (window answer.body 0x430 8) := by
  obtain ⟨before,calls,c⟩ := t
  injection h with hc hr
  subst hc
  obtain ⟨answer,rfl,-,-,rfl⟩ := httpDownloadFile_some (eq_of_heq hr)
  obtain ⟨answer,hanswer⟩ : ∃ answer, answer = calls.sdk.host
      ⟨url,downloadHeaders ((some (UInt64.ofNat sizeofPkgHeader)).getD unknownLength) 0⟩ := ⟨_,rfl⟩
  refine ⟨answer,by rw [hanswer]; rfl,by rw [hanswer],?_⟩
  rw [← hanswer] at hsize ⊢
  have hlength : (received calls.sdk (UInt64.ofNat sizeofPkgHeader) answer).length =
      sizeofPkgHeader := by
    have htoNat := congrArg UInt64.toNat hsize
    simp only [Option.getD_some] at htoNat
    rw [toNat_received_length] at htoNat
    exact htoNat
  have hwindow : window (received calls.sdk (UInt64.ofNat sizeofPkgHeader) answer) 0x430 8 =
      window answer.body 0x430 8 := by
    rw [received_eq_take,hlength,window,window,List.drop_take,List.take_take]
    rfl
  have hlt : be (window answer.body 0x430 8) < 2^64 := by
    refine (be_lt _).trans_le ?_
    have hle : (window answer.body 0x430 8).length ≤ 8 := by simp
    exact Nat.pow_le_pow_right (by decide) hle
  simp only [PkgHeader.packageSize,Option.getD_some]
  rw [hwindow,UInt64.toNat_ofNat_of_lt' hlt]

/-- What a successful run has to do with the answers of the hosts. -/
structure Answered (url : Bytes) (urls : List Bytes) (trace : List Taken) (answer : HostAnswer)
    (more : List UInt64) : Prop where
  pieces_eq : writtenPieces trace = layout 0 ((url::urls).zip (knownLength answer::more))
  length_eq : more.length = urls.length
  answers : ∃ others, pieceAnswers trace = (url,answer)::others ∧
    others.map (fun a => (a.1,reportedSize a.2)) =
      (urls.zip more).map fun piece => (piece.1,some piece.2.toNat)
  total : headerPackageSize trace ≠ 0 →
    (finish 0 (knownLength answer::more)).toNat = headerPackageSize trace

theorem answered (h : Ends (pkgSetupPrerequisites sslVerify paths (url::urls))
    (trace.map Taken.event) (.ok info)) : ∃ answer more, Answered url urls trace answer more := by
  obtain ⟨header,more,⟨hfirst,hsizes,hpieces⟩,hlen,hdata,htotal⟩ :=
    (yields_pkgSetupPrerequisites url urls).ends h
  simp only [note_foldl,Ledger.start,List.nil_append,List.filter_map] at hfirst hsizes hpieces
  rw [List.head?_map,Option.map_eq_some_iff] at hfirst
  obtain ⟨t,ht,hevent⟩ := hfirst
  obtain ⟨answer,hanswer,hknown,hsize⟩ := hostAnswer_header hevent hdata
  obtain ⟨rest,hrest⟩ := List.head?_eq_some_iff.mp ht
  have hanswers : pieceAnswers trace =
      (url,answer)::(trace.filter fun t => asksSize t.call).filterMap hostAnswer := by
    have htake : (trace.filter fun t => isDownload t.call).take 1 = [t] :=
      congrArg (List.take 1) hrest
    rw [pieceAnswers,htake,List.singleton_append,List.filterMap_cons,hanswer]
  have hheader : headerPackageSize trace = (PkgHeader.packageSize header.data).toNat := by
    rw [hsize,headerPackageSize,hanswers]
    rfl
  refine ⟨answer,more,?_,hlen,⟨_,hanswers,hostAnswers_sizes hsizes⟩,?_⟩
  · rw [← hknown,← hpieces,List.flatMap_map]
    rfl
  · rw [hheader,← hknown]
    intro hne
    rw [htotal fun h0 => hne (by rw [h0]; rfl)]

section Answered

variable {answer : HostAnswer} {more : List UInt64}

theorem Answered.zip_urls (h : Answered url urls trace answer more) :
    ((url::urls).zip (knownLength answer::more)).map Prod.fst = url::urls :=
  List.map_fst_zip (by simp [h.length_eq])

theorem Answered.zip_sizes (h : Answered url urls trace answer more) :
    ((url::urls).zip (knownLength answer::more)).map Prod.snd = knownLength answer::more :=
  List.map_snd_zip (by simp [h.length_eq])

/-- If the first host reports a size, all sizes that are written are reported. -/
theorem Answered.reported (h : Answered url urls trace answer more)
    (hanswer : reportedSize answer = some (knownLength answer).toNat) :
    (pieceAnswers trace).map (fun a => (a.1,reportedSize a.2)) =
      ((url::urls).zip (knownLength answer::more)).map fun piece =>
        (piece.1,some piece.2.toNat) := by
  obtain ⟨others,hanswers,hothers⟩ := h.answers
  rw [hanswers,List.map_cons,hothers,hanswer]
  rfl

theorem Answered.lengths (h : Answered url urls trace answer more)
    (hanswer : reportedSize answer = some (knownLength answer).toNat) :
    (pieceAnswers trace).map lengthOf = (knownLength answer::more).map UInt64.toNat := by
  have hmap := congrArg (List.map fun p : Bytes × Option ℕ => p.2.getD 0) (h.reported hanswer)
  rw [List.map_map,List.map_map] at hmap
  rw [← h.zip_sizes,List.map_map]
  exact hmap

theorem Answered.tiles_iff_of_reported (h : Answered url urls trace answer more)
    (hanswer : reportedSize answer = some (knownLength answer).toNat) :
    Tiles (url::urls) trace ↔ SizesFit trace := by
  have hearlier : ((pieceAnswers trace).dropLast.map lengthOf).sum =
      exactSum (knownLength answer::more).dropLast := by
    rw [List.map_dropLast,h.lengths hanswer,exactSum,List.map_dropLast]
  have hsum : ((pieceAnswers trace).map lengthOf).sum = exactSum (knownLength answer::more) := by
    rw [h.lengths hanswer,exactSum]
  have hexact := layout_exact_iff ((url::urls).zip (knownLength answer::more))
  have hlayout := layout_sum 0 ((url::urls).zip (knownLength answer::more))
  rw [h.zip_sizes,← h.pieces_eq] at hexact hlayout
  constructor
  · rintro ⟨-,-,hoffsets,hfull⟩
    refine ⟨?_,hearlier ▸ hexact.mp hoffsets,fun hne => ?_⟩
    · obtain ⟨others,hanswers,-⟩ := h.answers
      intro a ha
      rw [hanswers] at ha
      injection ha with ha
      rw [← ha,hanswer]
      rfl
    · rw [hsum,← hlayout,hfull hne,← h.total hne]
      exact UInt64.toNat_lt _
  · rintro ⟨-,hfits,hall⟩
    rw [hearlier] at hfits
    refine ⟨?_,?_,hexact.mpr hfits,fun hne => ?_⟩
    · rw [h.pieces_eq,layout_urls,h.zip_urls]
    · rw [h.reported hanswer,h.pieces_eq,layout_pairs]
    · have hlt := hall hne
      rw [hsum] at hlt
      rw [hlayout,← h.total hne]
      exact ((finish_exact_iff _).mpr hlt).symm

/-- Without a size from the first host one is written that nobody has reported. -/
theorem Answered.not_tiles (h : Answered url urls trace answer more)
    (hanswer : reportedSize answer = none) : ¬ Tiles (url::urls) trace := by
  obtain ⟨others,hanswers,-⟩ := h.answers
  intro htiles
  have hmatch := htiles.reported
  rw [h.pieces_eq,hanswers,layout_pairs] at hmatch
  simp only [List.zip_cons_cons,List.map_cons,List.cons.injEq,hanswer,Prod.mk.injEq] at hmatch
  exact nomatch hmatch.1.2

theorem Answered.not_sizesFit (h : Answered url urls trace answer more)
    (hanswer : reportedSize answer = none) : ¬ SizesFit trace := by
  obtain ⟨others,hanswers,-⟩ := h.answers
  intro hfits
  have hfirst := hfits.reported (url,answer) (by rw [hanswers]; rfl)
  rw [hanswer] at hfirst
  exact nomatch hfirst

end Answered

/-- The pieces of a reference json tile the package, if and only if the first host reports a
size and the sizes add up in 64 bits. -/
theorem pkgSetupPrerequisites_tiles_iff (h : Ends (pkgSetupPrerequisites sslVerify paths urls)
    (trace.map Taken.event) (.ok info)) : Tiles urls trace ↔ SizesFit trace := by
  obtain ⟨url,urls,rfl⟩ := List.exists_cons_of_ne_nil (urls_ne_nil h)
  obtain ⟨answer,more,hanswered⟩ := answered h
  by_cases htype : answer.contentLengthType = contentLengthExist
  · refine hanswered.tiles_iff_of_reported ?_
    rw [reportedSize,knownLength,if_pos htype,if_neg (not_not.mpr htype)]
  · exact iff_of_false (hanswered.not_tiles (if_neg htype)) (hanswered.not_sizesFit (if_neg htype))

end Hosts

section Sample

/-- A package of 0x2874 bytes, whose header does not tell its size. -/
def unsizedPackage : Bytes :=
  pkgMagic++zeros 0xc++[0,0,0,1]++zeros 4++[0,0,0x20,0]++zeros 0x58++[0,0,0,0x1a]++zeros 0x1f88++
    sampleEntryTable++zeros 0x7e0++sampleSfo

/-- A host that honours ranges and does not announce what it sends without one. -/
def unsizedHost (request : HostRequest) : HostAnswer :=
  match requestedRange request with
  | none => ⟨200,0,0,unsizedPackage⟩
  | some _ => rangeHost unsizedPackage request

/-- Two hosts that have the sample of 0x3000 bytes between them. -/
def splitHost (request : HostRequest) : HostAnswer :=
  if request.url = bytes "http://h/a.pkg" then
    rangeHost (sampleHeader++sampleEntryTable++zeros 0x7e0++sampleSfo++zeros 0x8c) request
  else rangeHost (zeros 0x700) request

/-- A console on which every call succeeds. -/
def workingCalls (host : HostRequest → HostAnswer) : StepCalls where
  sdk := workingSdk host
  text := HttpText.plainSdk
  bundle := fun _ => ⟨[],⟨false,none,false,fun _ => 0⟩,0,0⟩
  write := ⟨true,fun _ => 512⟩
  other := sampleReply ⟨0,1⟩

def sampleServer : Settings.Server := ⟨{ Http.fresh with initialized := true },none⟩

def sampleRun (host : HostRequest → HostAnswer) (urls : List Bytes) :
    (Settings.Server × List Taken) × Except Bytes PackageInfo :=
  runAlone (fun _ => workingCalls host) (pkgSetupPrerequisites .on (tempPaths sampleStream) urls)
    sampleServer

theorem sampleRun_ends {host : HostRequest → HostAnswer} {urls : List Bytes} {info : PackageInfo}
    (h : (sampleRun host urls).2 = .ok info) :
    Ends (pkgSetupPrerequisites .on (tempPaths sampleStream) urls)
      ((sampleRun host urls).1.2.map Taken.event) (.ok info) :=
  h ▸ ends_runAlone (fun _ => workingCalls host)
    (pkgSetupPrerequisites .on (tempPaths sampleStream) urls) sampleServer

def splitUrls : List Bytes := [bytes "http://h/a.pkg",bytes "http://h/b.pkg"]

theorem splitRun_eq :
    (sampleRun splitHost splitUrls).2 = .ok ⟨0x1a,0x3000,false,false⟩ ∧
    (pieceAnswers (sampleRun splitHost splitUrls).1.2).map (fun a => reportedSize a.2) =
      [some 0x2900,some 0x700] := by decide +kernel

theorem pkgSetupPrerequisites_tiles_iff_example :
    Tiles splitUrls (sampleRun splitHost splitUrls).1.2 := by
  obtain ⟨hok,hanswers⟩ := splitRun_eq
  have hlengths : (pieceAnswers (sampleRun splitHost splitUrls).1.2).map lengthOf =
      [0x2900,0x700] := by
    have hmap := congrArg (List.map fun size : Option ℕ => size.getD 0) hanswers
    rwa [List.map_map] at hmap
  refine (pkgSetupPrerequisites_tiles_iff (sampleRun_ends hok)).mpr ⟨fun a ha => ?_,?_,fun _ => ?_⟩
  · have hfirst := congrArg List.head? hanswers
    rw [List.head?_map,ha] at hfirst
    have hsome : reportedSize a.2 = some 0x2900 := Option.some.inj hfirst
    rw [hsome]
    rfl
  · rw [List.map_dropLast,hlengths]
    decide
  · rw [hlengths]
    decide

theorem unsizedRun_eq :
    (sampleRun unsizedHost sampleUrls).2 = .ok ⟨0x1a,0,false,false⟩ ∧
    writtenPieces (sampleRun unsizedHost sampleUrls).1.2 =
      [⟨bytes "http://h/a.pkg",0,18446744073709551615⟩] ∧
    (pieceAnswers (sampleRun unsizedHost sampleUrls).1.2).map (fun a => (a.1,reportedSize a.2)) =
      [(bytes "http://h/a.pkg",none)] := by decide +kernel

/-- A size is written that the host has not reported. -/
theorem unsizedHost_not_tiles :
    Ends (pkgSetupPrerequisites .on (tempPaths sampleStream) sampleUrls)
      ((sampleRun unsizedHost sampleUrls).1.2.map Taken.event) (.ok ⟨0x1a,0,false,false⟩) ∧
    writtenPieces (sampleRun unsizedHost sampleUrls).1.2 =
      [⟨bytes "http://h/a.pkg",0,18446744073709551615⟩] ∧
    ¬ Tiles sampleUrls (sampleRun unsizedHost sampleUrls).1.2 := by
  obtain ⟨hok,hwritten,hanswers⟩ := unsizedRun_eq
  refine ⟨sampleRun_ends hok,hwritten,fun h => ?_⟩
  have hreported := h.reported
  rw [hwritten,hanswers] at hreported
  exact absurd hreported (by decide)

end Sample

end PieceSizes
end RemotePkgInstaller
