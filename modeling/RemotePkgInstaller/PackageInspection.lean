import RemotePkgInstaller.ConformingHosts
import RemotePkgInstaller.Decisions
import RemotePkgInstaller.TempFiles
import RemotePkgInstaller.WrappingSums
import Mathlib.Data.List.Nodup

/-! `pkg_setup_prerequisites` on a console where nothing fails and with hosts that conform:
which packages it accepts, and what it publishes of them, however they are split. -/
namespace RemotePkgInstaller
namespace PackageInspection

open ConformingHosts Decisions HttpState HttpTransfer PkgSetup Programs Program PublishedFiles
  ServerCalls WrappingSums

/-- An entry of a package's table. -/
structure Entry where
  id : ℕ
  offset : ℕ
  size : ℕ
  deriving DecidableEq

def entryAt (entries : Bytes) (i : ℕ) : Entry :=
  let entry := window entries (i*sizeofPkgTableEntry) sizeofPkgTableEntry
  ⟨be (window entry 0x00 4),be (window entry 0x10 4),be (window entry 0x14 4)⟩

def entriesOf (entries : Bytes) (entryCount : ℕ) : List Entry :=
  (List.range entryCount).map (entryAt entries)

/-- Of several entries with the same id the last one. -/
def lastOf (id : ℕ) (entries : List Entry) : Option Entry :=
  (entries.filter fun entry => entry.id = id).getLast?

/-- The header of the package whose first piece this is. -/
def headerOf (piece : Bytes) : PkgHeader := piece.take sizeofPkgHeader

/-- The number of bytes in the entry table. -/
def tableSize (piece : Bytes) : ℕ := (headerOf piece).entryCount*sizeofPkgTableEntry

def tableOf (piece : Bytes) : Bytes := window piece (headerOf piece).entryTableOffset (tableSize piece)

def lastEntry (piece : Bytes) (id : ℕ) : Option Entry :=
  lastOf id (entriesOf (tableOf piece) (headerOf piece).entryCount)

def Entry.slice (entry : Entry) (b : Bytes) : Bytes := window b entry.offset entry.size

/-- There is something to download, unlike for an entry of zeros. -/
def Entry.present (entry : Entry) : Bool := entry.offset ≠ 0 ∧ entry.size ≠ 0

/-- The icon, if the package has one. -/
def iconEntry (piece : Bytes) : Option Entry :=
  (lastEntry piece entryIdIcon0Png).filter Entry.present

/-- The first piece has everything that is read of a package. -/
structure Inspectable (piece : Bytes) : Prop where
  header : sizeofPkgHeader ≤ piece.length
  magic : piece.take 4 = pkgMagic
  entries : (headerOf piece).entryCount ≠ 0
  table : (headerOf piece).entryTableOffset+tableSize piece ≤ piece.length
  paramSfo : ∃ entry, lastEntry piece entryIdParamSfo = some entry ∧ entry.present = true ∧
    entry.offset+entry.size ≤ piece.length ∧ Sfo.sfoMagic <+: entry.slice piece
  icon : ∀ entry, iconEntry piece = some entry → entry.offset+entry.size ≤ piece.length

section Entries

theorem be_window_lt (b : Bytes) (i n : ℕ) : be (window b i n) < 256^n := by
  refine (be_lt _).trans_le (Nat.pow_le_pow_right (by decide) ?_)
  rw [window_length]
  exact min_le_left _ _

/-- What the scan knows of an entry. -/
def offsetOf (entry : Option Entry) : ℕ := (entry.map Entry.offset).getD 0
def sizeOf (entry : Option Entry) : ℕ := (entry.map Entry.size).getD 0

theorem lastOf_append (id : ℕ) (entries : List Entry) (entry : Entry) :
    lastOf id (entries++[entry]) = if entry.id = id then some entry else lastOf id entries := by
  unfold lastOf
  rw [List.filter_append,List.getLast?_append]
  split_ifs with h
  · simp [h]
  · simp [h]

/-- The scan keeps the last entry of each id. -/
theorem scanEntries_eq (entries : Bytes) (entryCount : ℕ) :
    scanEntries entries entryCount =
      ⟨offsetOf (lastOf entryIdParamSfo (entriesOf entries entryCount)),
        sizeOf (lastOf entryIdParamSfo (entriesOf entries entryCount)),
        offsetOf (lastOf entryIdIcon0Png (entriesOf entries entryCount)),
        sizeOf (lastOf entryIdIcon0Png (entriesOf entries entryCount))⟩ := by
  induction entryCount with
  | zero => rfl
  | succ n ih =>
    have hentries : entriesOf entries (n+1) = entriesOf entries n++[entryAt entries n] := by
      rw [entriesOf,List.range_succ,List.map_append]
      rfl
    have hne : entryIdParamSfo ≠ entryIdIcon0Png := by decide
    have hscan : scanEntries entries (n+1) = scanEntry entries (scanEntries entries n) n := by
      rw [scanEntries,List.range_succ,List.foldl_append]
      rfl
    rw [hscan,ih,hentries,lastOf_append,lastOf_append]
    change (if (entryAt entries n).id = entryIdParamSfo then _ else _) = _
    by_cases hsfo : (entryAt entries n).id = entryIdParamSfo
    · rw [if_pos hsfo,if_pos hsfo,if_neg (fun h => hne (hsfo.symm.trans h))]
      rfl
    · rw [if_neg hsfo,if_neg hsfo]
      change (if (entryAt entries n).id = entryIdIcon0Png then _ else _) = _
      by_cases hicon : (entryAt entries n).id = entryIdIcon0Png
      · rw [if_pos hicon,if_pos hicon]
        rfl
      · rw [if_neg hicon,if_neg hicon]

theorem mem_of_lastOf {id : ℕ} {entries : List Entry} {entry : Entry}
    (h : lastOf id entries = some entry) : entry ∈ entries :=
  List.mem_of_mem_filter (List.mem_of_getLast? h)

theorem lastEntry_lt {piece : Bytes} {id : ℕ} {entry : Entry} (h : lastEntry piece id = some entry) :
    entry.offset < 2^32 ∧ entry.size < 2^32 := by
  obtain ⟨i,-,rfl⟩ := List.mem_map.mp (mem_of_lastOf h)
  exact ⟨be_window_lt _ _ 4,be_window_lt _ _ 4⟩

end Entries

/-- A transfer on a console where every call works, with conforming hosts at the other end. -/
structure Carries (split : List (Bytes × Bytes)) (sdk : Sdk) (http : Http) : Prop where
  works : Works sdk
  initialized : http.initialized = true
  conforms : ∀ p ∈ split, Conforms sdk.host p.1 p.2

/-- What calls answer on such a console, if also no file fails.  The pieces of the package
stand with their URLs. -/
def Smooth (split : List (Bytes × Bytes)) : (c : ServerCall) → Reply c → Prop
  | .httpDownloadFile url size offset sslVerify,r => ∃ sdk http, Carries split sdk http ∧
    r = (HttpTransfer.httpDownloadFile url sdk http size offset sslVerify).value
  | .httpGetFileSize url sslVerify,r => ∃ sdk http, Carries split sdk http ∧
    r = (HttpTransfer.httpGetFileSize url sdk http sslVerify).value
  | .fopen _,r => r = .ok ()
  | .fprintf _ print,r => print.text.length ≤ r
  | .writeFileTrunc _ data,r => (Util.writeFileTrunc none data r).status = true
  | _,_ => True

section Inspect

variable {split : List (Bytes × Bytes)} {sslVerify : SslVerifyMode} {s : Files} {α : Type}
  {url piece : Bytes}

theorem decides_require {c : Prop} [Decidable c] {text : Bytes} :
    Decides (Smooth split) fileEffect c (fun s' (_ : Unit) => s' = s) (require c text) s := by
  unfold require
  split_ifs with hc
  · exact decides_done hc rfl
  · exact decides_fail hc

theorem decides_require_bind {c P P' : Prop} [Decidable c] {text : Bytes} {f : Unit → Setup α}
    {Q : Files → α → Prop} (hc : c ↔ P) (h : c → Decides (Smooth split) fileEffect P' Q (f ()) s) :
    Decides (Smooth split) fileEffect (P ∧ P') Q (require c text >>= f) s := by
  have hrequire := (@decides_require split s c _ text).bind fun s' _ hholds hs => hs ▸ h hholds
  exact hrequire.mono (and_congr_left' hc) fun _ _ _ h => h

theorem decides_require_true {c P : Prop} [Decidable c] {text : Bytes} {f : Unit → Setup α}
    {Q : Files → α → Prop} (hc : c) (h : Decides (Smooth split) fileEffect P Q (f ()) s) :
    Decides (Smooth split) fileEffect P Q (require c text >>= f) s := by
  rw [require,if_pos hc]
  exact h

theorem decides_require_certain {c P : Prop} [Decidable c] {text : Bytes} {f : Unit → Setup α}
    {Q : Files → α → Prop} (hc : c ↔ P) (h : c → Decides (Smooth split) fileEffect True Q (f ()) s) :
    Decides (Smooth split) fileEffect P Q (require c text >>= f) s :=
  (decides_require_bind hc h).mono (iff_of_eq (and_true P)) fun _ _ _ h => h

theorem decides_pkgThrowHttpError {P : Prop} {Q : Files → α → Prop} (hP : ¬ P) (text : Bytes) :
    Decides (Smooth split) fileEffect P Q (pkgThrowHttpError text) s := by
  refine decides_perform_bind fun first _ => ?_
  split_ifs
  · exact decides_perform_bind fun _ _ => decides_fail hP
  · exact decides_fail hP

/-- A range is there if and only if the piece has all of it. -/
theorem decides_download (hmem : (url,piece) ∈ split) {size offset : ℕ} (hoffset : offset < 2^32)
    (hsize : 0 < size) (hbound : size < 2^38) (failed mismatch : Bytes) :
    Decides (Smooth split) fileEffect (offset+size ≤ piece.length)
      (fun s' f => s' = s ∧ f.data = window piece offset size ∧
        (offset = 0 → f.totalSize.toNat = piece.length))
      (download sslVerify url size offset failed mismatch) s := by
  refine decides_perform_bind fun answer hanswer => ?_
  obtain ⟨sdk,http,hcarries,rfl⟩ := hanswer
  have hoffset' : (UInt64.ofNat offset).toNat = offset := UInt64.toNat_ofNat_of_lt' (hoffset.trans (by decide))
  have hsize' : (UInt64.ofNat size).toNat = size :=
    UInt64.toNat_ofNat_of_lt' (hbound.trans (by decide))
  have hexact := @httpDownloadFile_exact url sdk http (UInt64.ofNat size) (UInt64.ofNat offset)
    (some sslVerify) piece hcarries.works hcarries.initialized (hcarries.conforms _ hmem)
    (by rwa [hoffset']) (by rwa [hsize']) (by rwa [hsize'])
  rw [hoffset',hsize'] at hexact
  by_cases hfits : offset+size ≤ piece.length
  · rw [if_pos hfits] at hexact
    obtain ⟨contentLength,htotal,-,hvalue⟩ := hexact
    rw [hvalue]
    refine Decides.mono (decides_require.bind fun s' _ _ hs => decides_done trivial ⟨hs,rfl,?_⟩)
      ⟨fun _ => hfits,fun _ => ⟨rfl,trivial⟩⟩ fun _ _ _ h => h
    intro h0
    exact htotal (by rw [h0]; rfl)
  · rw [if_neg hfits] at hexact
    generalize (HttpTransfer.httpDownloadFile url sdk http (some (UInt64.ofNat size))
      (UInt64.ofNat offset) (some sslVerify)).value = value at hexact
    cases value with
    | none => exact decides_pkgThrowHttpError hfits failed
    | some f =>
      have hsome := hexact f rfl
      simp only [require,hsome,if_false]
      exact decides_fail hfits

theorem decides_downloadHeader (hmem : (url,piece) ∈ split) (pieceCount : ℕ) :
    Decides (Smooth split) fileEffect
      (sizeofPkgHeader ≤ piece.length ∧ (headerOf piece).take 4 = pkgMagic ∧
        ¬ (pieceCount = 1 ∧ 0 < (headerOf piece).packageSize ∧
          UInt64.ofNat piece.length ≠ (headerOf piece).packageSize))
      (fun s' header => s' = s ∧ header.data = headerOf piece ∧
        header.totalSize = UInt64.ofNat piece.length)
      (downloadHeader sslVerify url pieceCount) s := by
  have hdownload := @decides_download split sslVerify s url piece hmem sizeofPkgHeader 0 (by decide)
    (by decide) (by decide) (about (bytes "Unable to download package header for ") url)
    (about (bytes "Package header size mismatch for ") url)
  rw [Nat.zero_add,window_zero_left] at hdownload
  refine hdownload.bind fun s1 header _ h1 => ?_
  obtain ⟨rfl,hdata,hlength⟩ := h1
  have htotal : header.totalSize = UInt64.ofNat piece.length := by
    rw [← hlength rfl,UInt64.ofNat_toNat]
  dsimp only
  rw [hdata,htotal]
  exact decides_require_bind Iff.rfl fun _ => decides_require_certain Iff.rfl fun _ =>
    decides_done trivial ⟨rfl,hdata,htotal⟩

theorem decides_downloadEntryTable (hmem : (url,piece) ∈ split) :
    Decides (Smooth split) fileEffect
      ((headerOf piece).entryCount ≠ 0 ∧
        (headerOf piece).entryTableOffset+tableSize piece ≤ piece.length)
      (fun s' scan => s' = s ∧ scan = scanEntries (tableOf piece) (headerOf piece).entryCount)
      (downloadEntryTable sslVerify url (headerOf piece)) s := by
  have hcount : PkgHeader.entryCount (headerOf piece) < 2^32 := be_window_lt _ _ 4
  have hpos : 0 < sizeofPkgTableEntry := by decide
  refine decides_require_bind ?_ fun hne => ?_
  · simp [sizeofPkgTableEntry]
  · refine (decides_download hmem (be_window_lt _ _ 4) (Nat.pos_of_ne_zero hne) ?_ _ _).bind_certain
      fun s1 downloaded _ h1 => decides_done trivial ⟨h1.1,?_⟩
    · simp only [sizeofPkgTableEntry]
      omega
    · rw [h1.2.1]
      rfl

theorem present_iff (entry : Entry) : entry.present = true ↔ entry.offset ≠ 0 ∧ entry.size ≠ 0 := by
  simp [Entry.present]

theorem slice_length {entry : Entry} (h : entry.offset+entry.size ≤ piece.length) :
    (entry.slice piece).length = entry.size := by
  rw [Entry.slice,window_length]
  omega

theorem magic_iff {entry : Entry} (h : entry.offset+entry.size ≤ piece.length) :
    4 ≤ entry.size ∧ (entry.slice piece).take 4 = Sfo.sfoMagic ↔
      Sfo.sfoMagic <+: entry.slice piece := by
  rw [List.prefix_iff_eq_take,← slice_length h]
  constructor
  · exact fun h => h.2.symm
  · refine fun h => ⟨?_,h.symm⟩
    have hle := congrArg List.length h
    rw [List.length_take] at hle
    have hfour : Sfo.sfoMagic.length = 4 := rfl
    omega

theorem decides_downloadParamSfo (hmem : (url,piece) ∈ split) {scan : EntryScan}
    (hscan : scan = scanEntries (tableOf piece) (headerOf piece).entryCount) :
    Decides (Smooth split) fileEffect
      (∃ entry, lastEntry piece entryIdParamSfo = some entry ∧ entry.present = true ∧
        entry.offset+entry.size ≤ piece.length ∧ Sfo.sfoMagic <+: entry.slice piece)
      (fun s' data => s' = s ∧ ∃ entry, lastEntry piece entryIdParamSfo = some entry ∧
        data = entry.slice piece)
      (downloadParamSfo sslVerify url scan) s := by
  have hoffset : scan.paramSfoOffset = offsetOf (lastEntry piece entryIdParamSfo) := by
    rw [hscan,scanEntries_eq]
    rfl
  have hsize : scan.paramSfoSize = sizeOf (lastEntry piece entryIdParamSfo) := by
    rw [hscan,scanEntries_eq]
    rfl
  unfold downloadParamSfo
  rw [hoffset,hsize]
  rcases hlast : lastEntry piece entryIdParamSfo with _ | entry
  · have habsent : ¬ (offsetOf none ≠ 0 ∧ sizeOf none ≠ 0) := fun h => h.1 rfl
    rw [require,if_neg habsent]
    exact decides_fail (by simp)
  · have hlt := lastEntry_lt hlast
    have hcases : Decides (Smooth split) fileEffect (entry.present = true ∧
        entry.offset+entry.size ≤ piece.length ∧ Sfo.sfoMagic <+: entry.slice piece)
        (fun s' data => s' = s ∧ data = entry.slice piece)
        (downloadParamSfo sslVerify url ⟨entry.offset,entry.size,0,0⟩) s := by
      refine decides_require_bind (present_iff entry).symm fun hpresent =>
        (decides_download hmem hlt.1 (Nat.pos_of_ne_zero hpresent.2) (hlt.2.trans (by decide)) _
          _).bind fun s1 downloaded hfits h1 => ?_
      obtain ⟨rfl,hdata,-⟩ := h1
      rw [hdata]
      exact decides_require_certain (magic_iff hfits) fun _ => decides_done trivial ⟨rfl,rfl⟩
    exact hcases.mono (by simp) fun _ _ _ h => h.imp_right fun hdata => ⟨entry,rfl,hdata⟩

theorem iconEntry_eq_some {entry : Entry} : iconEntry piece = some entry ↔
    lastEntry piece entryIdIcon0Png = some entry ∧ entry.present = true :=
  Option.filter_eq_some_iff

theorem decides_downloadIcon (hmem : (url,piece) ∈ split) {scan : EntryScan}
    (hscan : scan = scanEntries (tableOf piece) (headerOf piece).entryCount) :
    Decides (Smooth split) fileEffect
      (∀ entry, iconEntry piece = some entry → entry.offset+entry.size ≤ piece.length)
      (fun s' icon0Png => s' = s ∧ icon0Png = (iconEntry piece).map fun entry => entry.slice piece)
      (downloadIcon sslVerify url scan) s := by
  have hoffset : scan.icon0PngOffset = offsetOf (lastEntry piece entryIdIcon0Png) := by
    rw [hscan,scanEntries_eq]
    rfl
  have hsize : scan.icon0PngSize = sizeOf (lastEntry piece entryIdIcon0Png) := by
    rw [hscan,scanEntries_eq]
    rfl
  have hicon : scan.hasIcon = (iconEntry piece).isSome := by
    unfold EntryScan.hasIcon iconEntry
    rw [hoffset,hsize]
    cases lastEntry piece entryIdIcon0Png with
    | none => rfl
    | some entry =>
      have hpresent : (decide (0 < entry.offset) && decide (0 < entry.size)) = entry.present := by
        simp [Entry.present,Nat.pos_iff_ne_zero]
      rw [Option.filter_some]
      change (decide (0 < entry.offset) && decide (0 < entry.size)) = _
      rw [hpresent]
      cases entry.present <;> rfl
  unfold downloadIcon
  rw [hicon]
  rcases hentry : iconEntry piece with _ | entry
  · exact decides_done (by simp) ⟨rfl,rfl⟩
  · obtain ⟨hlast,hpresent⟩ := iconEntry_eq_some.mp hentry
    have hlt := lastEntry_lt hlast
    have hfits : Decides (Smooth split) fileEffect (entry.offset+entry.size ≤ piece.length)
        (fun s' icon0Png => s' = s ∧ icon0Png = some (entry.slice piece)) (do
          let downloaded ← download sslVerify url entry.size entry.offset
            (about (bytes "Unable to download icon0.png for ") url)
            (about (bytes "icon0.png size mismatch for ") url)
          pure (some downloaded.data)) s :=
      (decides_download hmem hlt.1 (Nat.pos_of_ne_zero ((present_iff entry).mp hpresent).2)
        (hlt.2.trans (by decide)) _ _).bind_certain fun s1 downloaded _ h1 =>
          decides_done trivial ⟨h1.1,congrArg some h1.2.1⟩
    rw [hoffset,hsize,hlast]
    exact hfits.mono (by simp) fun _ _ _ h => h

/-- What has been transferred of a package. -/
structure Inspected (piece : Bytes) (package : Package) : Prop where
  header : package.header = headerOf piece
  totalSize : package.totalSize = UInt64.ofNat piece.length
  paramSfo : ∃ entry, lastEntry piece entryIdParamSfo = some entry ∧
    package.paramSfo = entry.slice piece
  icon : package.icon0Png = (iconEntry piece).map fun entry => entry.slice piece

theorem decides_inspectPackage (hmem : (url,piece) ∈ split) (pieceCount : ℕ) :
    Decides (Smooth split) fileEffect
      (Inspectable piece ∧ ¬ (pieceCount = 1 ∧ 0 < (headerOf piece).packageSize ∧
        UInt64.ofNat piece.length ≠ (headerOf piece).packageSize))
      (fun s' package => s' = s ∧ Inspected piece package)
      (inspectPackage sslVerify url pieceCount) s := by
  have hmagic : (headerOf piece).take 4 = piece.take 4 := by
    rw [headerOf,List.take_take]
    rfl
  refine ((decides_downloadHeader hmem pieceCount).bind fun s1 header _ h1 => ?_).mono
    (P := (sizeofPkgHeader ≤ piece.length ∧ (headerOf piece).take 4 = pkgMagic ∧
      ¬ (pieceCount = 1 ∧ 0 < (headerOf piece).packageSize ∧
        UInt64.ofNat piece.length ≠ (headerOf piece).packageSize)) ∧
      ((headerOf piece).entryCount ≠ 0 ∧
        (headerOf piece).entryTableOffset+tableSize piece ≤ piece.length) ∧
      (∃ entry, lastEntry piece entryIdParamSfo = some entry ∧ entry.present = true ∧
        entry.offset+entry.size ≤ piece.length ∧ Sfo.sfoMagic <+: entry.slice piece) ∧
      ∀ entry, iconEntry piece = some entry → entry.offset+entry.size ≤ piece.length)
    ?_ fun _ _ _ h => h
  · obtain ⟨rfl,hheader,htotal⟩ := h1
    rw [hheader]
    refine (decides_downloadEntryTable hmem).bind fun s2 scan _ h2 => ?_
    obtain ⟨rfl,hscan⟩ := h2
    refine (decides_downloadParamSfo hmem hscan).bind fun s3 paramSfo _ h3 => ?_
    obtain ⟨rfl,hsfo⟩ := h3
    refine (decides_downloadIcon hmem hscan).bind_certain fun s4 icon0Png _ h4 => ?_
    exact decides_done trivial ⟨h4.1,rfl,htotal,hsfo,h4.2⟩
  · rw [hmagic]
    constructor
    · rintro ⟨⟨hsize,hmagic,hcount⟩,⟨hentries,htable⟩,hsfo,hicon⟩
      exact ⟨⟨hsize,hmagic,hentries,htable,hsfo,hicon⟩,hcount⟩
    · rintro ⟨⟨hsize,hmagic,hentries,htable,hsfo,hicon⟩,hcount⟩
      exact ⟨⟨hsize,hmagic,hcount⟩,⟨hentries,htable⟩,hsfo,hicon⟩

end Inspect

section Publish

variable {split : List (Bytes × Bytes)} {sslVerify : SslVerifyMode} {s : Files} {α : Type}
  {json url piece text : Bytes} {P : Prop} {rest : List (Bytes × Bytes)}

/-- The pieces with their sizes. -/
def sized (split : List (Bytes × Bytes)) : List (Bytes × UInt64) :=
  split.map fun p => (p.1,UInt64.ofNat p.2.length)

def printsText (prints : List JsonPrint) : Bytes := prints.flatMap JsonPrint.text

/-- The file with this text in it. -/
def holding (s : Files) (path text : Bytes) : Files := Function.update s path (some text)

theorem decides_fprintf {print : JsonPrint} {f : ℕ → Setup α} {Q : Files → α → Prop}
    (h : ∀ accepted, Decides (Smooth split) fileEffect P Q (f accepted)
      (holding s json (text++print.text))) :
    Decides (Smooth split) fileEffect P Q (ask (.fprintf json print) >>= f) (holding s json text) := by
  refine decides_perform_bind fun accepted haccepted => ?_
  have heffect : fileEffect (holding s json text) ⟨.fprintf json print,accepted⟩ =
      holding s json (text++print.text) := by
    simp only [fileEffect,holding,Function.update_self,Function.update_idem,Option.map_some]
    rw [List.take_of_length_le haccepted]
  rw [heffect]
  exact h accepted

/-- The host of a later piece is asked for its size. -/
theorem decides_pieceSize (hmem : (url,piece) ∈ split) :
    Decides (Smooth split) fileEffect (piece.length ≠ unknownLength.toNat)
      (fun s' size => s' = s ∧ size = UInt64.ofNat piece.length) (pieceSize sslVerify none url) s := by
  refine decides_perform_bind fun answer hanswer => ?_
  obtain ⟨sdk,http,hcarries,rfl⟩ := hanswer
  have hconforms := @httpGetFileSize_conforms url sdk http (some sslVerify) piece hcarries.works
    hcarries.initialized (hcarries.conforms _ hmem)
  by_cases hunknown : piece.length = unknownLength.toNat
  · rw [if_pos hunknown] at hconforms
    rw [hconforms]
    exact decides_pkgThrowHttpError (not_not.mpr hunknown) _
  · rw [if_neg hunknown] at hconforms
    obtain ⟨-,size,hsize,hvalue⟩ := hconforms
    rw [hvalue]
    exact decides_done hunknown ⟨rfl,by rw [← hsize,UInt64.ofNat_toNat]⟩

/-- What the loop leaves: the end of the pieces, and the prints for them in the file. -/
def Printed (s : Files) (json text : Bytes) (offset : UInt64) (pieces : List (Bytes × UInt64))
    (s' : Files) (last : UInt64) : Prop :=
  last = finish offset (pieces.map Prod.snd) ∧
    s' = holding s json (text++printsText (piecePrints offset pieces))

/-- One round of the loop, once the size of the piece is known. -/
theorem decides_printPiece {offset size : UInt64} {pieces : List (Bytes × UInt64)}
    {urls : List Bytes} (hurls : urls = pieces.map Prod.fst)
    (h : ∀ text, Decides (Smooth split) fileEffect P (Printed s json text (offset+size) pieces)
      (printPieces sslVerify json none (offset+size) urls) (holding s json text)) :
    Decides (Smooth split) fileEffect P (Printed s json text offset ((url,size)::pieces)) (do
      let _ ← ask (.fprintf json (.piece url offset.toNat size.toNat (bytesToHex zeroMiniDigest)))
      if urls ≠ [] then
        let _ ← ask (.fprintf json .comma)
        printPieces sslVerify json none (offset+size) urls
      else printPieces sslVerify json none (offset+size) urls) (holding s json text) := by
  refine decides_fprintf fun _ => ?_
  split_ifs with hne
  · have hpieces : pieces ≠ [] := fun hnil => hne (by rw [hurls,hnil]; rfl)
    refine decides_fprintf fun _ => (h _).mono Iff.rfl fun s' last _ hprinted => ?_
    refine ⟨hprinted.1,?_⟩
    rw [hprinted.2]
    simp [printsText,piecePrints,hpieces]
  · have hpieces : pieces = [] := by simpa [hurls] using hne
    refine (h _).mono Iff.rfl fun s' last _ hprinted => ⟨hprinted.1,?_⟩
    rw [hprinted.2]
    simp [printsText,piecePrints,hpieces]

theorem decides_printPieces (hrest : ∀ p ∈ rest, p ∈ split) (offset : UInt64) (text : Bytes) :
    Decides (Smooth split) fileEffect (∀ p ∈ rest, p.2.length ≠ unknownLength.toNat)
      (Printed s json text offset (sized rest))
      (printPieces sslVerify json none offset (rest.map Prod.fst)) (holding s json text) := by
  induction rest generalizing offset text with
  | nil => exact decides_done (by simp) ⟨rfl,by simp [sized,piecePrints,printsText]⟩
  | cons p rest ih =>
    obtain ⟨url,piece⟩ := p
    have hnext := ih fun q hq => hrest q (List.mem_cons_of_mem _ hq)
    refine ((decides_pieceSize (hrest (url,piece) List.mem_cons_self)).bind fun s1 size _ h1 => ?_).mono
      (P := piece.length ≠ unknownLength.toNat ∧ ∀ p ∈ rest, p.2.length ≠ unknownLength.toNat)
      (by simp) fun _ _ _ h => h
    obtain ⟨rfl,rfl⟩ := h1
    have hurls : rest.map Prod.fst = (sized rest).map Prod.fst := by simp [sized]
    exact decides_printPiece hurls fun text' => hnext _ text'

theorem decides_writeFile (path data failed : Bytes) :
    Decides (Smooth split) fileEffect True (fun s' _ => s' = holding s path data)
      (writeFile path data failed) s := by
  refine decides_perform_bind fun io hio => ?_
  have hwritten : (Util.writeFileTrunc none data io).status = true := hio
  have hstatus : (Util.writeFileTrunc (s path) data io).status = true := by
    rw [Util.writeFileTrunc_status] at hwritten ⊢
    exact hwritten
  have heffect : fileEffect s ⟨.writeFileTrunc path data,io⟩ = holding s path data :=
    congrArg (Function.update s path) (Util.writeFileTrunc_complete hstatus)
  rw [heffect,require,if_pos hwritten]
  exact decides_done trivial rfl

/-- The contents of the three files. -/
structure Holds (paths : TempPaths) (json paramSfo : Bytes) (icon0Png : Option Bytes) (s : Files) :
    Prop where
  json_eq : s paths.refPkgJson = some json
  paramSfo_eq : s paths.paramSfo = some paramSfo
  icon_eq : s paths.icon0Png = icon0Png

/-- The reference json of a package in these pieces. -/
def publishedJson (hdr : PkgHeader) (pieces : List (Bytes × UInt64)) : Bytes :=
  printsText (jsonPrints hdr.packageSize.toNat (bytesToHex hdr.digest) pieces)

/-- The sizes add up to what the header says, if it does. -/
def SizesAddUp (hdr : PkgHeader) (sizes : List UInt64) : Prop :=
  ¬ (0 < hdr.packageSize ∧ finish 0 sizes ≠ hdr.packageSize)

variable {paths : TempPaths} {package : Package}

theorem decides_writeFiles (hpaths : Distinct paths) (hicon : s paths.icon0Png = none)
    (hrest : ∀ p ∈ rest, p ∈ split) (hinspected : Inspected piece package) :
    Decides (Smooth split) fileEffect
      ((∀ p ∈ rest, p.2.length ≠ unknownLength.toNat) ∧
        SizesAddUp package.header ((sized ((url,piece)::rest)).map Prod.snd))
      (fun s' _ => Holds paths (publishedJson package.header (sized ((url,piece)::rest)))
        package.paramSfo package.icon0Png s')
      (writeFiles sslVerify paths (url::rest.map Prod.fst) package)
      (holding s paths.refPkgJson []) := by
  have hurls : rest.map Prod.fst = (sized rest).map Prod.fst := by simp [sized]
  refine decides_fprintf fun _ => ?_
  rw [hinspected.totalSize]
  refine Decides.bind (Q := Printed s paths.refPkgJson _ 0 (sized ((url,piece)::rest)))
    (decides_printPiece hurls fun text => decides_printPieces hrest _ text) fun s1 last _ h1 => ?_
  obtain ⟨rfl,rfl⟩ := h1
  refine decides_fprintf fun _ => decides_require_certain Iff.rfl fun _ =>
    (decides_writeFile _ _ _).bind_certain fun s2 _ _ h2 => ?_
  subst h2
  have hjson : publishedJson package.header (sized ((url,piece)::rest)) =
      [] ++ (JsonPrint.head package.header.packageSize.toNat (bytesToHex package.header.digest)
        (url::rest.map Prod.fst).length).text ++
        printsText (piecePrints 0 (sized ((url,piece)::rest))) ++ JsonPrint.tail.text := by
    simp [publishedJson,jsonPrints,printsText,sized]
  rw [← hjson]
  have hnone : holding (holding s paths.refPkgJson (publishedJson package.header
      (sized ((url,piece)::rest)))) paths.paramSfo package.paramSfo paths.icon0Png = none := by
    rw [holding,Function.update_of_ne hpaths.sfo_icon.symm,holding,
      Function.update_of_ne hpaths.json_icon.symm,hicon]
  have hheld : holding (holding s paths.refPkgJson (publishedJson package.header
      (sized ((url,piece)::rest)))) paths.paramSfo package.paramSfo paths.refPkgJson =
        some (publishedJson package.header (sized ((url,piece)::rest))) := by
    rw [holding,Function.update_of_ne hpaths.json_sfo,holding,Function.update_self]
  split
  · next hpackage =>
    exact decides_done trivial ⟨hheld,Function.update_self _ _ _,hnone.trans hpackage.symm⟩
  · next icon0Png hpackage =>
    refine (decides_writeFile _ _ _).mono Iff.rfl fun s3 _ _ h3 => ?_
    subst h3
    refine ⟨?_,?_,?_⟩
    · rw [holding,Function.update_of_ne hpaths.json_icon,hheld]
    · rw [holding,Function.update_of_ne hpaths.sfo_icon]
      exact Function.update_self _ _ _
    · rw [hpackage]
      exact Function.update_self _ _ _

theorem decides_publish (hpaths : Distinct paths) (hicon : s paths.icon0Png = none)
    (hrest : ∀ p ∈ rest, p ∈ split) (hinspected : Inspected piece package) :
    Decides (Smooth split) fileEffect
      ((∀ p ∈ rest, p.2.length ≠ unknownLength.toNat) ∧
        SizesAddUp package.header ((sized ((url,piece)::rest)).map Prod.snd))
      (fun s' _ => Holds paths (publishedJson package.header (sized ((url,piece)::rest)))
        package.paramSfo package.icon0Png s')
      (publish sslVerify paths (url::rest.map Prod.fst) package) s := by
  refine decides_perform_bind fun opened hopened => ?_
  obtain rfl : opened = .ok () := hopened
  refine (decides_writeFiles hpaths hicon hrest hinspected).caught_bind (fun s1 _ hP h1 => ?_)
    fun s1 _ hP => ?_
  · exact decides_perform_bind fun _ _ => decides_done hP h1
  · exact decides_perform_bind fun _ _ => decides_perform_bind fun _ _ =>
      decides_perform_bind fun _ _ => decides_perform_bind fun _ _ => decides_fail hP

/-- What `pkg_setup_prerequisites` makes of a package: its return, and what it stores. -/
theorem decides_pkgSetupPrerequisites (hpaths : Distinct paths)
    (hnamed : paths.refPkgJson ≠ [] ∧ paths.paramSfo ≠ [] ∧ paths.icon0Png ≠ []) :
    Decides (Smooth ((url,piece)::rest)) fileEffect
      (Inspectable piece ∧ (∀ p ∈ rest, p.2.length ≠ unknownLength.toNat) ∧
        SizesAddUp (headerOf piece) ((sized ((url,piece)::rest)).map Prod.snd))
      (fun s' info => ∃ entry, lastEntry piece entryIdParamSfo = some entry ∧
        Holds paths (publishedJson (headerOf piece) (sized ((url,piece)::rest)))
          (entry.slice piece) ((iconEntry piece).map fun entry => entry.slice piece) s' ∧
        info = ⟨(headerOf piece).contentType,(headerOf piece).packageSize,
          pkgIsPatch (headerOf piece),(iconEntry piece).isSome⟩)
      (pkgSetupPrerequisites sslVerify paths (url::rest.map Prod.fst)) s := by
  have hrest : ∀ p ∈ rest, p ∈ (url,piece)::rest := fun p hp => List.mem_cons_of_mem _ hp
  refine decides_require_true (List.cons_ne_nil _ _) (decides_require_true hnamed.1
    (decides_require_true hnamed.2.1 (decides_require_true hnamed.2.2 ?_)))
  refine decides_perform_bind fun _ _ => decides_perform_bind fun _ _ =>
    decides_perform_bind fun _ _ => ?_
  obtain ⟨s0,hs0⟩ : ∃ s0 : Files, s0 = Function.update (Function.update (Function.update s
    paths.refPkgJson none) paths.paramSfo none) paths.icon0Png none := ⟨_,rfl⟩
  have hcleared : s0 paths.icon0Png = none := by rw [hs0]; exact Function.update_self _ _ _
  change Decides _ _ _ _ _ (Function.update (Function.update (Function.update s
    paths.refPkgJson none) paths.paramSfo none) paths.icon0Png none)
  rw [← hs0]
  refine ((decides_inspectPackage List.mem_cons_self _).bind fun s1 package _ h1 => ?_).mono
    (P := (Inspectable piece ∧ ¬ ((url::rest.map Prod.fst).length = 1 ∧
      0 < (headerOf piece).packageSize ∧
      UInt64.ofNat piece.length ≠ (headerOf piece).packageSize)) ∧
      (∀ p ∈ rest, p.2.length ≠ unknownLength.toNat) ∧
        SizesAddUp (headerOf piece) ((sized ((url,piece)::rest)).map Prod.snd)) ?_ fun _ _ _ h => h
  · obtain ⟨rfl,hinspected⟩ := h1
    have hpublish := @decides_publish _ sslVerify _ url piece _ paths package hpaths hcleared hrest
      hinspected
    rw [hinspected.header] at hpublish
    refine hpublish.bind_certain fun s2 _ _ h2 => decides_done trivial ?_
    obtain ⟨entry,hlast,hsfo⟩ := hinspected.paramSfo
    rw [hsfo,hinspected.icon] at h2
    refine ⟨entry,hlast,h2,?_⟩
    rw [hinspected.header,hinspected.icon,Option.isSome_map]
  · refine ⟨fun h => ⟨h.1.1,h.2⟩,fun h => ⟨⟨h.1,?_⟩,h.2⟩⟩
    rintro ⟨hone,hpos,hdiffers⟩
    -- of a single piece both checks compare the same
    have hnil : rest = [] := by simpa using hone
    refine h.2.2 ⟨hpos,?_⟩
    rw [hnil]
    change 0+UInt64.ofNat piece.length ≠ _
    rw [UInt64.zero_add]
    exact hdiffers

end Publish

section Packages

/-- The package is one to install: its first piece has everything that is read of it, and its
header tells no size or that of all pieces. -/
structure Accepts (pieces : List Bytes) : Prop where
  inspectable : Inspectable (pieces.headD [])
  size : (headerOf (pieces.headD [])).packageSize = 0 ∨
    (headerOf (pieces.headD [])).packageSize.toNat = pieces.flatten.length

/-- What is published is what the package holds. -/
structure Publishes (paths : TempPaths) (urls pieces : List Bytes) (files : Files)
    (info : PackageInfo) : Prop where
  contentType : info.contentType = (headerOf (pieces.headD [])).contentType
  packageSize : info.packageSize = (headerOf (pieces.headD [])).packageSize
  isPatch : info.isPatch = pkgIsPatch (headerOf (pieces.headD []))
  hasIcon : info.hasIcon = (iconEntry (pieces.headD [])).isSome
  paramSfo : ∃ entry, lastEntry (pieces.headD []) entryIdParamSfo = some entry ∧
    files paths.paramSfo = some (entry.slice pieces.flatten)
  icon : files paths.icon0Png =
    (iconEntry (pieces.headD [])).map fun entry => entry.slice pieces.flatten
  json : files paths.refPkgJson =
    some (publishedJson (headerOf (pieces.headD [])) (sized (urls.zip pieces)))

/-- An inspection returns true exactly for a package to install, and publishes it. -/
def Inspects (paths : TempPaths) (urls pieces : List Bytes) (files : Files)
    (r : Except Bytes PackageInfo) : Prop :=
  ((∃ info, r = .ok info) ↔ Accepts pieces) ∧
    ∀ info, r = .ok info → Publishes paths urls pieces files info

/-- The sizes of a package that can be read do not run into the limits of 64 bits. -/
structure SizesHold (pieces : List Bytes) : Prop where
  /-- Without a size in the header no later piece has the one that stands for an unknown size. -/
  untold : Inspectable (pieces.headD []) → (headerOf (pieces.headD [])).packageSize = 0 →
    ∀ piece ∈ pieces.tail, piece.length ≠ 2^64-1
  /-- With one the package is not longer than that by a multiple of 2^64. -/
  told : Inspectable (pieces.headD []) → (headerOf (pieces.headD [])).packageSize ≠ 0 →
    pieces.flatten.length < 2^64 ∨
      pieces.flatten.length%2^64 ≠ (headerOf (pieces.headD [])).packageSize.toNat ∨
      ∃ piece ∈ pieces.tail, piece.length = 2^64-1

theorem exactSum_ofNat (pieces : List Bytes) :
    exactSum (pieces.map fun piece => UInt64.ofNat piece.length)%2^64 =
      pieces.flatten.length%2^64 := by
  induction pieces with
  | nil => rfl
  | cons piece pieces ih =>
    rw [List.map_cons,exactSum_cons,List.flatten_cons,List.length_append,Nat.add_mod,ih,
      UInt64.toNat_ofNat',Nat.mod_mod,← Nat.add_mod]

theorem sizesAddUp_iff (hdr : PkgHeader) (pieces : List Bytes) :
    SizesAddUp hdr (pieces.map fun piece => UInt64.ofNat piece.length) ↔
      hdr.packageSize = 0 ∨ pieces.flatten.length%2^64 = hdr.packageSize.toNat := by
  have hfinish : finish 0 (pieces.map fun piece => UInt64.ofNat piece.length) = hdr.packageSize ↔
      pieces.flatten.length%2^64 = hdr.packageSize.toNat := by
    rw [← UInt64.toNat_inj,finish_toNat,UInt64.toNat_zero,Nat.zero_add,exactSum_ofNat]
  rw [SizesAddUp,UInt64.pos_iff_ne_zero,not_and_or,not_not,not_not,hfinish]

/-- The checks that are made are those on the whole package, if the sizes hold. -/
theorem accepts_iff {piece : Bytes} {pieces : List Bytes} :
    ((Inspectable piece ∧ (∀ p ∈ pieces, p.length ≠ 2^64-1) ∧
      SizesAddUp (headerOf piece) ((piece::pieces).map fun piece => UInt64.ofNat piece.length)) ↔
        Accepts (piece::pieces)) ↔ SizesHold (piece::pieces) := by
  rw [sizesAddUp_iff]
  have haccepts : Accepts (piece::pieces) ↔ Inspectable piece ∧
      ((headerOf piece).packageSize = 0 ∨
        (headerOf piece).packageSize.toNat = (piece::pieces).flatten.length) :=
    ⟨fun h => ⟨h.1,h.2⟩,fun h => ⟨h.1,h.2⟩⟩
  have hhold : SizesHold (piece::pieces) ↔
      (Inspectable piece → (headerOf piece).packageSize = 0 → ∀ p ∈ pieces, p.length ≠ 2^64-1) ∧
      (Inspectable piece → (headerOf piece).packageSize ≠ 0 →
        (piece::pieces).flatten.length < 2^64 ∨
        (piece::pieces).flatten.length%2^64 ≠ (headerOf piece).packageSize.toNat ∨
        ∃ p ∈ pieces, p.length = 2^64-1) := ⟨fun h => ⟨h.1,h.2⟩,fun h => ⟨h.1,h.2⟩⟩
  rw [haccepts,hhold]
  by_cases hinspectable : Inspectable piece
  · have hlt := (headerOf piece).packageSize.toNat_lt
    -- a later piece of that length makes the package longer than any size in a header
    have hlong : (∃ p ∈ pieces, p.length = 2^64-1) → 2^64 ≤ (piece::pieces).flatten.length := by
      rintro ⟨p,hp,hlen⟩
      have hheader : sizeofPkgHeader ≤ piece.length := hinspectable.header
      have hle : p.length ≤ pieces.flatten.length :=
        (List.sublist_flatten_of_mem hp).length_le
      have hpos : 0 < sizeofPkgHeader := by decide
      rw [List.flatten_cons,List.length_append]
      omega
    have hlater : (∀ p ∈ pieces, p.length ≠ 2^64-1) ↔ ¬ ∃ p ∈ pieces, p.length = 2^64-1 := by
      push Not
      rfl
    simp only [hinspectable,true_and,true_imp_iff]
    by_cases hzero : (headerOf piece).packageSize = 0
    · simp [hzero]
    · rw [hlater]
      simp only [hzero,false_or,false_imp_iff,true_and,ne_eq,not_false_eq_true,true_imp_iff]
      generalize (∃ p ∈ pieces, p.length = 2^64-1) = later at hlong ⊢
      generalize (piece::pieces).flatten.length = total at hlong ⊢
      by_cases hl : later
      · have := hlong hl
        simp only [hl,not_true_eq_false,false_and,false_iff,or_true,iff_true]
        omega
      · simp only [hl,not_false_eq_true,true_and,or_false]
        omega
  · simp [hinspectable]

theorem slice_flatten {piece : Bytes} {pieces : List Bytes} {entry : Entry}
    (h : entry.offset+entry.size ≤ piece.length) :
    entry.slice (piece::pieces).flatten = entry.slice piece := by
  rw [Entry.slice,Entry.slice,window,window,List.flatten_cons,List.drop_append_of_le_length (by omega),
    List.take_append_of_le_length (by rw [List.length_drop]; omega)]

section Runs

variable {sslVerify : SslVerifyMode} {paths : TempPaths} {urls pieces : List Bytes}
  {history : List ServerEvent} {r : Except Bytes PackageInfo}

/-- The checks that decide the return, and what is published. -/
theorem pkgSetupPrerequisites_checks {piece : Bytes} (hpaths : Distinct paths)
    (hnamed : paths.refPkgJson ≠ [] ∧ paths.paramSfo ≠ [] ∧ paths.icon0Png ≠ [])
    (hlen : urls.length = (piece::pieces).length)
    (hsmooth : ∀ e ∈ history, Smooth (urls.zip (piece::pieces)) e.1 e.2)
    (h : Ends (pkgSetupPrerequisites sslVerify paths urls) history r) (files : Files) :
    ((∃ info, r = .ok info) ↔ Inspectable piece ∧ (∀ p ∈ pieces, p.length ≠ 2^64-1) ∧
      SizesAddUp (headerOf piece) ((piece::pieces).map fun piece => UInt64.ofNat piece.length)) ∧
    ∀ info, r = .ok info →
      Publishes paths urls (piece::pieces) (history.foldl fileEffect files) info := by
  obtain ⟨url,others,rfl⟩ : ∃ url others, urls = url::others :=
    List.exists_cons_of_length_eq_add_one hlen
  have hothers : others.length = pieces.length := by simpa using hlen
  have hfst : (others.zip pieces).map Prod.fst = others := List.map_fst_zip hothers.le
  have hsnd : (others.zip pieces).map Prod.snd = pieces := List.map_snd_zip hothers.ge
  have hdecides := @decides_pkgSetupPrerequisites sslVerify files url piece (others.zip pieces) paths
    hpaths hnamed
  rw [hfst] at hdecides
  obtain ⟨hresult,hpublished⟩ := hdecides.ends hsmooth h
  have hsizes : (sized ((url,piece)::others.zip pieces)).map Prod.snd =
      (piece::pieces).map fun piece => UInt64.ofNat piece.length := by
    rw [sized,List.map_map,List.map_cons,List.map_cons]
    refine congrArg (_::·) ?_
    conv_rhs => rw [← hsnd,List.map_map]
    rfl
  have hlater : (∀ p ∈ others.zip pieces, p.2.length ≠ unknownLength.toNat) ↔
      ∀ p ∈ pieces, p.length ≠ 2^64-1 := by
    conv_rhs => rw [← hsnd]
    simp only [List.mem_map,forall_exists_index,and_imp,forall_apply_eq_imp_iff₂]
    rfl
  rw [hsizes,hlater] at hresult
  refine ⟨hresult,fun info hinfo => ?_⟩
  obtain ⟨entry,hlast,hholds,rfl⟩ := hpublished info hinfo
  have hinspectable := (hresult.mp ⟨_,hinfo⟩).1
  obtain ⟨entry',hlast',-,hfits,-⟩ := hinspectable.paramSfo
  obtain rfl : entry = entry' := Option.some.inj (hlast.symm.trans hlast')
  refine ⟨rfl,rfl,rfl,rfl,⟨entry,hlast,?_⟩,?_,hholds.json_eq⟩
  · rw [hholds.paramSfo_eq,slice_flatten hfits]
  · rw [hholds.icon_eq]
    change _ = (iconEntry piece).map _
    rcases hicon : iconEntry piece with _ | icon
    · rfl
    · exact congrArg some (slice_flatten (hinspectable.icon icon hicon)).symm

/-- Package inspection returns true exactly for a package to install and publishes what it
holds, however it is split, if and only if the sizes do not run into the limits of 64 bits. -/
theorem pkgSetupPrerequisites_inspects_iff (hpaths : Distinct paths)
    (hnamed : paths.refPkgJson ≠ [] ∧ paths.paramSfo ≠ [] ∧ paths.icon0Png ≠ [])
    (hne : pieces ≠ []) (hlen : urls.length = pieces.length)
    (hsmooth : ∀ e ∈ history, Smooth (urls.zip pieces) e.1 e.2)
    (h : Ends (pkgSetupPrerequisites sslVerify paths urls) history r) (files : Files) :
    Inspects paths urls pieces (history.foldl fileEffect files) r ↔ SizesHold pieces := by
  obtain ⟨piece,rest,rfl⟩ := List.exists_cons_of_ne_nil hne
  obtain ⟨hresult,hpublished⟩ := pkgSetupPrerequisites_checks hpaths hnamed hlen hsmooth h files
  rw [← accepts_iff,← hresult]
  exact ⟨fun hinspects => hinspects.1,fun haccepts => ⟨haccepts,hpublished⟩⟩

end Runs

end Packages

section Hosts

/-- A host with one resource. -/
def serveResource (resource : Bytes) (request : HostRequest) : HostAnswer :=
  match Downloads.requestedRange request with
  | none => ⟨200,contentLengthExist,UInt64.ofNat resource.length,resource⟩
  | some range =>
    if range.1 < resource.length then
      ⟨206,contentLengthExist,UInt64.ofNat (Downloads.clipped resource range).length,
        Downloads.clipped resource range⟩
    else ⟨416,0,0,[]⟩

/-- The hosts of all pieces. -/
def pieceHosts (split : List (Bytes × Bytes)) (request : HostRequest) : HostAnswer :=
  match split.find? fun p => p.1 = request.url with
  | some p => serveResource p.2 request
  | none => ⟨404,0,0,[]⟩

theorem clipped_length_le (resource : Bytes) (range : ℕ × ℕ) :
    (Downloads.clipped resource range).length ≤ resource.length := by
  rw [Downloads.clipped,window_length]
  omega

theorem pieceHosts_conforms {split : List (Bytes × Bytes)} (hurls : (split.map Prod.fst).Nodup)
    (hlt : ∀ p ∈ split, p.2.length < 2^64) :
    ∀ p ∈ split, Conforms (pieceHosts split) p.1 p.2 := by
  intro p hp
  have hanswer : ∀ headers, pieceHosts split ⟨p.1,headers⟩ = serveResource p.2 ⟨p.1,headers⟩ := by
    intro headers
    have hfind : (split.find? fun q => q.1 = p.1) = some p := by
      obtain ⟨q,hq⟩ : ∃ q, (split.find? fun q => q.1 = p.1) = some q := by
        rw [← Option.isSome_iff_exists,List.find?_isSome]
        exact ⟨p,hp,by simp⟩
      have hfst : q.1 = p.1 := by simpa using List.find?_some hq
      rw [hq,List.inj_on_of_nodup_map hurls (List.mem_of_find?_eq_some hq) hp hfst]
    rw [pieceHosts,hfind]
  have hlength := hlt p hp
  refine ⟨fun headers hnone => ?_,fun headers range hrange hinside => ?_,
    fun headers range hrange houtside => ?_⟩
  · rw [hanswer,serveResource,hnone]
    exact ⟨rfl,rfl,UInt64.toNat_ofNat_of_lt' hlength,rfl⟩
  · rw [hanswer,serveResource,hrange]
    simp only [hinside,if_true]
    exact ⟨trivial,trivial,UInt64.toNat_ofNat_of_lt' ((clipped_length_le _ _).trans_lt hlength),
      trivial⟩
  · rw [hanswer,serveResource,hrange]
    simp only [not_lt.mpr houtside,if_false]

def smoothHttp : Http := { Http.fresh with initialized := true }

/-- A console on which nothing fails, with these hosts. -/
def smoothReply (split : List (Bytes × Bytes)) : (c : ServerCall) → Reply c
  | .httpDownloadFile url size offset sslVerify =>
    (HttpTransfer.httpDownloadFile url (Downloads.workingSdk (pieceHosts split)) smoothHttp size offset
      sslVerify).value
  | .httpGetFileSize url sslVerify =>
    (HttpTransfer.httpGetFileSize url (Downloads.workingSdk (pieceHosts split)) smoothHttp
      sslVerify).value
  | c => InstallPieces.sampleReply ⟨0,1⟩ c

theorem workingSdk_works (host : HostRequest → HostAnswer) : Works (Downloads.workingSdk host) :=
  ⟨Int.zero_le_ofNat 1,rfl,Int.zero_le_ofNat 1,Int.zero_le_ofNat 1,fun _ => rfl,rfl,le_rfl,rfl,
    fun _ => rfl,fun _ => show (0 : ℤ) < 16384 by decide⟩

theorem smooth_smoothReply {split : List (Bytes × Bytes)} (hurls : (split.map Prod.fst).Nodup)
    (hlt : ∀ p ∈ split, p.2.length < 2^64) (c : ServerCall) : Smooth split c (smoothReply split c) := by
  have hcarries : Carries split (Downloads.workingSdk (pieceHosts split)) smoothHttp :=
    ⟨workingSdk_works _,rfl,pieceHosts_conforms hurls hlt⟩
  cases c with
  | httpDownloadFile url size offset sslVerify => exact ⟨_,_,hcarries,rfl⟩
  | httpGetFileSize url sslVerify => exact ⟨_,_,hcarries,rfl⟩
  | fprintf path print => exact le_rfl
  | fopen path => rfl
  | writeFileTrunc path data =>
    refine (Util.writeFileTrunc_status none data _).mpr ⟨rfl,?_⟩
    cases data with
    | nil => rfl
    | cons c data =>
      have hdone : TransferLoop.writeLoop (fun _ => ((c::data).length : ℤ)) data.length 1 0 = 0 := by
        cases data <;> rfl
      have hpos : ¬ ((data.length : ℤ)+1 ≤ 0) := by omega
      simpa [smoothReply,InstallPieces.sampleReply,Util.WriteCalls.accepted,TransferLoop.writeLoop,
        hpos] using hdone
  | _ => trivial

end Hosts

section Sample

open InstallPieces

variable (urls pieces : List Bytes)

/-- The inspection of a package in these pieces, with no failure. -/
def smoothRun : List ServerEvent × Except Bytes PackageInfo :=
  let answer : Unit → (c : ServerCall) → Unit × Reply c :=
    fun _ c => ((),smoothReply (urls.zip pieces) c)
  (Program.history answer (pkgSetupPrerequisites .on (tempPaths sampleStream) urls) (),
    (Program.run answer (pkgSetupPrerequisites .on (tempPaths sampleStream) urls) ()).2)

theorem smoothRun_ends : Ends (pkgSetupPrerequisites .on (tempPaths sampleStream) urls)
    (smoothRun urls pieces).1 (smoothRun urls pieces).2 :=
  ends_run _ _ _

variable {urls pieces}

theorem smoothRun_smooth (hurls : urls.Nodup) (hlen : urls.length = pieces.length)
    (hlt : ∀ piece ∈ pieces, piece.length < 2^64) :
    ∀ e ∈ (smoothRun urls pieces).1, Smooth (urls.zip pieces) e.1 e.2 := by
  have hfst : (urls.zip pieces).map Prod.fst = urls := List.map_fst_zip hlen.le
  exact history_allowed (fun _ c => smooth_smoothReply (hfst.symm ▸ hurls)
    (fun p hp => hlt p.2 (List.of_mem_zip hp).2) c) _ _

theorem tempPaths_named : (tempPaths sampleStream).refPkgJson ≠ [] ∧
    (tempPaths sampleStream).paramSfo ≠ [] ∧ (tempPaths sampleStream).icon0Png ≠ [] := by
  decide

theorem zeros_length (n : ℕ) : (zeros n).length = n := List.length_replicate

theorem sampleEntryTable_length : sampleEntryTable.length = 0x20 := rfl

theorem sampleSfo_length : sampleSfo.length = 0x74 := by decide +kernel

/-- The sample of 0x3000 bytes in two pieces. -/
def samplePieces : List Bytes :=
  [sampleHeader++sampleEntryTable++zeros 0x7e0++sampleSfo++zeros 0x8c,zeros 0x700]

def samplePieceUrls : List Bytes := [bytes "http://h/a.pkg",bytes "http://h/b.pkg"]

theorem samplePieces_length : samplePieces.map List.length = [0x2900,0x700] := by
  simp only [samplePieces,sampleHeader,List.map_cons,List.map_nil,List.length_append,zeros_length,
    sampleEntryTable_length,sampleSfo_length]
  rfl

theorem samplePieces_sizesHold : SizesHold samplePieces := by
  have hsize : (headerOf (samplePieces.headD [])).packageSize ≠ 0 := by decide +kernel
  have hlength : samplePieces.flatten.length < 2^64 := by
    rw [List.length_flatten,samplePieces_length]
    decide
  exact ⟨fun _ hzero => absurd hzero hsize,fun _ _ => Or.inl hlength⟩

theorem pkgSetupPrerequisites_inspects_iff_example :
    Inspects (tempPaths sampleStream) samplePieceUrls samplePieces
      ((smoothRun samplePieceUrls samplePieces).1.foldl fileEffect fun _ => none)
      (smoothRun samplePieceUrls samplePieces).2 := by
  have hlen : samplePieceUrls.length = samplePieces.length := by decide
  have hlt : ∀ piece ∈ samplePieces, piece.length < 2^64 := by
    intro piece hpiece
    have hmem := List.mem_map_of_mem (f := List.length) hpiece
    rw [samplePieces_length] at hmem
    simp only [List.mem_cons,List.not_mem_nil,or_false] at hmem
    omega
  have hne : samplePieces ≠ [] := List.cons_ne_nil _ _
  have hsmooth := smoothRun_smooth (by decide) hlen hlt
  have hends := smoothRun_ends samplePieceUrls samplePieces
  exact (pkgSetupPrerequisites_inspects_iff (TempFiles.tempPaths_distinct sampleStream)
    tempPaths_named hne hlen hsmooth hends _).mpr samplePieces_sizesHold

/-- The first piece of a package whose header says that it has only this piece's 0x2874 bytes. -/
def hugeFirst : Bytes :=
  pkgMagic++(zeros 0xc++([0,0,0,1]++(zeros 4++([0,0,0x20,0]++(zeros 0x58++([0,0,0,0x1a]++
    (zeros 0x3b8++([0,0,0,0,0,0,0x28,0x74]++(zeros 0x1bc8++(sampleEntryTable++
      (zeros 0x7e0++sampleSfo)))))))))))

def hugePiece : Bytes := zeros (2^63)

theorem hugePiece_length : hugePiece.length = 2^63 := zeros_length _

def hugePieces : List Bytes := [hugeFirst,hugePiece,hugePiece]

def hugeUrls : List Bytes :=
  [bytes "http://h/a.pkg",bytes "http://h/b.pkg",bytes "http://h/c.pkg"]

theorem hugeFirst_length : hugeFirst.length = 0x2874 := by
  simp only [hugeFirst,List.length_append,zeros_length,sampleEntryTable_length,sampleSfo_length]
  rfl

theorem hugePieces_length : hugePieces.flatten.length = 2^64+0x2874 := by
  rw [hugePieces,List.flatten_cons,List.flatten_cons,List.flatten_cons,List.flatten_nil,
    List.length_append,List.length_append,List.length_append,hugeFirst_length,hugePiece_length]
  rfl

theorem hugeFirst_inspectable : Inspectable hugeFirst where
  header := by
    rw [hugeFirst_length]
    decide
  magic := by decide +kernel
  entries := by decide +kernel
  table := by decide +kernel
  paramSfo := ⟨⟨0x1000,0x2800,0x74⟩,by decide +kernel,by decide,by decide +kernel,by decide +kernel⟩
  icon := by
    have hnone : iconEntry hugeFirst = none := by decide +kernel
    rw [hnone]
    exact fun _ h => nomatch h

theorem hugePieces_not_accepts : ¬ Accepts hugePieces := by
  intro h
  have hsize : (headerOf hugeFirst).packageSize = 0x2874 := by decide +kernel
  have hboth := h.size
  change (headerOf hugeFirst).packageSize = 0 ∨ (headerOf hugeFirst).packageSize.toNat = _ at hboth
  rw [hsize,hugePieces_length] at hboth
  exact absurd hboth (by decide)

/-- A package of 2^64 more bytes than its header says is accepted. -/
theorem hugePieces_accepted : ∃ history info,
    (∀ e ∈ history, Smooth (hugeUrls.zip hugePieces) e.1 e.2) ∧
    Ends (pkgSetupPrerequisites .on (tempPaths sampleStream) hugeUrls) history (.ok info) ∧
    ¬ Accepts hugePieces := by
  have hlen : hugeUrls.length = hugePieces.length := by decide
  have hlt : ∀ piece ∈ hugePieces, piece.length < 2^64 := by
    intro piece hpiece
    simp only [hugePieces,List.mem_cons,List.not_mem_nil,or_false] at hpiece
    rcases hpiece with rfl | rfl | rfl
    · rw [hugeFirst_length]
      decide
    · rw [hugePiece_length]
      decide
    · rw [hugePiece_length]
      decide
  have hsmooth := smoothRun_smooth (by decide) hlen hlt
  have hends := smoothRun_ends hugeUrls hugePieces
  have hchecks := (pkgSetupPrerequisites_checks (TempFiles.tempPaths_distinct sampleStream)
    tempPaths_named hlen hsmooth hends fun _ => none).1
  have hlater : ∀ p ∈ [hugePiece,hugePiece], p.length ≠ 2^64-1 := by
    intro p hp
    simp only [List.mem_cons,List.not_mem_nil,or_false,or_self] at hp
    rw [hp,hugePiece_length]
    decide
  have hadd : SizesAddUp (headerOf hugeFirst)
      (hugePieces.map fun piece => UInt64.ofNat piece.length) := by
    have hsize : (headerOf hugeFirst).packageSize = 0x2874 := by decide +kernel
    rw [sizesAddUp_iff,hugePieces_length,hsize]
    decide
  obtain ⟨info,hinfo⟩ := hchecks.mpr ⟨hugeFirst_inspectable,hlater,hadd⟩
  exact ⟨_,info,hsmooth,hinfo ▸ hends,hugePieces_not_accepts⟩

end Sample

end PackageInspection
end RemotePkgInstaller
