import RemotePkgInstaller.ReferenceJson
import RemotePkgInstaller.WrappingSums

/-! The three files of an inspection: whether each is complete when it succeeds, and that none
is left when it fails.  Two of them are written in one go, and that is checked; what gets of
the prints into the third is not. -/
namespace RemotePkgInstaller
namespace CompleteFiles

open HttpState HttpTransfer InstallPieces PkgSetup Programs Program PublishedFiles ReferenceJson
  ServerCalls TempFiles WrappingSums

/-- All of a print gets into the file. -/
def Whole : ServerEvent → Prop
  | ⟨.fprintf _ print,accepted⟩ => print.text.length ≤ accepted
  | _ => True

/-- A host tells the size of a piece, and a file is written. -/
def Granted : ServerEvent → Prop
  | ⟨.httpGetFileSize _ _,size⟩ => size.isSome = true
  | ⟨.writeFileTrunc _ data,io⟩ => (Util.writeFileTrunc none data io).status = true
  | _ => True

def toldSize : ServerEvent → List UInt64
  | ⟨.httpGetFileSize _ _,some size⟩ => [size]
  | _ => []

section Histories

variable (history : List ServerEvent)

def transfers : List Downloaded := history.flatMap transferOf

/-- The package's header is the first thing that is downloaded. -/
def header : PkgHeader := ((transfers history).head?.map Downloaded.data).getD []

/-- The size of the first piece comes with the header. -/
def sizes : List UInt64 :=
  ((transfers history).head?.map Downloaded.totalSize).toList++history.flatMap toldSize

/-- If the header has the size of the package, the pieces are as long together. -/
def AddUp : Prop :=
  0 < (header history).packageSize → finish 0 (sizes history) = (header history).packageSize

/-- What the reference json of these pieces reads. -/
def composed (urls : List Bytes) : Bytes :=
  jsonText (header history).packageSize.toNat (bytesToHex (header history).digest)
    (urls.zip (sizes history))

end Histories

/-- Each file holds all that is meant for it; there is no icon file without an icon. -/
structure Complete (paths : TempPaths) (urls : List Bytes) (history : List ServerEvent)
    (files : Files) : Prop where
  refPkgJson : files paths.refPkgJson = some (composed history urls)
  paramSfo : ∃ downloaded, (transfers history)[2]? = some downloaded ∧
    files paths.paramSfo = some downloaded.data
  icon0Png : files paths.icon0Png = (transfers history)[3]?.map Downloaded.data

/-- Success means complete files, and failure none. -/
def CompleteOrNone (paths : TempPaths) (urls : List Bytes) (history : List ServerEvent)
    (files : Files) : Except Bytes PackageInfo → Prop
  | .ok _ => Complete paths urls history files
  | .error _ => NoneThere paths files

/-- There are pieces, and names for the files. -/
def Usable (paths : TempPaths) (urls : List Bytes) : Prop :=
  urls ≠ [] ∧ paths.refPkgJson ≠ [] ∧ paths.paramSfo ≠ [] ∧ paths.icon0Png ≠ []

variable {sslVerify : SslVerifyMode} {paths : TempPaths} {urls : List Bytes} {α : Type}
  {history : List ServerEvent}

section Ends

theorem ends_require {c : Prop} [Decidable c] {text : Bytes} {r : Except Bytes Unit}
    (h : Ends (require c text) history r) : history = [] ∧ (r = .ok () ↔ c) := by
  unfold require at h
  split_ifs at h with hc
  · obtain ⟨rfl,rfl⟩ := ends_done.mp h
    exact ⟨rfl,iff_of_true rfl hc⟩
  · obtain ⟨rfl,rfl⟩ := ends_fail.mp h
    exact ⟨rfl,iff_of_false (fun h => nomatch h) hc⟩

theorem ends_require_bind {c : Prop} [Decidable c] {text : Bytes} {f : Unit → Setup α}
    {r : Except Bytes α} (h : Ends (require c text >>= f) history r) :
    (c ∧ Ends (f ()) history r) ∨ (¬ c ∧ history = [] ∧ ∃ e, r = .error e) := by
  rcases ends_bind.mp h with ⟨first,rest,_,rfl,h1,h2⟩ | ⟨e,rfl,h1⟩
  · obtain ⟨rfl,hc⟩ := ends_require h1
    exact Or.inl ⟨hc.mp rfl,h2⟩
  · obtain ⟨rfl,hc⟩ := ends_require h1
    exact Or.inr ⟨fun h => (nomatch hc.mpr h),rfl,e,rfl⟩

theorem ends_pkgThrowHttpError {text : Bytes} {r : Except Bytes α}
    (h : Ends (pkgThrowHttpError text) history r) : ∃ e, r = .error e := by
  obtain ⟨first,rest,rfl,hrest⟩ := ends_perform_bind.mp h
  split_ifs at hrest
  · obtain ⟨_,_,rfl,hfail⟩ := ends_perform_bind.mp hrest
    exact ⟨_,(ends_fail.mp hfail).2⟩
  · exact ⟨_,(ends_fail.mp hrest).2⟩

/-- The size of a piece, unless it is known, is what the host tells. -/
theorem ends_pieceSize {known : Option UInt64} {url : Bytes} {r : Except Bytes UInt64}
    (h : Ends (pieceSize sslVerify known url) history r) :
    match r with
    | .ok size => (∀ e ∈ history, Granted e) ∧ history.flatMap printOf = [] ∧
        known.toList++history.flatMap toldSize = [size]
    | .error _ => ∃ e ∈ history, ¬ Granted e := by
  cases known with
  | some size =>
    obtain ⟨rfl,rfl⟩ := ends_done.mp h
    exact ⟨by simp,rfl,rfl⟩
  | none =>
    obtain ⟨answer,rest,rfl,hrest⟩ := ends_perform_bind.mp h
    cases answer with
    | some size =>
      obtain ⟨rfl,rfl⟩ := ends_done.mp hrest
      exact ⟨by simp [Granted],rfl,rfl⟩
    | none =>
      obtain ⟨text,rfl⟩ := ends_pkgThrowHttpError hrest
      exact ⟨_,List.mem_cons_self,by simp [Granted]⟩

/-- What the history of the loop over the pieces shows when it ends with `total`. -/
structure Printed (offset : UInt64) (urls : List Bytes) (sizes : List UInt64) (total : UInt64)
    (history : List ServerEvent) : Prop where
  granted : ∀ e ∈ history, Granted e
  length : sizes.length = urls.length
  total_eq : total = finish offset sizes
  prints : (history.flatMap printOf).map Prod.fst = piecePrints offset (urls.zip sizes)

/-- One round: the size of a piece, its print, and a comma if more pieces follow. -/
theorem Printed.cons {offset size total : UInt64} {url : Bytes} {sizes : List UInt64}
    {first rest : List ServerEvent} {json : Bytes} {accepted : ℕ} {commas : List ServerEvent}
    (hgranted : ∀ e ∈ first, Granted e) (hfirst : first.flatMap printOf = [])
    (hcommas : ∀ e ∈ commas, Granted e)
    (hprints : (commas.flatMap printOf).map Prod.fst = if urls = [] then [] else [.comma])
    (h : Printed (offset+size) urls sizes total rest) :
    Printed offset (url::urls) (size::sizes) total
      (first++⟨.fprintf json (.piece url offset.toNat size.toNat (bytesToHex zeroMiniDigest)),
        accepted⟩::(commas++rest)) := by
  refine ⟨?_,?_,?_,?_⟩
  · intro e he
    simp only [List.mem_append,List.mem_cons] at he
    rcases he with he | rfl | he | he
    · exact hgranted e he
    · trivial
    · exact hcommas e he
    · exact h.granted e he
  · rw [List.length_cons,h.length,List.length_cons]
  · rw [h.total_eq,finish_cons]
  · have hnil : urls.zip sizes = [] ↔ urls = [] := by
      rw [List.zip_eq_nil_iff,← List.length_eq_zero_iff (l := sizes),h.length,
        List.length_eq_zero_iff,or_self]
    simp only [List.flatMap_append,List.flatMap_cons,List.map_append,hfirst,
      List.nil_append,hprints,h.prints,List.zip_cons_cons,piecePrints,hnil]
    rfl

theorem ends_printPieces {json : Bytes} {known : Option UInt64} {offset : UInt64}
    {r : Except Bytes UInt64} (hknown : urls = [] → known = none)
    (h : Ends (printPieces sslVerify json known offset urls) history r) :
    match r with
    | .ok total => Printed offset urls (known.toList++history.flatMap toldSize) total history
    | .error _ => ∃ e ∈ history, ¬ Granted e := by
  induction urls generalizing known offset history with
  | nil =>
    obtain ⟨rfl,rfl⟩ := ends_done.mp h
    rw [hknown rfl]
    exact ⟨by simp,rfl,rfl,rfl⟩
  | cons url urls ih =>
    rcases ends_bind.mp h with ⟨first,rest,size,rfl,h1,h2⟩ | ⟨e,rfl,h1⟩
    swap
    · exact ends_pieceSize h1
    obtain ⟨hgranted,hfirst,hsize⟩ := ends_pieceSize h1
    obtain ⟨accepted,rest,rfl,h3⟩ := ends_perform_bind.mp h2
    -- the two branches differ in the comma
    have hround : ∃ commas last, rest = commas++last ∧ (∀ e ∈ commas, Granted e) ∧
        commas.flatMap toldSize = [] ∧
        (commas.flatMap printOf).map Prod.fst = (if urls = [] then [] else [.comma]) ∧
        Ends (printPieces sslVerify json none (offset+size) urls) last r := by
      split_ifs at h3 with hurls
      · obtain ⟨accepted',last,rfl,h4⟩ := ends_perform_bind.mp h3
        exact ⟨[_],last,rfl,by simp [Granted],rfl,by rw [if_neg hurls]; rfl,h4⟩
      · exact ⟨[],rest,rfl,by simp,rfl,by rw [if_pos (not_not.mp hurls)]; rfl,h3⟩
    obtain ⟨commas,last,rfl,hcommas,htold,hprints,h4⟩ := hround
    have hlast := ih (fun _ => rfl) h4
    cases r with
    | error e =>
      obtain ⟨e,he,hno⟩ := hlast
      exact ⟨e,by simp [he],hno⟩
    | ok total =>
      have hsizes : known.toList++(first++(⟨.fprintf json (.piece url offset.toNat size.toNat
          (bytesToHex zeroMiniDigest)),accepted⟩::(commas++last))).flatMap toldSize =
            size::last.flatMap toldSize := by
        simp only [List.flatMap_append,List.flatMap_cons,htold]
        rw [← List.append_assoc,hsize]
        rfl
      rw [hsizes]
      exact hlast.cons hgranted hfirst hcommas hprints

theorem ends_writeFile {path data failed : Bytes} {r : Except Bytes Unit}
    (h : Ends (writeFile path data failed) history r) :
    ∃ io, history = [⟨.writeFileTrunc path data,io⟩] ∧
      (r = .ok () ↔ ∀ e ∈ history, Granted e) := by
  obtain ⟨io,rest,rfl,hrest⟩ := ends_perform_bind.mp h
  obtain ⟨rfl,hr⟩ := ends_require hrest
  exact ⟨io,rfl,hr.trans (by simp [Granted])⟩

/-- The two files that are written in one go. -/
theorem ends_writes {package : Package} {failed failed' : Bytes} {r : Except Bytes Unit}
    (h : Ends (do
      writeFile paths.paramSfo package.paramSfo failed
      match package.icon0Png with
      | none => pure ()
      | some icon0Png => writeFile paths.icon0Png icon0Png failed') history r) :
    (r = .ok () ↔ ∀ e ∈ history, Granted e) ∧ history.flatMap toldSize = [] ∧
      history.flatMap printOf = [] := by
  rcases ends_bind.mp h with ⟨first,rest,_,rfl,h1,h2⟩ | ⟨e,rfl,h1⟩
  swap
  · obtain ⟨io,rfl,hr⟩ := ends_writeFile h1
    exact ⟨hr,rfl,rfl⟩
  obtain ⟨io,rfl,hr⟩ := ends_writeFile h1
  have hsfo := hr.mp rfl
  cases hicon : package.icon0Png with
  | none =>
    rw [hicon] at h2
    obtain ⟨rfl,rfl⟩ := ends_done.mp h2
    exact ⟨iff_of_true rfl hsfo,rfl,rfl⟩
  | some icon0Png =>
    rw [hicon] at h2
    obtain ⟨io',rfl,hr'⟩ := ends_writeFile h2
    refine ⟨hr'.trans ?_,rfl,rfl⟩
    rw [List.forall_mem_append]
    exact (and_iff_right hsfo).symm

/-- Success means that nothing has been refused, that the sizes fit and that the prints are those
of a reference json; a failure means a refusal, sizes that do not fit, or no print at all. -/
def WrittenOr (package : Package) (urls : List Bytes) (history : List ServerEvent) :
    Except Bytes α → Prop
  | .ok _ => (∀ e ∈ history, Granted e) ∧
      (0 < package.header.packageSize →
        finish 0 (package.totalSize::history.flatMap toldSize) = package.header.packageSize) ∧
      (history.flatMap printOf).map Prod.fst = jsonPrints package.header.packageSize.toNat
        (bytesToHex package.header.digest)
        (urls.zip (package.totalSize::history.flatMap toldSize))
  | .error _ => (∀ e ∈ history, Granted e) →
      (0 < package.header.packageSize →
        finish 0 (package.totalSize::history.flatMap toldSize) = package.header.packageSize) →
      history.flatMap printOf = []

theorem ends_writeFiles {package : Package} {r : Except Bytes Unit} (hurls : urls ≠ [])
    (h : Ends (writeFiles sslVerify paths urls package) history r) :
    WrittenOr package urls history r := by
  obtain ⟨a1,rest,rfl,h1⟩ := ends_perform_bind.mp h
  rcases ends_bind.mp h1 with ⟨printing,rest,total,rfl,h2,h3⟩ | ⟨text,rfl,h2⟩
  swap
  · obtain ⟨e,he,hno⟩ := ends_printPieces (fun hnil => absurd hnil hurls) h2
    exact fun hgranted _ => absurd (hgranted e (List.mem_cons_of_mem _ he)) hno
  have hprinted := ends_printPieces (fun hnil => absurd hnil hurls) h2
  obtain ⟨a2,rest,rfl,h4⟩ := ends_perform_bind.mp h3
  obtain ⟨hgranted,hlength,htotal,hprints⟩ := hprinted
  have hsizes : ∀ writes : List ServerEvent, writes.flatMap toldSize = [] →
      package.totalSize::(⟨.fprintf paths.refPkgJson (.head package.header.packageSize.toNat
        (bytesToHex package.header.digest) urls.length),a1⟩::(printing++
          ⟨.fprintf paths.refPkgJson .tail,a2⟩::writes) : List ServerEvent).flatMap toldSize =
        (some package.totalSize).toList++printing.flatMap toldSize := by
    intro writes hwrites
    simp [toldSize,hwrites]
  rcases ends_require_bind h4 with ⟨hsum,h5⟩ | ⟨hsum,rfl,text,rfl⟩
  swap
  · intro _ hadd
    rw [hsizes [] rfl,← htotal] at hadd
    exact absurd (fun hbad => hbad.2 (hadd hbad.1)) hsum
  obtain ⟨hr,htold,hno⟩ := ends_writes h5
  cases r with
  | error text =>
    refine fun hall _ => absurd (hr.mpr fun e he => hall e ?_) (fun h => nomatch h)
    simp [he]
  | ok u =>
    rw [WrittenOr,hsizes _ htold,← htotal]
    refine ⟨?_,?_,?_⟩
    · intro e he
      simp only [List.mem_cons,List.mem_append] at he
      rcases he with rfl | he | rfl | he
      · trivial
      · exact hgranted e he
      · trivial
      · exact hr.mp rfl e he
    · exact fun hpos => by_contra fun hne => hsum ⟨hpos,hne⟩
    · rw [jsonPrints,List.length_zip,hlength,min_self,← hprints]
      simp [printOf,hno]

/-- Neither a size nor a print nor a refusal. -/
structure Plain (e : ServerEvent) : Prop where
  granted : Granted e
  toldSize : toldSize e = []
  printOf : printOf e = []

theorem WrittenOr.around {package : Package} {r : Except Bytes α}
    (h : WrittenOr package urls history r) {before after : List ServerEvent}
    (hbefore : ∀ e ∈ before, Plain e) (hafter : ∀ e ∈ after, Plain e) : WrittenOr package urls (before++(history++after)) r := by
  have htold : (before++(history++after)).flatMap toldSize = history.flatMap toldSize := by
    rw [List.flatMap_append,List.flatMap_append,
      List.flatMap_eq_nil_iff.mpr fun e he => (hbefore e he).toldSize,
      List.flatMap_eq_nil_iff.mpr fun e he => (hafter e he).toldSize,List.append_nil,List.nil_append]
  have hprint : (before++(history++after)).flatMap printOf = history.flatMap printOf := by
    rw [List.flatMap_append,List.flatMap_append,
      List.flatMap_eq_nil_iff.mpr fun e he => (hbefore e he).printOf,
      List.flatMap_eq_nil_iff.mpr fun e he => (hafter e he).printOf,List.append_nil,List.nil_append]
  have hgranted : (∀ e ∈ before++(history++after), Granted e) ↔ ∀ e ∈ history, Granted e := by
    rw [List.forall_mem_append,List.forall_mem_append]
    exact ⟨fun hall => hall.2.1,fun hall =>
      ⟨fun e he => (hbefore e he).granted,hall,fun e he => (hafter e he).granted⟩⟩
  cases r <;> simpa only [WrittenOr,htold,hprint,hgranted] using h

theorem plain_fopen (path : Bytes) (opened : Except ℤ Unit) : Plain ⟨.fopen path,opened⟩ :=
  ⟨trivial,rfl,rfl⟩

theorem plain_fclose (path : Bytes) (r : Unit) : Plain ⟨.fclose path,r⟩ := ⟨trivial,rfl,rfl⟩

theorem plain_unlink (path : Bytes) (r : Unit) : Plain ⟨.unlink path,r⟩ := ⟨trivial,rfl,rfl⟩

/-- The unlinks before and after a failure. -/
def clearing (paths : TempPaths) : List ServerEvent :=
  [⟨.unlink paths.refPkgJson,()⟩,⟨.unlink paths.paramSfo,()⟩,⟨.unlink paths.icon0Png,()⟩]

def rollBack (paths : TempPaths) : List ServerEvent :=
  [⟨.unlink paths.icon0Png,()⟩,⟨.unlink paths.paramSfo,()⟩,⟨.unlink paths.refPkgJson,()⟩]

/-- The runs of `publish`: the reference json is not created, or what is done while it is open
decides. -/
inductive PublishRun (sslVerify : SslVerifyMode) (paths : TempPaths) (urls : List Bytes)
    (package : Package) : List ServerEvent → Except Bytes Unit → Prop
  | unopened (errno : ℤ) (text : Bytes) : PublishRun sslVerify paths urls package
      [⟨.fopen paths.refPkgJson,.error errno⟩] (.error text)
  | unwritten {writing : List ServerEvent} {text : Bytes}
      (h : Ends (writeFiles sslVerify paths urls package) writing (.error text)) :
      PublishRun sslVerify paths urls package ([⟨.fopen paths.refPkgJson,.ok ()⟩]++
        (writing++⟨.fclose paths.refPkgJson,()⟩::rollBack paths)) (.error text)
  | written {writing : List ServerEvent}
      (h : Ends (writeFiles sslVerify paths urls package) writing (.ok ())) :
      PublishRun sslVerify paths urls package
        ([⟨.fopen paths.refPkgJson,.ok ()⟩]++(writing++[⟨.fclose paths.refPkgJson,()⟩])) (.ok ())

theorem publishRun_of_ends {package : Package} {r : Except Bytes Unit}
    (h : Ends (publish sslVerify paths urls package) history r) :
    PublishRun sslVerify paths urls package history r := by
  obtain ⟨opened,rest,rfl,h1⟩ := ends_perform_bind.mp h
  cases opened with
  | error errno =>
    obtain ⟨rfl,rfl⟩ := ends_fail.mp h1
    exact .unopened errno _
  | ok u =>
    obtain ⟨first,rest,written,rfl,hwritten,h3⟩ := ends_caught_bind.mp h1
    obtain ⟨_,rest,rfl,h4⟩ := ends_perform_bind.mp h3
    cases written with
    | ok u =>
      obtain ⟨rfl,rfl⟩ := ends_done.mp h4
      exact .written hwritten
    | error text =>
      obtain ⟨_,rest,rfl,h5⟩ := ends_perform_bind.mp h4
      obtain ⟨_,rest,rfl,h6⟩ := ends_perform_bind.mp h5
      obtain ⟨_,rest,rfl,h7⟩ := ends_perform_bind.mp h6
      obtain ⟨rfl,rfl⟩ := ends_fail.mp h7
      exact .unwritten hwritten

theorem PublishRun.writtenOr {package : Package} {r : Except Bytes Unit} (hurls : urls ≠ [])
    (h : PublishRun sslVerify paths urls package history r) :
    WrittenOr package urls history r := by
  have hfopen : ∀ e ∈ ([⟨.fopen paths.refPkgJson,.ok ()⟩] : List ServerEvent), Plain e := by
    simpa using plain_fopen _ _
  cases h with
  | unopened errno text => exact fun _ _ => rfl
  | unwritten h =>
    exact (ends_writeFiles hurls h).around hfopen (by simp [plain_fclose,plain_unlink,rollBack])
  | written h => exact (ends_writeFiles hurls h).around hfopen (by simpa using plain_fclose _ _)

/-- The runs of an inspection. -/
inductive SetupRun (sslVerify : SslVerifyMode) (paths : TempPaths) (urls : List Bytes) :
    List ServerEvent → Except Bytes PackageInfo → Prop
  | refused (text : Bytes) (hno : ¬ Usable paths urls) :
      SetupRun sslVerify paths urls [] (.error text)
  | uninspected {inspecting : List ServerEvent} {text : Bytes} (husable : Usable paths urls)
      (h : Ends (inspectPackage sslVerify (urls.headD []) urls.length) inspecting (.error text)) :
      SetupRun sslVerify paths urls (clearing paths++inspecting) (.error text)
  | unpublished {inspecting publishing : List ServerEvent} {package : Package} {text : Bytes}
      (husable : Usable paths urls)
      (h : Ends (inspectPackage sslVerify (urls.headD []) urls.length) inspecting (.ok package))
      (hpublish : PublishRun sslVerify paths urls package publishing (.error text)) :
      SetupRun sslVerify paths urls (clearing paths++(inspecting++publishing)) (.error text)
  | published {inspecting publishing : List ServerEvent} {package : Package} (info : PackageInfo)
      (husable : Usable paths urls)
      (h : Ends (inspectPackage sslVerify (urls.headD []) urls.length) inspecting (.ok package))
      (hpublish : PublishRun sslVerify paths urls package publishing (.ok ())) :
      SetupRun sslVerify paths urls (clearing paths++(inspecting++publishing)) (.ok info)

theorem setupRun_of_ends {r : Except Bytes PackageInfo}
    (h : Ends (pkgSetupPrerequisites sslVerify paths urls) history r) :
    SetupRun sslVerify paths urls history r := by
  rcases ends_require_bind h with ⟨hurls,h1⟩ | ⟨hno,rfl,text,rfl⟩
  swap
  · exact .refused text fun hu => hno hu.1
  rcases ends_require_bind h1 with ⟨hjson,h2⟩ | ⟨hno,rfl,text,rfl⟩
  swap
  · exact .refused text fun hu => hno hu.2.1
  rcases ends_require_bind h2 with ⟨hsfo,h3⟩ | ⟨hno,rfl,text,rfl⟩
  swap
  · exact .refused text fun hu => hno hu.2.2.1
  rcases ends_require_bind h3 with ⟨hicon,h4⟩ | ⟨hno,rfl,text,rfl⟩
  swap
  · exact .refused text fun hu => hno hu.2.2.2
  have husable : Usable paths urls := ⟨hurls,hjson,hsfo,hicon⟩
  obtain ⟨_,rest,rfl,h5⟩ := ends_perform_bind.mp h4
  obtain ⟨_,rest,rfl,h6⟩ := ends_perform_bind.mp h5
  obtain ⟨_,rest,rfl,h7⟩ := ends_perform_bind.mp h6
  rcases ends_bind.mp h7 with ⟨inspecting,rest,package,rfl,h8,h9⟩ | ⟨text,rfl,h8⟩
  swap
  · exact .uninspected husable h8
  rcases ends_bind.mp h9 with ⟨publishing,last,u,rfl,h10,h11⟩ | ⟨text,rfl,h10⟩
  swap
  · exact .unpublished husable h8 (publishRun_of_ends h10)
  obtain ⟨rfl,rfl⟩ := ends_done.mp h11
  rw [List.append_nil]
  exact .published _ husable h8 (publishRun_of_ends h10)

/-- The calls of a transfer are plain, and leave the files alone. -/
def Harmless (c : ServerCall) : Prop :=
  ∀ r : Reply c, Plain ⟨c,r⟩ ∧ ∀ files, fileEffect files ⟨c,r⟩ = files

theorem harmless_transfers (url : Bytes) : Transfers Harmless sslVerify url :=
  ⟨fun _ => ⟨⟨trivial,rfl,rfl⟩,fun _ => rfl⟩,fun _ _ _ => ⟨⟨trivial,rfl,rfl⟩,fun _ => rfl⟩⟩

theorem transfers_foldl (history : List ServerEvent) (s : Seen) :
    (history.foldl see s).transfers = s.transfers++transfers history := by
  induction history generalizing s with
  | nil => simp [transfers]
  | cons e history ih =>
    rw [List.foldl_cons,ih,transfers,transfers,List.flatMap_cons,← List.append_assoc]
    rfl

theorem files_foldl (history : List ServerEvent) (s : Seen) :
    (history.foldl see s).files = history.foldl fileEffect s.files := by
  induction history generalizing s with
  | nil => rfl
  | cons e history ih => exact ih _

/-- What the history of an inspection shows once the package is downloaded. -/
def Shows (urls : List Bytes) (history : List ServerEvent) : Except Bytes α → Prop
  | .ok _ => (∀ e ∈ history, Granted e) ∧ AddUp history ∧ writtenText history = composed history urls
  | .error _ => (∀ e ∈ history, Granted e) → AddUp history → history.flatMap printOf = []

theorem WrittenOr.shows {package : Package} {r : Except Bytes α}
    (h : WrittenOr package urls history r) (hheader : header history = package.header)
    (hsizes : sizes history = package.totalSize::history.flatMap toldSize) :
    Shows urls history r := by
  have hadd : AddUp history ↔ (0 < package.header.packageSize →
      finish 0 (package.totalSize::history.flatMap toldSize) = package.header.packageSize) := by
    rw [AddUp,hheader,hsizes]
  cases r with
  | error text => exact fun hgranted hfits => h hgranted (hadd.mp hfits)
  | ok a =>
    obtain ⟨hgranted,hfits,hprints⟩ := h
    refine ⟨hgranted,hadd.mpr hfits,?_⟩
    rw [composed,hheader,hsizes,jsonText,← hprints,writtenText,List.flatMap_map]

/-- The header and the size of the first piece are what the package has of them. -/
theorem Delivered.header_sizes {package : Package} {inspecting rest : List ServerEvent}
    (h : Delivered (transfers inspecting) package) (hhistory : transfers history =
      transfers inspecting++rest.flatMap transferOf) :
    header history = package.header ∧
      sizes history = package.totalSize::history.flatMap toldSize := by
  obtain ⟨first,entryTable,paramSfo,icon,htransfers,hheader,htotal,-⟩ := h.delivered
  rw [htransfers] at hhistory
  constructor
  · rw [header,hhistory,hheader]
    rfl
  · rw [sizes,hhistory,htotal]
    rfl

theorem plain_of_inspectPackage {url : Bytes} {pieceCount : ℕ} {r : Except Bytes Package}
    (h : Ends (inspectPackage sslVerify url pieceCount) history r) : ∀ e ∈ history, Plain e :=
  fun e he => (((calls_inspectPackage (harmless_transfers url) _).runs h).1 e he e.2).1

theorem shows_of_publishRun {inspecting publishing : List ServerEvent} {package : Package}
    {r : Except Bytes Unit} (hurls : urls ≠ [])
    (h : Ends (inspectPackage sslVerify (urls.headD []) urls.length) inspecting (.ok package))
    (hpublish : PublishRun sslVerify paths urls package publishing r) :
    Shows urls (clearing paths++(inspecting++publishing)) r := by
  have hdelivered := ((yields_inspectPackage (s := Seen.start fun _ => none) _ _ rfl).ends h).2
  rw [transfers_foldl] at hdelivered
  have hbefore : ∀ e ∈ clearing paths++inspecting, Plain e := by
    rw [List.forall_mem_append]
    exact ⟨by simp [clearing,plain_unlink],plain_of_inspectPackage h⟩
  have hwritten := (hpublish.writtenOr hurls).around hbefore
    (by simp : ∀ e ∈ ([] : List ServerEvent), Plain e)
  rw [List.append_nil,List.append_assoc] at hwritten
  obtain ⟨hheader,hsizes⟩ := Delivered.header_sizes hdelivered
    (List.flatMap_append : transfers (inspecting++publishing) = _)
  exact hwritten.shows hheader hsizes

theorem SetupRun.shows {r : Except Bytes PackageInfo}
    (h : SetupRun sslVerify paths urls history r) : Shows urls history r := by
  cases h with
  | refused text hno => exact fun _ _ => rfl
  | uninspected husable h =>
    refine fun _ _ => List.flatMap_eq_nil_iff.mpr fun e he => ?_
    rcases List.mem_append.mp he with he | he
    · simp only [clearing,List.mem_cons,List.not_mem_nil,or_false] at he
      rcases he with rfl | rfl | rfl <;> rfl
    · exact (plain_of_inspectPackage h e he).printOf
  | unpublished husable h hpublish => exact shows_of_publishRun husable.1 h hpublish
  | published info husable h hpublish => exact shows_of_publishRun husable.1 h hpublish

end Ends

section RolledBack

variable {files : Files}

theorem noneThere_unlinks {a b c : Bytes} (hmem : paths.refPkgJson ∈ [a,b,c] ∧
      paths.icon0Png ∈ [a,b,c] ∧ paths.paramSfo ∈ [a,b,c]) (r r' r'' : Unit) :
    NoneThere paths (fileEffect (fileEffect (fileEffect files ⟨.unlink a,r⟩) ⟨.unlink b,r'⟩)
      ⟨.unlink c,r''⟩) := by
  have hnone : ∀ path ∈ [a,b,c], fileEffect (fileEffect (fileEffect files ⟨.unlink a,r⟩)
      ⟨.unlink b,r'⟩) ⟨.unlink c,r''⟩ path = none := by
    intro path hpath
    simp only [List.mem_cons,List.not_mem_nil,or_false] at hpath
    simp only [fileEffect,Function.update_apply]
    split_ifs <;> simp_all
  exact ⟨hnone _ hmem.1,hnone _ hmem.2.1,hnone _ hmem.2.2⟩

theorem PublishRun.noneThere {package : Package} {text : Bytes} (hfiles : NoneThere paths files)
    (h : PublishRun sslVerify paths urls package history (.error text)) :
    NoneThere paths (history.foldl fileEffect files) := by
  cases h with
  | unopened errno text => exact hfiles
  | unwritten h =>
    rw [List.foldl_append,List.foldl_append]
    exact noneThere_unlinks (by simp) () () ()

/-- A failure that is not one of the arguments leaves none of the files. -/
theorem SetupRun.noneThere {text : Bytes} (husable : Usable paths urls)
    (h : SetupRun sslVerify paths urls history (.error text)) :
    NoneThere paths (history.foldl fileEffect files) := by
  have hclearing : NoneThere paths ((clearing paths).foldl fileEffect files) :=
    noneThere_unlinks (by simp) () () ()
  have hinspecting : ∀ {inspecting : List ServerEvent} {r : Except Bytes Package},
      Ends (inspectPackage sslVerify (urls.headD []) urls.length) inspecting r →
      NoneThere paths ((clearing paths++inspecting).foldl fileEffect files) := by
    intro inspecting r hr
    rw [List.foldl_append]
    exact ensures_iff.mp (ensures_invariant (calls_inspectPackage (harmless_transfers _) _)
      (fun s c r hc hs => ((hc r).2 s).symm ▸ hs) hclearing) inspecting r hr
  cases h with
  | refused text hno => exact absurd husable hno
  | uninspected _ h => exact hinspecting h
  | unpublished _ h hpublish =>
    rw [← List.append_assoc,List.foldl_append]
    exact hpublish.noneThere (hinspecting h)

end RolledBack

section Complete

variable {files : Files}

theorem printedText_length_le (printed : List (JsonPrint × ℕ)) :
    (printedText printed).length ≤ (printed.flatMap fun print => print.1.text).length := by
  induction printed with
  | nil => rfl
  | cons print printed ih =>
    rw [printedText] at ih ⊢
    rw [List.flatMap_cons,List.flatMap_cons,List.length_append,List.length_append]
    exact Nat.add_le_add (List.length_take_le' _ _) ih

/-- The file is complete if and only if it takes all of every print. -/
theorem printedText_eq_iff (printed : List (JsonPrint × ℕ)) :
    (printedText printed = printed.flatMap fun print => print.1.text) ↔
      ∀ print ∈ printed, print.1.text.length ≤ print.2 := by
  refine ⟨fun heq => ?_,printedText_whole⟩
  induction printed with
  | nil => simp
  | cons print printed ih =>
    have hrest := printedText_length_le printed
    rw [printedText] at heq ih hrest
    rw [List.flatMap_cons,List.flatMap_cons] at heq
    have hlength := congrArg List.length heq
    rw [List.length_append,List.length_append,List.length_take] at hlength
    have hprint : print.1.text.length ≤ print.2 := by omega
    rw [List.take_of_length_le hprint] at heq
    exact List.forall_mem_cons.mpr ⟨hprint,ih (List.append_cancel_left heq)⟩

theorem whole_iff (history : List ServerEvent) :
    (∀ e ∈ history, Whole e) ↔
      ∀ print ∈ history.flatMap printOf, print.1.text.length ≤ print.2 := by
  rw [List.forall_mem_flatMap]
  refine forall₂_congr fun e he => ?_
  obtain ⟨c,r⟩ := e
  cases c <;> simp [Whole,printOf]

theorem complete_iff (hpaths : Distinct paths) {info : PackageInfo}
    (h : Ends (pkgSetupPrerequisites sslVerify paths urls) history (.ok info)) (files : Files) :
    Complete paths urls history (history.foldl fileEffect files) ↔ ∀ e ∈ history, Whole e := by
  obtain ⟨hpublished,hkept⟩ :=
    (yields_pkgSetupPrerequisites (s := Seen.start files) hpaths urls rfl rfl).ends h
  have hjson := hpublished.json
  obtain ⟨hsfo,hicon⟩ := hkept
  simp only [files_foldl,transfers_foldl,printed_foldl,Seen.start,List.nil_append]
    at hjson hsfo hicon
  obtain ⟨-,-,hcomposed⟩ := (setupRun_of_ends h).shows
  rw [whole_iff,← printedText_eq_iff]
  change _ ↔ printedText (history.flatMap printOf) = writtenText history
  rw [hcomposed]
  constructor
  · intro hcomplete
    exact Option.some_injective _ (hjson.symm.trans hcomplete.refPkgJson)
  · exact fun heq => ⟨hjson.trans (congrArg some heq),hsfo,hicon⟩

/-- Whatever the hosts and the files make of an inspection, success means complete files and
failure none if and only if no print is cut short in a run that nothing else ends, and no
file is there already in one that is refused for its arguments. -/
theorem pkgSetupPrerequisites_complete_iff (hpaths : Distinct paths)
    {r : Except Bytes PackageInfo}
    (h : Ends (pkgSetupPrerequisites sslVerify paths urls) history r) (files : Files) :
    CompleteOrNone paths urls history (history.foldl fileEffect files) r ↔
      ((∀ e ∈ history, Granted e) → AddUp history → ∀ e ∈ history, Whole e) ∧
        (¬ Usable paths urls → NoneThere paths files) := by
  have hrun := setupRun_of_ends h
  cases r with
  | ok info =>
    obtain ⟨hgranted,hadd,-⟩ := hrun.shows
    have husable : Usable paths urls := by
      cases hrun with
      | published _ husable _ _ => exact husable
    rw [CompleteOrNone,complete_iff hpaths h]
    exact ⟨fun hwhole => ⟨fun _ _ => hwhole,fun hno => absurd husable hno⟩,
      fun hholds => hholds.1 hgranted hadd⟩
  | error text =>
    have hshort : (∀ e ∈ history, Granted e) → AddUp history → ∀ e ∈ history, Whole e := by
      intro hgranted hadd
      rw [whole_iff,hrun.shows hgranted hadd]
      simp
    by_cases husable : Usable paths urls
    · exact iff_of_true (hrun.noneThere husable) ⟨hshort,fun hno => absurd husable hno⟩
    · have hnil : history = [] := by
        cases hrun with
        | refused => rfl
        | uninspected hyes => exact absurd hyes husable
        | unpublished hyes => exact absurd hyes husable
      subst hnil
      exact ⟨fun hnone => ⟨hshort,fun _ => hnone⟩,fun hholds => hholds.2 husable⟩

theorem pkgSetupPrerequisites_complete_iff_example :
    CompleteOrNone (tempPaths sampleStream) (splitSources.map Util.urlEncode) splitHistory
        (splitHistory.foldl fileEffect fun _ => none) (.ok ⟨0x1a,0x3000,false,false⟩) ↔
      ((∀ e ∈ splitHistory, Granted e) → AddUp splitHistory → ∀ e ∈ splitHistory, Whole e) ∧
        (¬ Usable (tempPaths sampleStream) (splitSources.map Util.urlEncode) →
          NoneThere (tempPaths sampleStream) fun _ => none) :=
  pkgSetupPrerequisites_complete_iff (tempPaths_distinct sampleStream) splitSetup_ends _

/-- The disk is full when the end of the reference json is to be written. -/
def fullReply : (c : ServerCall) → Reply c
  | .fprintf _ .tail => 0
  | c => sampleReply ⟨0,1⟩ c

def fullHistory : List ServerEvent :=
  Program.history (fun (_ : Unit) c => ((),fullReply c))
    (pkgSetupPrerequisites .on (tempPaths sampleStream) sampleUrls) ()

/-- Success is reported, and the reference json has no end. -/
theorem pkgSetupPrerequisites_cuts_json :
    Ends (pkgSetupPrerequisites .on (tempPaths sampleStream) sampleUrls) fullHistory
        (.ok ⟨0x1a,0x3000,false,false⟩) ∧
      ¬ CompleteOrNone (tempPaths sampleStream) sampleUrls fullHistory
        (fullHistory.foldl fileEffect fun _ => none) (.ok ⟨0x1a,0x3000,false,false⟩) := by
  have hrun : (Program.run (fun (_ : Unit) c => ((),fullReply c))
      (pkgSetupPrerequisites .on (tempPaths sampleStream) sampleUrls) ()).2 =
        .ok ⟨0x1a,0x3000,false,false⟩ := by decide +kernel
  have hfile : fullHistory.foldl fileEffect (fun _ => none) (tempPaths sampleStream).refPkgJson ≠
      some (composed fullHistory sampleUrls) := by decide +kernel
  exact ⟨hrun ▸ ends_run _ _ _,fun hcomplete => hfile hcomplete.refPkgJson⟩

end Complete

end CompleteFiles
end RemotePkgInstaller
