import RemotePkgInstaller.InstallHandlers
import Mathlib.Data.List.Forall2

/-! The two install flavours side by side.  Each walks twice through a list of URLs, one through
the elements of an array and the other through the objects of a reference json, and both make
the same of the same list. -/
namespace RemotePkgInstaller
namespace InstallFlavours

open HttpState HttpText HttpTransfer InstallHandlers InstallPieces InstallUrl Installer PieceUrls
  Programs Program Requests Responses ServerCalls TinyJson Util

/-- What both flavours ask of a list: it is not empty, and each element of it decodes to a URL
with one of the two schemes. -/
def Installable (unescape : Bytes → Bytes) (urls : List Bytes) : Prop :=
  urls ≠ [] ∧ ∀ url ∈ urls, url ≠ [] ∧ hasWebScheme (unescape url) = true

/-- The array for `install_pieces`: each URL is decoded and encoded again. -/
def installed (unescape : Bytes → Bytes) (urls : List Bytes) : List Bytes :=
  urls.map fun url => urlEncode (unescape url)

/-- No allocation fails, and neither does the decoding of these URLs. -/
structure Decodes (unescape : Bytes → Bytes) (urls : List Bytes) (call : Call) : Prop where
  poolAllocated : call.poolAllocated = true
  check : ∀ url ∈ urls, httpUnescapeUri call.checkSdk url = some (unescape url)
  listAllocated : call.listAllocated = true
  fill : ∀ url ∈ urls, httpUnescapeUri call.fillSdk url = some (unescape url)
  encodeAllocated : ∀ i, call.encodeAllocated i = true

/-- An element of `packages`, and one of `pieces`. -/
def IsPackage (element : Node) (url : Bytes) : Prop :=
  jsonGetType element = .text ∧ jsonGetValue element = url

def HasUrl (nodes : List Node) (piece : Node) (url : Bytes) : Prop :=
  jsonGetType piece = .obj ∧ jsonGetPropertyValue nodes piece (bytes "url") = some url

instance (element : Node) (url : Bytes) : Decidable (IsPackage element url) :=
  inferInstanceAs (Decidable (_ ∧ _))

instance (nodes : List Node) (piece : Node) (url : Bytes) : Decidable (HasUrl nodes piece url) :=
  inferInstanceAs (Decidable (_ ∧ _))

/-- The request lists these URLs. -/
def ListsPackages (nodes : List Node) (urls : List Bytes) : Prop :=
  ∃ field, rootProperty nodes packages = some field ∧ jsonGetType field = .array ∧
    List.Forall₂ IsPackage (children nodes field) urls

/-- The nodes of a reference json list these URLs. -/
def NodesList (nodes : List Node) (urls : List Bytes) : Prop :=
  ∃ root field, nodes[0]? = some root ∧ jsonGetProperty nodes root (bytes "pieces") = some field ∧
    jsonGetType field = .array ∧ List.Forall₂ (HasUrl nodes) (children nodes field) urls

/-- The text is that of a reference json that lists these URLs. -/
def ListsPieces (text : Bytes) (urls : List Bytes) : Prop :=
  ∃ nodes, jsonCreate text PieceUrls.poolSize = some nodes ∧ NodesList nodes urls

variable {unescape : Bytes → Bytes} {urls : List Bytes} {call : Call} {nodes : List Node}
  {sdk : TextSdk} {element piece field root : Node} {url : Bytes}

section Direct

theorem checkUrl_ok_iff (name : Bytes) (h : httpUnescapeUri sdk url = some (unescape url)) :
    (∃ u, checkUrl sdk name url = .ok u) ↔ url ≠ [] ∧ hasWebScheme (unescape url) = true := by
  unfold checkUrl
  rw [h]
  by_cases hempty : url = []
  · simp [hempty]
  · by_cases hscheme : hasWebScheme (unescape url) = true <;> simp [hempty,hscheme]

theorem checkPackage_ok_iff (he : IsPackage element url)
    (h : httpUnescapeUri sdk url = some (unescape url)) :
    checkPackage sdk element = .ok () ↔ url ≠ [] ∧ hasWebScheme (unescape url) = true := by
  rw [checkPackage,he.1,he.2,if_neg (by simp),← checkUrl_ok_iff packages h]
  cases checkUrl sdk packages url <;> simp [Except.map]

/-- The validating walk gets to the end if and only if every URL of the list passes. -/
theorem checkPackages_ok_iff {elements : List Node} (he : List.Forall₂ IsPackage elements urls)
    (h : ∀ url ∈ urls, httpUnescapeUri sdk url = some (unescape url)) :
    elements.forM (checkPackage sdk) = .ok () ↔
      ∀ url ∈ urls, url ≠ [] ∧ hasWebScheme (unescape url) = true := by
  induction he with
  | nil => exact iff_of_true rfl (by simp)
  | @cons element url elements urls hfirst _ ih =>
    have hrest := ih fun u hu => h u (List.mem_cons_of_mem _ hu)
    rw [List.forall_mem_cons,← hrest,← checkPackage_ok_iff hfirst (h url List.mem_cons_self)]
    change (checkPackage sdk element >>= fun _ => elements.forM (checkPackage sdk)) = _ ↔ _
    cases checkPackage sdk element with
    | error text => exact iff_of_false (fun h => nomatch h) (fun h => nomatch h.1)
    | ok u => exact (and_iff_right rfl).symm

/-- The filling walk encodes one URL for each element. -/
theorem fillPackages_eq {elements : List Node} (hcall : Decodes unescape urls call)
    (he : List.Forall₂ IsPackage elements urls) (k : ℕ) :
    (elements.zipIdx k).mapM (fillPackage call.fillSdk call.encodeAllocated) =
      .ok (installed unescape urls) := by
  obtain ⟨-,-,-,hfill,halloc⟩ := hcall
  induction he generalizing k with
  | nil => rfl
  | @cons element url elements urls hfirst _ ih =>
    have hurl : fillPackage call.fillSdk call.encodeAllocated (element,k) =
        .ok (urlEncode (unescape url)) := by
      simp [fillPackage,hfirst.2,installUrl,hfill url List.mem_cons_self,halloc]
    rw [List.zipIdx_cons,List.mapM_cons,hurl,
      ih (k+1) fun u hu => hfill u (List.mem_cons_of_mem _ hu)]
    rfl

/-- The elements are installed, or refused with a text. -/
theorem packageUrls_eq {elements : List Node} (hcall : Decodes unescape urls call)
    (he : List.Forall₂ IsPackage elements urls) :
    (Installable unescape urls → packageUrls call elements = .ok (installed unescape urls)) ∧
      (¬ Installable unescape urls → ∃ text, packageUrls call elements = .error text) := by
  have hwalk := checkPackages_ok_iff he hcall.check
  have hnil : elements = [] ↔ urls = [] := by
    rw [← List.length_eq_zero_iff,he.length_eq,List.length_eq_zero_iff]
  unfold packageUrls
  constructor
  · rintro ⟨hne,hall⟩
    rw [hwalk.mpr hall]
    change (if elements = [] then _ else _) = _
    rw [if_neg (mt hnil.mp hne),if_neg (by simp [hcall.listAllocated])]
    exact fillPackages_eq hcall he 0
  · intro hno
    cases hforM : elements.forM (checkPackage call.checkSdk) with
    | error text => exact ⟨text,rfl⟩
    | ok u =>
      have hempty : urls = [] := by
        by_contra hne
        exact hno ⟨hne,hwalk.mp hforM⟩
      refine ⟨bytes "No packages.",?_⟩
      change (if elements = [] then _ else _) = _
      rw [if_pos (hnil.mpr hempty)]

end Direct

section Reference

theorem checkPiece_iff (hpiece : HasUrl nodes piece url)
    (h : httpUnescapeUri sdk url = some (unescape url)) :
    checkPiece sdk nodes piece = true ↔ url ≠ [] ∧ hasWebScheme (unescape url) = true := by
  simp [checkPiece,hpiece.1,hpiece.2,h,hasWebScheme]

theorem checkPieces_iff {pieces : List Node} (hpieces : List.Forall₂ (HasUrl nodes) pieces urls)
    (h : ∀ url ∈ urls, httpUnescapeUri sdk url = some (unescape url)) :
    pieces.all (checkPiece sdk nodes) = true ↔
      ∀ url ∈ urls, url ≠ [] ∧ hasWebScheme (unescape url) = true := by
  induction hpieces with
  | nil => exact iff_of_true rfl (by simp)
  | @cons piece url pieces urls hfirst _ ih =>
    have hrest := ih fun u hu => h u (List.mem_cons_of_mem _ hu)
    rw [List.forall_mem_cons,← hrest,← checkPiece_iff hfirst (h url List.mem_cons_self),
      List.all_cons,Bool.and_eq_true]

theorem fillPieces_eq {pieces : List Node} (hcall : Decodes unescape urls call)
    (hpieces : List.Forall₂ (HasUrl nodes) pieces urls) (k : ℕ) :
    ((pieces.zipIdx k).map (pieceUrl call.fillSdk nodes call.encodeAllocated)).mapM id =
      some (installed unescape urls) := by
  obtain ⟨-,-,-,hfill,halloc⟩ := hcall
  induction hpieces generalizing k with
  | nil => rfl
  | @cons piece url pieces urls hfirst _ ih =>
    have hurl : pieceUrl call.fillSdk nodes call.encodeAllocated (piece,k) =
        some (urlEncode (unescape url)) := by
      simp [pieceUrl,hfirst.2,installUrl,hfill url List.mem_cons_self,halloc]
    rw [List.zipIdx_cons,List.map_cons,hurl,List.mapM_cons,
      ih (k+1) fun u hu => hfill u (List.mem_cons_of_mem _ hu)]
    rfl

/-- The property is where the walks look for it. -/
theorem jsonGetProperty_eq_some_iff {name : Bytes} : jsonGetProperty nodes root name = some field ↔
    ∃ i, (childIndices nodes root).find? (fun i =>
      (nodes[i]?).any fun node => node.name = some name) = some i ∧ nodes[i]? = some field := by
  rw [jsonGetProperty,children,List.find?_filterMap,Option.bind_eq_some_iff]

/-- What the reader makes of such a text: an array with one entry for each URL, none of them
null, or nothing. -/
theorem ownResult_eq (hcall : Decodes unescape urls call) (htext : ListsPieces call.text urls) :
    (Installable unescape urls →
      ownResult call = .done (some ((installed unescape urls).map some))) ∧
      (¬ Installable unescape urls → ownResult call = .done none) := by
  obtain ⟨nodes,hparse,root,field,hroot,hproperty,htype,hpieces⟩ := htext
  obtain ⟨i,hi,hfield⟩ := jsonGetProperty_eq_some_iff.mp hproperty
  have hchecks := checkPieces_iff hpieces hcall.check
  have hlength := hpieces.length_eq
  simp only [ownResult,hcall.poolAllocated,Bool.true_eq_false,if_false,hparse,
    hcall.listAllocated,if_true]
  constructor
  · rintro ⟨hne,hall⟩
    have hlen : urls.length ≠ 0 := fun h0 => hne (List.length_eq_zero_iff.mp h0)
    have hvalidate : validate call.checkSdk nodes = some (i,urls.length) := by
      simp only [validate,Option.bind_eq_bind,hroot,Option.bind_some,hi,hfield,htype,
        hchecks.mpr hall,hlength,ne_eq,hlen,not_false_eq_true,decide_true,Bool.and_true,if_true]
    simp only [hvalidate,PieceUrls.fill,hfield,Option.map_some,Option.getD_some,hlength,
      lt_irrefl,if_false,fillPieces_eq hcall hpieces 0,Nat.sub_self,List.replicate_zero,
      List.append_nil]
  · intro hno
    have hvalidate : validate call.checkSdk nodes = none := by
      simp only [validate,Option.bind_eq_bind,hroot,Option.bind_some,hi,hfield]
      refine if_neg fun hyes => hno ?_
      simp only [Bool.and_eq_true,decide_eq_true_eq,hlength] at hyes
      exact ⟨fun hnil => hyes.2 (by rw [hnil]; rfl),hchecks.mp hyes.1.2⟩
    simp only [hvalidate]

end Reference

section Flavours

/-- After these events the one program is where the other starts. -/
def GoesOn (p : ServerProgram Answer Answer) (before : List ServerEvent)
    (q : ServerProgram Answer Answer) : Prop :=
  ∀ history r, Ends p (before++history) r ↔ Ends q history r

/-- After these events it is over: nothing is transferred any more, and no file is touched. -/
def Refuses (p : ServerProgram Answer Answer) (before : List ServerEvent) : Prop :=
  ∃ answer, ∀ history r, Ends p (before++history) r ↔ history = [] ∧ r = .error answer

/-- The transfer of a reference json. -/
def fetched (url : Bytes) (sslVerify : SslVerifyMode) (downloaded : Downloaded) : ServerEvent :=
  ⟨.httpDownloadFile url (some unknownLength) 0 (some sslVerify),some downloaded⟩

variable {calls calls' : InstallCalls} {stream stream' : StreamId} {nodes' : List Node}
  {sslVerify sslVerify' : SslVerifyMode} {sv : Services} {host : Host} {downloaded : Downloaded}
  {p q : ServerProgram Answer Answer} {before : List ServerEvent}

theorem GoesOn.refuses {answer : Answer} (h : GoesOn p before (fail answer)) :
    Refuses p before :=
  ⟨answer,fun history r => (h history r).trans ends_fail⟩

/-- `install_pieces` asks for the language before anything else. -/
theorem GoesOn.not_refuses
    (h : GoesOn p before (installPieces calls stream urls sslVerify sv host)) :
    ¬ Refuses p before := by
  rintro ⟨answer,hfails⟩
  have hends := (h [] _).mp ((hfails [] _).mpr ⟨rfl,rfl⟩)
  obtain ⟨_,_,hnil,_⟩ := ends_perform_bind.mp hends
  cases hnil

theorem direct_goesOn (stream : StreamId) (sslVerify : SslVerifyMode) (sv : Services) (host : Host)
    (hcall : Decodes unescape urls calls.pieces) (hpackages : ListsPackages nodes urls) :
    (Installable unescape urls →
      GoesOn (handleApiInstallDirect calls stream nodes sslVerify sv host) []
        (installPieces calls stream (installed unescape urls) sslVerify sv host)) ∧
    (¬ Installable unescape urls →
      Refuses (handleApiInstallDirect calls stream nodes sslVerify sv host) []) := by
  obtain ⟨field,hfield,htype,helements⟩ := hpackages
  have hrequest : requestField calls.text nodes packages .array = .ok field :=
    requestField_eq_ok.mpr ⟨hfield,htype⟩
  obtain ⟨hyes,hno⟩ := packageUrls_eq hcall helements
  unfold handleApiInstallDirect
  rw [hrequest]
  constructor
  · intro h
    change GoesOn (ofExcept (thrown calls.text (packageUrls calls.pieces (children nodes field))) >>=
      _) [] _
    rw [hyes h]
    exact fun history r => Iff.rfl
  · intro h
    obtain ⟨text,htext⟩ := hno h
    change Refuses (ofExcept (thrown calls.text (packageUrls calls.pieces (children nodes field)))
      >>= _) []
    rw [htext]
    exact GoesOn.refuses fun history r => Iff.rfl

/-- The array that a call makes of a reference json. -/
def extracted (call : Call) (text : Bytes) : Phase := ownResult { call with text := text }

theorem extracted_eq (hcall : Decodes unescape urls call) {text : Bytes}
    (htext : ListsPieces text urls) :
    (Installable unescape urls →
      extracted call text = .done (some ((installed unescape urls).map some))) ∧
      (¬ Installable unescape urls → extracted call text = .done none) :=
  @ownResult_eq unescape urls { call with text := text }
    ⟨hcall.poolAllocated,hcall.check,hcall.listAllocated,hcall.fill,hcall.encodeAllocated⟩ htext

/-- Once the reference json is there, what it lists decides. -/
theorem reference_runs (stream : StreamId) (sslVerify : SslVerifyMode) (sv : Services) (host : Host)
    (downloaded : Downloaded) (hurl : refPkgUrl calls nodes = .ok url) :
    GoesOn (handleApiInstallRefPkgUrl calls stream nodes sslVerify sv host)
      [fetched url sslVerify downloaded]
      (match urlsOfAnswer calls.pieces (some downloaded) with
        | none => fail (throwInternalError calls.text
            (quoted (bytes "Unable to extract pieces URLs for ") url (bytes ".")))
        | some urls => installPieces calls stream urls sslVerify sv host) := by
  intro history r
  unfold handleApiInstallRefPkgUrl
  rw [hurl]
  refine Iff.trans ends_call ?_
  constructor
  · rintro ⟨answer,rest,heq,hrest⟩
    simp only [fetched,List.cons_append,List.nil_append,List.cons.injEq,Sigma.mk.injEq,heq_eq_eq,
      true_and] at heq
    obtain ⟨rfl,rfl⟩ := heq
    exact hrest
  · exact fun h => ⟨some downloaded,history,rfl,h⟩

theorem reference_goesOn (stream : StreamId) (sslVerify : SslVerifyMode) (sv : Services)
    (host : Host) (hcall : Decodes unescape urls calls.pieces)
    (hurl : refPkgUrl calls nodes = .ok url) (hpieces : ListsPieces downloaded.data urls)
    (hfetched : downloaded.totalSize ≠ 0) :
    (Installable unescape urls →
      GoesOn (handleApiInstallRefPkgUrl calls stream nodes sslVerify sv host)
        [fetched url sslVerify downloaded]
        (installPieces calls stream (installed unescape urls) sslVerify sv host)) ∧
    (¬ Installable unescape urls →
      Refuses (handleApiInstallRefPkgUrl calls stream nodes sslVerify sv host)
        [fetched url sslVerify downloaded]) := by
  have hruns := reference_runs stream sslVerify sv host downloaded hurl
  obtain ⟨hyes,hno⟩ := extracted_eq hcall hpieces
  unfold extracted at hyes hno
  constructor
  · intro h
    have hlisted : urlsOfAnswer calls.pieces (some downloaded) = some (installed unescape urls) := by
      rw [urlsOfAnswer,if_neg hfetched,listedUrls,hyes h]
      simp
    rw [hlisted] at hruns
    exact hruns
  · intro h
    have hlisted : urlsOfAnswer calls.pieces (some downloaded) = none := by
      rw [urlsOfAnswer,if_neg hfetched,listedUrls,hno h]
    rw [hlisted] at hruns
    exact hruns.refuses

/-- For every list of URLs that a request and a reference json can list, both flavours hand the
same array to `install_pieces`, with an encoded URL for each element and no null, or both
refuse, which they do exactly for the lists that are not installable.  A refused list is not
followed by a call of any kind. -/
theorem flavours_agree (hdirect : Decodes unescape urls calls.pieces)
    (hreference : Decodes unescape urls calls'.pieces) (hpackages : ListsPackages nodes urls)
    (hurl : refPkgUrl calls' nodes' = .ok url) (hpieces : ListsPieces downloaded.data urls)
    (hfetched : downloaded.totalSize ≠ 0) :
    (Installable unescape urls →
      GoesOn (handleApiInstallDirect calls stream nodes sslVerify sv host) []
        (installPieces calls stream (installed unescape urls) sslVerify sv host) ∧
      extracted calls'.pieces downloaded.data =
        .done (some ((installed unescape urls).map some)) ∧
      GoesOn (handleApiInstallRefPkgUrl calls' stream' nodes' sslVerify' sv host)
        [fetched url sslVerify' downloaded]
        (installPieces calls' stream' (installed unescape urls) sslVerify' sv host)) ∧
    (Refuses (handleApiInstallDirect calls stream nodes sslVerify sv host) [] ↔
      ¬ Installable unescape urls) ∧
    (Refuses (handleApiInstallRefPkgUrl calls' stream' nodes' sslVerify' sv host)
        [fetched url sslVerify' downloaded] ↔ ¬ Installable unescape urls) := by
  obtain ⟨hgoes,hrefuses⟩ := direct_goesOn stream sslVerify sv host hdirect hpackages
  obtain ⟨hgoes',hrefuses'⟩ :=
    reference_goesOn stream' sslVerify' sv host hreference hurl hpieces hfetched
  exact ⟨fun h => ⟨hgoes h,(extracted_eq hreference hpieces).1 h,hgoes' h⟩,
    ⟨fun h hyes => (hgoes hyes).not_refuses h,hrefuses⟩,
    ⟨fun h hyes => (hgoes' hyes).not_refuses h,hrefuses'⟩⟩

/-- The same two URLs in both flavours. -/
def listedSample : List Bytes := [bytes "http://h/a b.pkg",bytes "https://h/c%20d.pkg"]

def nodesOf (text : Bytes) : List Node := (jsonCreate text PieceUrls.poolSize).getD []

def directBody : Bytes :=
  bytes "\x7b\"packages\":[\"http://h/a b.pkg\",\"https:\\/\\/h/c%20d.pkg\"]\x7d"

def referenceBody : Bytes := bytes "\x7b\"url\":\"http://h/r.json\"\x7d"

def referenceText : Bytes :=
  bytes "\x7b\"pieces\":[\x7b\"url\":\"http://h/a b.pkg\"\x7d,"++
    bytes "\x7b\"url\":\"https://h/c%20d.pkg\"\x7d]\x7d"

def packagesNode : Node := (rootProperty (nodesOf directBody) packages).getD rootNode

def piecesRoot : Node := (nodesOf referenceText).headD rootNode

def piecesNode : Node :=
  (jsonGetProperty (nodesOf referenceText) piecesRoot (bytes "pieces")).getD rootNode

def sampleFetched : Downloaded := ⟨referenceText,69,69⟩

theorem listsPackages_sample : ListsPackages (nodesOf directBody) listedSample :=
  ⟨packagesNode,by decide +kernel,by decide +kernel,by decide +kernel⟩

theorem listsPieces_sample : ListsPieces referenceText listedSample := by
  have hparse : jsonCreate referenceText PieceUrls.poolSize = some (nodesOf referenceText) := by
    decide +kernel
  exact ⟨nodesOf referenceText,hparse,piecesRoot,piecesNode,by decide +kernel,by decide +kernel,
    by decide +kernel,by decide +kernel⟩

theorem refPkgUrl_sample :
    refPkgUrl sampleCalls (nodesOf referenceBody) = .ok (bytes "http://h/r.json") := by
  decide +kernel

theorem decodes_plainCall (text : Bytes) (urls : List Bytes) :
    Decodes PercentCoding.percentDecode urls (plainCall text) :=
  ⟨rfl,fun _ _ => rfl,rfl,fun _ _ => rfl,fun _ => rfl⟩

theorem flavours_agree_example :
    (Installable PercentCoding.percentDecode listedSample →
      GoesOn (handleApiInstallDirect sampleCalls sampleStream (nodesOf directBody) .on
          sampleServices sampleHost) []
        (installPieces sampleCalls sampleStream
          (installed PercentCoding.percentDecode listedSample) .on sampleServices sampleHost) ∧
      extracted sampleCalls.pieces sampleFetched.data =
        .done (some ((installed PercentCoding.percentDecode listedSample).map some)) ∧
      GoesOn (handleApiInstallRefPkgUrl sampleCalls sampleStream (nodesOf referenceBody) .off
          sampleServices sampleHost)
        [fetched (bytes "http://h/r.json") .off sampleFetched]
        (installPieces sampleCalls sampleStream
          (installed PercentCoding.percentDecode listedSample) .off sampleServices sampleHost)) ∧
    (Refuses (handleApiInstallDirect sampleCalls sampleStream (nodesOf directBody) .on
        sampleServices sampleHost) [] ↔
      ¬ Installable PercentCoding.percentDecode listedSample) ∧
    (Refuses (handleApiInstallRefPkgUrl sampleCalls sampleStream (nodesOf referenceBody) .off
        sampleServices sampleHost) [fetched (bytes "http://h/r.json") .off sampleFetched] ↔
      ¬ Installable PercentCoding.percentDecode listedSample) :=
  @flavours_agree _ listedSample _ _ sampleCalls sampleCalls _ _ _ _ _ _ _ sampleFetched
    (decodes_plainCall [] listedSample) (decodes_plainCall [] listedSample)
    listsPackages_sample refPkgUrl_sample listsPieces_sample (by decide)

end Flavours

end InstallFlavours
end RemotePkgInstaller
