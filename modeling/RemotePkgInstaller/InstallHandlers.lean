import RemotePkgInstaller.InstallPieces
import RemotePkgInstaller.Settings

/-! The install endpoint.  A request names its pieces itself, or a reference json that
does. -/
namespace RemotePkgInstaller
namespace InstallHandlers

open HttpState HttpText InstallPieces InstallUrl Installer Programs Program Requests Responses
  ServerCalls Settings TinyJson Util

def hasWebScheme (url : Bytes) : Bool :=
  startsWith url (bytes "http://") || startsWith url (bytes "https://")

/-- A message about a parameter, for the answer 500. -/
def aboutParameter (text name : Bytes) : Bytes := quoted text name (bytes ".")

/-- What both flavours ask of a URL: it can be decoded, and has one of the two schemes.  It
is then read as a C string. -/
def checkUrl (sdk : TextSdk) (name value : Bytes) : Except Bytes Bytes :=
  if value = [] then .error (aboutParameter (bytes "Empty element value of parameter ") name)
  else
    match httpUnescapeUri sdk value with
    | none => .error (aboutParameter (bytes "Unable to unescape element value of parameter ") name)
    | some url =>
      if hasWebScheme url then .ok (cstr url)
      else .error (aboutParameter (bytes "Unexpected element value of parameter ") name)

def packages : Bytes := bytes "packages"

def checkPackage (sdk : TextSdk) (element : Node) : Except Bytes Unit :=
  if jsonGetType element ≠ .text then
    .error (aboutParameter (bytes "Invalid type for element of parameter ") packages)
  else (checkUrl sdk packages (jsonGetValue element)).map fun _ => ()

/-- The URL for one entry of the array. -/
def fillPackage (sdk : TextSdk) (alloc : ℕ → Bool) (element : Node × ℕ) : Except Bytes Bytes :=
  match installUrl sdk (jsonGetValue element.1) with
  | none => .error (aboutParameter (bytes "Unable to unescape element value of parameter ") packages)
  | some url => if alloc element.2 then .ok url else .error (bytes "No memory.")

/-- The validating walk and the filling one. -/
def packageUrls (calls : PieceUrls.Call) (elements : List Node) : Except Bytes (List Bytes) := do
  elements.forM (checkPackage calls.checkSdk)
  if elements = [] then .error (bytes "No packages.")
  else if calls.listAllocated = false then .error (bytes "No memory.")
  else elements.zipIdx.mapM (fillPackage calls.fillSdk calls.encodeAllocated)

/-- A failure is answered with 500. -/
def thrown {α : Type} (sdk : TextSdk) (r : Except Bytes α) : Except Answer α :=
  r.mapError (throwInternalError sdk)

variable (calls : InstallCalls) (stream : StreamId) (nodes : List Node) (sslVerify : SslVerifyMode)
  (sv : Services) (host : Host)

/-- `direct`: the client hands us the piece URLs. -/
def handleApiInstallDirect : ServerProgram Answer Answer := do
  let field ← ofExcept (requestField calls.text nodes packages .array)
  let urls ← ofExcept (thrown calls.text (packageUrls calls.pieces (children nodes field)))
  installPieces calls stream urls sslVerify sv host

/-- The URLs that a reference json lists, when no other call runs beside this one. -/
def listedUrls (call : PieceUrls.Call) : Option (List Bytes) :=
  match PieceUrls.ownResult call with
  | .done (some urls) => some (urls.filterMap id)
  | _ => none

/-- What is made of a reference json that has been fetched, if it has. -/
def urlsOfAnswer (call : PieceUrls.Call) : Option HttpTransfer.Downloaded → Option (List Bytes)
  | none => none
  | some downloaded =>
    if downloaded.totalSize = 0 then none else listedUrls { call with text := downloaded.data }

def pkgExtractPieceUrlsFromRefPkgJson {ε : Type} (call : PieceUrls.Call) (url : Bytes) :
    ServerProgram ε (Option (List Bytes)) := do
  let answer ← ask
    (.httpDownloadFile url (some HttpTransfer.unknownLength) 0 (some sslVerify))
  pure (urlsOfAnswer call answer)

/-- The address of the reference json. -/
def refPkgUrl : Except Answer Bytes := do
  let url ← requestStr calls.text nodes (bytes "url")
  thrown calls.text (checkUrl calls.text (bytes "url") url)

/-- `ref_pkg_url`: the piece URLs come from a reference json we fetch. -/
def handleApiInstallRefPkgUrl : ServerProgram Answer Answer := do
  let url ← ofExcept (refPkgUrl calls nodes)
  let pieceUrls ← pkgExtractPieceUrlsFromRefPkgJson sslVerify calls.pieces url
  match pieceUrls with
  | none => fail (throwInternalError calls.text
      (quoted (bytes "Unable to extract pieces URLs for ") url (bytes ".")))
  | some urls => installPieces calls stream urls sslVerify sv host

/-- The flavour that the request asks for. -/
def installFlavour : ServerProgram Answer Answer := do
  let type ← ofExcept (requestStr calls.text nodes (bytes "type"))
  if sameNoCase type (bytes "direct") then
    handleApiInstallDirect calls stream nodes sslVerify sv host
  else if sameNoCase type (bytes "ref_pkg_url") then
    handleApiInstallRefPkgUrl calls stream nodes sslVerify sv host
  else fail (badRequest calls.text (quoted (bytes "Invalid type ") type (bytes ".")))

/-- What the handler does with the nodes of its request: the configured mode is read, and
gives way to one that the request carries. -/
def installRequest : ServerProgram Answer Answer := do
  let configured ← ask .httpGetSslVerify
  let verify ← ofExcept (requestBoolOpt calls.text nodes (bytes "ssl_verify") (configured = .on))
  installFlavour calls stream nodes (sslVerifyMode verify) sv host

def handleApiInstall (inData : Option Bytes) : ServerProgram Answer Answer := do
  let nodes ← ofExcept (requestParse calls.text inData)
  installRequest calls stream nodes sv host

section Calls

/-- The calls of an install whose mode is known: those for its pieces, which have all been
encoded, and the transfer of the reference json. -/
inductive HandlerCall : ServerCall → Prop
  | pieces {urls : List Bytes} {c : ServerCall} (hurls : ∀ url ∈ urls, ∃ s, url = urlEncode s)
      (h : InstallCall stream urls sslVerify c) : HandlerCall c
  | refPkgJson {url : Bytes} (hurl : refPkgUrl calls nodes = .ok url) (size : Option UInt64)
      (offset : UInt64) : HandlerCall (.httpDownloadFile url size offset (some sslVerify))

variable {calls stream nodes sslVerify sv host}

theorem installUrl_encoded {sdk : TextSdk} {s url : Bytes} (h : installUrl sdk s = some url) :
    ∃ s', url = urlEncode s' := by
  obtain ⟨s',_,rfl⟩ := Option.map_eq_some_iff.mp h
  exact ⟨s',rfl⟩

theorem mapM_ok_mem {ε α β : Type} {f : α → Except ε β} {P : β → Prop}
    (hf : ∀ a b, f a = .ok b → P b) {as : List α} {bs : List β} (h : as.mapM f = .ok bs) :
    ∀ b ∈ bs, P b := by
  induction as generalizing bs with
  | nil =>
    simp only [List.mapM_nil,pure,Except.pure,Except.ok.injEq] at h
    simp [← h]
  | cons a as ih =>
    rw [List.mapM_cons] at h
    obtain ⟨b,hb,h⟩ := bind_eq_ok.mp h
    obtain ⟨bs',hbs,h⟩ := bind_eq_ok.mp h
    injection h with h
    subst h
    intro c hc
    rcases List.mem_cons.mp hc with rfl | hc
    · exact hf a _ hb
    · exact ih hbs c hc

theorem mapM_id_mem {α : Type} {as : List (Option α)} {bs : List α} (h : as.mapM id = some bs) :
    ∀ b ∈ bs, some b ∈ as := by
  induction as generalizing bs with
  | nil =>
    simp only [List.mapM_nil,pure,Option.some.injEq] at h
    simp [← h]
  | cons a as ih =>
    rw [List.mapM_cons] at h
    simp only [id,Option.bind_eq_bind,Option.bind_eq_some_iff,pure,Option.some.injEq] at h
    obtain ⟨b,rfl,bs',hbs,rfl⟩ := h
    intro c hc
    rcases List.mem_cons.mp hc with rfl | hc
    · exact List.mem_cons_self
    · exact List.mem_cons_of_mem _ (ih hbs c hc)

theorem thrown_eq_ok {α : Type} {sdk : TextSdk} {r : Except Bytes α} {a : α} :
    thrown sdk r = .ok a ↔ r = .ok a := by
  cases r <;> simp [thrown,Except.mapError]

/-- The URLs for the pieces of a direct install are encoded. -/
theorem packageUrls_encoded {call : PieceUrls.Call} {elements : List Node} {urls : List Bytes}
    (h : packageUrls call elements = .ok urls) : ∀ url ∈ urls, ∃ s, url = urlEncode s := by
  obtain ⟨_,_,h⟩ := bind_eq_ok.mp h
  split_ifs at h
  refine mapM_ok_mem (fun element url hfill => ?_) h
  unfold fillPackage at hfill
  split at hfill
  · cases hfill
  · next hurl =>
    split_ifs at hfill
    injection hfill with hfill
    exact hfill ▸ installUrl_encoded hurl

/-- So are those that are read from a reference json. -/
theorem listedUrls_encoded {call : PieceUrls.Call} {urls : List Bytes}
    (h : listedUrls call = some urls) : ∀ url ∈ urls, ∃ s, url = urlEncode s := by
  unfold listedUrls at h
  split at h
  swap
  · cases h
  next filled hfilled =>
    injection h with h
    subst h
    intro url hurl
    obtain ⟨entry,hentry,rfl⟩ := List.mem_filterMap.mp hurl
    obtain ⟨field,count,nodes,hfill⟩ : ∃ field count nodes,
        PieceUrls.fill call nodes field count = .done (some filled) := by
      unfold PieceUrls.ownResult at hfilled
      split at hfilled
      · cases hfilled
      · split at hfilled
        · cases hfilled
        · split at hfilled
          · cases hfilled
          · split at hfilled
            · exact ⟨_,_,_,hfilled⟩
            · cases hfilled
    unfold PieceUrls.fill at hfill
    dsimp only at hfill
    split_ifs at hfill
    simp only [PieceUrls.Phase.done.injEq,Option.map_eq_some_iff] at hfill
    obtain ⟨urls,hurls,rfl⟩ := hfill
    have hmem : url ∈ urls := by
      rcases List.mem_append.mp hentry with hmap | hnone
      · obtain ⟨u,hu,hsome⟩ := List.mem_map.mp hmap
        injection hsome with hsome
        exact hsome ▸ hu
      · exact nomatch List.eq_of_mem_replicate hnone
    obtain ⟨piece,_,hpiece⟩ := List.mem_map.mp (mapM_id_mem hurls url hmem)
    unfold PieceUrls.pieceUrl at hpiece
    simp only [Option.bind_eq_bind,Option.bind_eq_some_iff] at hpiece
    obtain ⟨propVal,_,u,hu,hsome⟩ := hpiece
    split_ifs at hsome
    injection hsome with hsome
    exact hsome ▸ installUrl_encoded hu

theorem urlsOfAnswer_encoded {call : PieceUrls.Call} {answer : Option HttpTransfer.Downloaded}
    {urls : List Bytes} (h : urlsOfAnswer call answer = some urls) :
    ∀ url ∈ urls, ∃ s, url = urlEncode s := by
  cases answer with
  | none => cases h
  | some downloaded =>
    rw [urlsOfAnswer] at h
    split_ifs at h
    exact listedUrls_encoded h

theorem calls_ofExcept_bind {P : ServerCall → Prop} {α β : Type} {x : Except Answer α}
    {f : α → ServerProgram Answer β} (hf : ∀ a, x = .ok a → Calls P (f a)) :
    Calls P (ofExcept x >>= f) := by
  cases x with
  | error e => trivial
  | ok a => exact hf a rfl

theorem calls_installPieces_encoded {urls : List Bytes} (hurls : ∀ url ∈ urls, ∃ s, url = urlEncode s) :
    Calls (HandlerCall calls stream nodes sslVerify)
      (installPieces calls stream urls sslVerify sv host) :=
  (calls_installPieces calls stream urls sslVerify sv host).mono fun _ h => .pieces hurls h

theorem calls_handleApiInstallDirect :
    Calls (HandlerCall calls stream nodes sslVerify)
      (handleApiInstallDirect calls stream nodes sslVerify sv host) := by
  refine calls_ofExcept_bind fun field _ => calls_ofExcept_bind fun urls hurls => ?_
  exact calls_installPieces_encoded (packageUrls_encoded (thrown_eq_ok.mp hurls))

theorem calls_handleApiInstallRefPkgUrl :
    Calls (HandlerCall calls stream nodes sslVerify)
      (handleApiInstallRefPkgUrl calls stream nodes sslVerify sv host) := by
  refine calls_ofExcept_bind fun url hurl => ?_
  refine calls_perform_bind (.refPkgJson hurl _ _) fun answer => ?_
  change Calls _ (match urlsOfAnswer calls.pieces answer with
    | none => fail _
    | some urls => installPieces calls stream urls sslVerify sv host)
  cases hlisted : urlsOfAnswer calls.pieces answer with
  | none => trivial
  | some urls => exact calls_installPieces_encoded (urlsOfAnswer_encoded hlisted)

theorem calls_installFlavour :
    Calls (HandlerCall calls stream nodes sslVerify)
      (installFlavour calls stream nodes sslVerify sv host) := by
  refine calls_ofExcept_bind fun type _ => ?_
  split_ifs
  · exact calls_handleApiInstallDirect
  · exact calls_handleApiInstallRefPkgUrl
  · trivial

end Calls

section Sample

/-- A request for the sample package. -/
def sampleBody : Bytes :=
  bytes "\x7b\"type\":\"direct\",\"packages\":[\"http://h/a.pkg\"]\x7d"

def sampleRequest : ServerProgram Answer Answer :=
  handleApiInstall sampleCalls sampleStream sampleServices sampleHost (some sampleBody)

def sampleRequestHistory (registered : Registered) : List ServerEvent :=
  Program.history (fun (_ : Unit) c => ((),sampleReply registered c)) sampleRequest ()

def sampleRequestResult (registered : Registered) : Except Answer Answer :=
  (Program.run (fun (_ : Unit) c => ((),sampleReply registered c)) sampleRequest ()).2

theorem sampleRequest_ends (registered : Registered) :
    Ends sampleRequest (sampleRequestHistory registered) (sampleRequestResult registered) :=
  ends_run _ _ _

end Sample

end InstallHandlers
end RemotePkgInstaller
