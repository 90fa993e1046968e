import RemotePkgInstaller.InstallHandlers

/-! The URLs that leave the console during an install: those it asks hosts for, and those it
writes into a reference json.  The pieces have been encoded again by then; the address of a
reference json has not. -/
namespace RemotePkgInstaller
namespace LegalUrls

open HttpState HttpText InstallHandlers InstallPieces InstallUrl Installer PercentCoding PkgSetup
  Programs Program Requests Responses ServerCalls Settings TinyJson UrlComponents Util

section Encoded

theorem isLegalText_render (ts : List Token) :
    isLegalText (render ts) = true ↔ ∀ t ∈ ts, legalToken t = true := by
  rw [isLegalText,tokens?_render]
  simp

theorem isUrlByte_of_keeps {c : UInt8} (h : urlKeeps c = true) : isUrlByte c = true := by
  have hkept : ∀ d : UInt8, d ∈ bytes "-_.~+:/@" → isUrlByte d = true := by decide +kernel
  simp only [urlKeeps,Bool.or_eq_true,beq_iff_eq,or_assoc] at h
  rcases h with h | h
  · simp [isUrlByte,h]
  · refine hkept c ?_
    rcases h with rfl | rfl | rfl | rfl | rfl | rfl | rfl | rfl <;> decide

theorem legalToken_encodeToken (c : UInt8) : legalToken (encodeToken urlKeeps c) = true := by
  unfold encodeToken
  split_ifs with h
  · exact isUrlByte_of_keeps h.1
  · rfl

/-- What `url_encode` returns is legal. -/
theorem isLegalText_urlEncode (s : Bytes) : isLegalText (urlEncode s) = true := by
  rw [urlEncode_eq,encode,isLegalText_render]
  intro t ht
  obtain ⟨c,_,rfl⟩ := List.mem_map.mp ht
  exact legalToken_encodeToken c

/-- ASCII without blanks, control bytes and the double quote. -/
def Printable (c : UInt8) : Prop := 0x20 < c ∧ c < 0x7f ∧ c ≠ 0x22

instance (c : UInt8) : Decidable (Printable c) := inferInstanceAs (Decidable (_ ∧ _ ∧ _))

theorem printable_of_isUrlByte {c : UInt8} (h : isUrlByte c = true) : Printable c := by
  have hall : ∀ n < 256, isUrlByte (UInt8.ofNat n) = true → Printable (UInt8.ofNat n) := by
    decide +kernel
  have hc := hall c.toNat c.toNat_lt
  rw [UInt8.ofNat_toNat] at hc
  exact hc h

theorem printable_of_hexValue {c : UInt8} (h : (hexValue? c).isSome) : Printable c := by
  have hall : ∀ n < 256, (hexValue? (UInt8.ofNat n)).isSome → Printable (UInt8.ofNat n) := by
    decide +kernel
  have hc := hall c.toNat c.toNat_lt
  rw [UInt8.ofNat_toNat] at hc
  exact hc h

theorem printable_of_isLegalText {s : Bytes} (h : isLegalText s = true) :
    ∀ c ∈ s, Printable c := by
  obtain ⟨ts,hts⟩ : ∃ ts, tokens? s = some ts := by
    unfold isLegalText at h
    split at h
    · exact ⟨_,by assumption⟩
    · cases h
  rw [← render_of_tokens? hts] at h ⊢
  intro c hc
  obtain ⟨t,ht,hct⟩ := List.mem_flatMap.mp hc
  have hlegal := (isLegalText_render ts).mp h t ht
  cases t with
  | raw d hd =>
    rw [Token.text,List.mem_singleton] at hct
    exact hct ▸ printable_of_isUrlByte hlegal
  | esc hi lo hv =>
    obtain ⟨v,hsome⟩ := Option.isSome_iff_exists.mp hv
    obtain ⟨hhi,hlo⟩ := hexPair?_digits hsome
    simp only [Token.text,List.mem_cons,List.not_mem_nil,or_false] at hct
    rcases hct with rfl | rfl | rfl
    · decide
    · exact printable_of_hexValue hhi
    · exact printable_of_hexValue hlo

/-- Characters that a URL may have, with two hexadecimal digits after each `%`; so no blank,
no control byte, no quote and nothing but ASCII. -/
structure LegalUrl (url : Bytes) : Prop where
  legal : isLegalText url = true
  printable : ∀ c ∈ url, Printable c

theorem legalUrl_of_isLegalText {url : Bytes} (h : isLegalText url = true) : LegalUrl url :=
  ⟨h,printable_of_isLegalText h⟩

end Encoded

/-- The URL of a call, if it has one: it is sent to a host, or written into a file. -/
def sentUrl : ServerCall → Option Bytes
  | .httpDownloadFile url _ _ _ => some url
  | .httpGetFileSize url _ => some url
  | .fprintf _ (.piece url _ _ _) => some url
  | _ => none

def LegalCall (c : ServerCall) : Prop := ∀ url, sentUrl c = some url → LegalUrl url

/-- The request names a reference json whose address is no legal URL once it is decoded. -/
def AsksIllegalUrl (calls : InstallCalls) (inData : Option Bytes) : Prop :=
  ∃ nodes type value url,
    inData.bind (fun data => jsonCreate data jsonPoolSize) = some nodes ∧
    (∀ field, rootProperty nodes (bytes "ssl_verify") = some field → field.type = .boolean) ∧
    requestStr calls.text nodes (bytes "type") = .ok type ∧
    sameNoCase type (bytes "ref_pkg_url") = true ∧
    requestStr calls.text nodes (bytes "url") = .ok value ∧ value ≠ [] ∧
    httpUnescapeUri calls.text value = some url ∧ hasWebScheme url = true ∧
    isLegalText (cstr url) = false

section Handler

variable {calls : InstallCalls} {stream : StreamId} {nodes : List Node} {mode : SslVerifyMode}
  {sv : Services} {host : Host} {inData : Option Bytes}

/-- The pieces of an install only have legal URLs. -/
theorem legalCall_of_pieces {urls : List Bytes} {c : ServerCall}
    (hurls : ∀ url ∈ urls, ∃ s, url = urlEncode s) (h : InstallCall stream urls mode c) :
    LegalCall c := by
  have hlegal : ∀ url ∈ urls, LegalUrl url := by
    intro url hurl
    obtain ⟨s,rfl⟩ := hurls url hurl
    exact legalUrl_of_isLegalText (isLegalText_urlEncode s)
  intro url hsent
  cases h with
  | prepare h =>
    cases h with
    | readFile path => cases hsent
    | setup h =>
      cases h with
      | httpDownloadFile hurl size offset =>
        injection hsent with hsent
        exact hsent ▸ hlegal _ hurl
      | httpGetFileSize hurl =>
        injection hsent with hsent
        exact hsent ▸ hlegal _ hurl
      | @fprintf print hurl =>
        cases print with
        | piece u fileOffset fileSize hashValue =>
          injection hsent with hsent
          exact hsent ▸ hlegal _ (hurl u fileOffset fileSize hashValue rfl)
        | _ => cases hsent
      | _ => cases hsent
  | _ => cases hsent

/-- The address of the reference json is the only URL that an install does not encode. -/
theorem legalCall_of_handlerCall {c : ServerCall}
    (hurl : ∀ url, refPkgUrl calls nodes = .ok url → isLegalText url = true)
    (h : HandlerCall calls stream nodes mode c) : LegalCall c := by
  cases h with
  | pieces hurls h => exact legalCall_of_pieces hurls h
  | refPkgJson hok size offset =>
    intro url hsent
    injection hsent with hsent
    exact hsent ▸ legalUrl_of_isLegalText (hurl _ hok)

theorem refPkgUrl_eq_ok {url : Bytes} :
    refPkgUrl calls nodes = .ok url ↔ ∃ value decoded,
      requestStr calls.text nodes (bytes "url") = .ok value ∧ value ≠ [] ∧
      httpUnescapeUri calls.text value = some decoded ∧ hasWebScheme decoded = true ∧
      url = cstr decoded := by
  simp only [refPkgUrl,bind_eq_ok,thrown_eq_ok]
  constructor
  · rintro ⟨value,hvalue,h⟩
    unfold checkUrl at h
    split_ifs at h with hne
    split at h
    · cases h
    · next decoded hdecoded =>
      split_ifs at h with hscheme
      injection h with h
      exact ⟨value,decoded,hvalue,hne,hdecoded,hscheme,h.symm⟩
  · rintro ⟨value,decoded,hvalue,hne,hdecoded,hscheme,rfl⟩
    exact ⟨value,hvalue,by simp [checkUrl,hne,hdecoded,hscheme]⟩

theorem not_direct {type : Bytes} (h : sameNoCase type (bytes "ref_pkg_url") = true) :
    sameNoCase type (bytes "direct") = false := by
  simp only [sameNoCase,decide_eq_true_eq,decide_eq_false_iff_not] at h ⊢
  rw [h]
  decide

/-- Both flavours, of which only the second has an address. -/
theorem calls_installFlavour_legal
    (h : ∀ type, requestStr calls.text nodes (bytes "type") = .ok type →
      sameNoCase type (bytes "ref_pkg_url") = true →
      ∀ url, refPkgUrl calls nodes = .ok url → isLegalText url = true) :
    Calls LegalCall (installFlavour calls stream nodes mode sv host) := by
  refine calls_ofExcept_bind fun type htype => ?_
  split_ifs with hdirect href
  · refine calls_ofExcept_bind fun field _ => calls_ofExcept_bind fun urls hurls => ?_
    exact (calls_installPieces calls stream urls mode sv host).mono fun _ =>
      legalCall_of_pieces (packageUrls_encoded (thrown_eq_ok.mp hurls))
  · exact calls_handleApiInstallRefPkgUrl.mono fun _ =>
      legalCall_of_handlerCall (h type htype href)
  · trivial

/-- The run up to the transfer of the reference json. -/
theorem runs_refPkgUrl {type url : Bytes} (configured : SslVerifyMode)
    (hparse : inData.bind (fun data => jsonCreate data jsonPoolSize) = some nodes)
    (hverify : ∀ field, rootProperty nodes (bytes "ssl_verify") = some field →
      field.type = .boolean)
    (htype : requestStr calls.text nodes (bytes "type") = .ok type)
    (href : sameNoCase type (bytes "ref_pkg_url") = true)
    (hurl : refPkgUrl calls nodes = .ok url) :
    ∃ verify q, Program.Runs (handleApiInstall calls stream sv host inData)
      [⟨.httpGetSslVerify,configured⟩,
        ⟨.httpDownloadFile url (some HttpTransfer.unknownLength) 0 (some verify),none⟩] q := by
  obtain ⟨verify,hok⟩ : ∃ verify, requestBoolOpt calls.text nodes (bytes "ssl_verify")
      (configured = .on) = .ok verify := by
    cases hf : rootProperty nodes (bytes "ssl_verify") with
    | none => exact ⟨_,requestBoolOpt_eq_ok.mpr (Or.inl ⟨hf,rfl⟩)⟩
    | some field => exact ⟨_,requestBoolOpt_eq_ok.mpr (Or.inr ⟨field,hf,hverify field hf,rfl⟩)⟩
  have hprogram : handleApiInstall calls stream sv host inData =
      installRequest calls stream nodes sv host := by
    rw [handleApiInstall,requestParse_eq_ok.mpr hparse]
    rfl
  have hflavour : installFlavour calls stream nodes (sslVerifyMode verify) sv host =
      handleApiInstallRefPkgUrl calls stream nodes (sslVerifyMode verify) sv host := by
    rw [installFlavour,htype]
    change (if sameNoCase type (bytes "direct") = true then _ else _) = _
    rw [not_direct href,href]
    rfl
  obtain ⟨q,hq⟩ : ∃ q, Program.Runs
      (handleApiInstallRefPkgUrl calls stream nodes (sslVerifyMode verify) sv host)
      [⟨.httpDownloadFile url (some HttpTransfer.unknownLength) 0 (some (sslVerifyMode verify)),
        none⟩] q := by
    rw [handleApiInstallRefPkgUrl,hurl]
    exact ⟨_,.call (.refl _)⟩
  refine ⟨sslVerifyMode verify,q,?_⟩
  rw [hprogram]
  refine Runs.call ?_
  change Program.Runs (ofExcept (requestBoolOpt calls.text nodes (bytes "ssl_verify")
    (configured = .on)) >>= fun verify =>
      installFlavour calls stream nodes (sslVerifyMode verify) sv host) _ _
  rw [hok]
  change Program.Runs (installFlavour calls stream nodes (sslVerifyMode verify) sv host) _ _
  rw [hflavour]
  exact hq

/-- Only legal URLs leave the console in any run of an install, if and only if the request
does not name a reference json by an address that decodes to something else. -/
theorem handleApiInstall_legal_iff (calls : InstallCalls) (stream : StreamId) (sv : Services)
    (host : Host) (inData : Option Bytes) :
    (∀ history q, Program.Runs (handleApiInstall calls stream sv host inData) history q →
      ∀ e ∈ history, LegalCall e.1) ↔ ¬ AsksIllegalUrl calls inData := by
  constructor
  · rintro h ⟨nodes,type,value,url,hparse,hverify,htype,href,hvalue,hne,hurl,hscheme,hillegal⟩
    have hok : refPkgUrl calls nodes = .ok (cstr url) :=
      refPkgUrl_eq_ok.mpr ⟨value,url,hvalue,hne,hurl,hscheme,rfl⟩
    obtain ⟨verify,q,hruns⟩ := runs_refPkgUrl .on hparse hverify htype href hok
    have hlegal := h _ _ hruns _ (List.mem_cons_of_mem _ List.mem_cons_self) _ rfl
    exact absurd (hillegal.symm.trans hlegal.legal) (by decide)
  · intro h history q hruns
    refine (Calls.runs ?_ hruns).1
    unfold handleApiInstall
    refine calls_ofExcept_bind fun nodes hparse => ?_
    refine calls_perform_bind (fun _ hsent => nomatch hsent) fun configured => ?_
    refine calls_ofExcept_bind fun verify hverify => ?_
    refine calls_installFlavour_legal fun type htype href url hurl => ?_
    obtain ⟨value,decoded,hvalue,hne,hdecoded,hscheme,rfl⟩ := refPkgUrl_eq_ok.mp hurl
    by_contra hillegal
    refine h ⟨nodes,type,value,decoded,requestParse_eq_ok.mp hparse,?_,htype,href,hvalue,hne,
      hdecoded,hscheme,by simpa using hillegal⟩
    intro field hf
    rcases requestBoolOpt_eq_ok.mp hverify with ⟨hnone,_⟩ | ⟨field',hf',hboolean,_⟩
    · rw [hf] at hnone
      cases hnone
    · rw [hf] at hf'
      injection hf' with hf'
      exact hf' ▸ hboolean

end Handler

/-- A reference json whose name has a blank in it. -/
def blankBody : Bytes :=
  bytes "\x7b\"type\":\"ref_pkg_url\",\"url\":\"http://h/a%20b.json\"\x7d"

def blankRequest : ServerProgram Answer Answer :=
  handleApiInstall sampleCalls sampleStream sampleServices sampleHost (some blankBody)

def blankHistory : List ServerEvent :=
  Program.history (fun (_ : Unit) c => ((),sampleReply ⟨0,1⟩ c)) blankRequest ()

/-- The blank gets into the request that the host is sent. -/
theorem blankRequest_sends :
    (∃ q, Program.Runs blankRequest blankHistory q) ∧
      ∃ e ∈ blankHistory, sentUrl e.1 = some (bytes "http://h/a b.json") ∧ ¬ LegalCall e.1 := by
  have hsent : blankHistory.map (fun e => sentUrl e.1) =
      [none,some (bytes "http://h/a b.json")] := by decide +kernel
  have hmem : some (bytes "http://h/a b.json") ∈ blankHistory.map (fun e => sentUrl e.1) := by
    rw [hsent]
    exact List.mem_cons_of_mem _ List.mem_cons_self
  obtain ⟨e,he,hurl⟩ := List.mem_map.mp hmem
  refine ⟨⟨_,ends_run _ _ _⟩,e,he,hurl,fun hlegal => ?_⟩
  have hfalse : isLegalText (bytes "http://h/a b.json") = false := by decide +kernel
  exact absurd (hfalse.symm.trans (hlegal _ hurl).legal) (by decide)

end LegalUrls
end RemotePkgInstaller
