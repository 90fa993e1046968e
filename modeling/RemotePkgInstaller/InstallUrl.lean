import RemotePkgInstaller.HttpText
import RemotePkgInstaller.Util

/-! The URL that is installed.  Both install flavours decode the URL they are
given with `http_unescape_uri` and encode the result with `url_encode`. -/
namespace RemotePkgInstaller
namespace InstallUrl

open HttpText PercentCoding UrlComponents Util

/-- Decode, then encode again. -/
def installUrl (sdk : TextSdk) (url : Bytes) : Option Bytes :=
  (httpUnescapeUri sdk url).map urlEncode

/-- The characters of RFC 3986: unreserved, general and sub-component delimiters. -/
def isUrlByte (c : UInt8) : Bool :=
  isalnum c || (bytes "-._~:/?#[]@!$&'()*+,;=").contains c

def legalToken : Token → Bool
  | .raw c _ => isUrlByte c
  | .esc .. => true

def isLegalText (s : Bytes) : Bool :=
  match tokens? s with
  | some ts => ts.all legalToken
  | none => false

/-- An absolute http or https URL of legal characters and well formed escapes. -/
def isHttpUrl (u : Bytes) : Bool :=
  (startsWith u (bytes "http://") || startsWith u (bytes "https://")) && isLegalText u

/-- No raw `?` or `#`, no escape of `/`, no escape of NUL. -/
def keepsStructure (u : Bytes) : Bool :=
  match tokens? u with
  | some ts => ts.all fun t => Stable t
  | none => false

theorem tokens?_append_of_plain {p : Bytes} (hp : ∀ c ∈ p, c ≠ 0x25) (rest : Bytes) :
    tokens? (p++rest) = (tokens? rest).map (p.map (encodeToken fun _ => true)++·) := by
  induction p with
  | nil => simp
  | cons c p ih =>
    have hc := hp c (by simp)
    have ht : encodeToken (fun _ => true) c = .raw c hc := by simp [encodeToken,hc]
    have h : (c::p)++rest = (Token.raw c hc).text++(p++rest) := rfl
    rw [h,tokens?_text_append,ih (fun d hd => hp d (by simp [hd])),List.map_cons,ht]
    cases tokens? rest <;> rfl

theorem cstr_append_of_ne_zero {p : Bytes} (hp : ∀ c ∈ p, c ≠ 0) (s : Bytes) :
    cstr (p++s) = p++cstr s := by
  unfold cstr
  rw [List.takeWhile_append_of_pos (by simpa using hp)]

section Installed

variable {sdk : TextSdk}

/-- A URL is its scheme and a text of legal tokens. -/
theorem isHttpUrl_split {u : Bytes} (hu : isHttpUrl u = true) :
    ∃ scheme rest ts, (scheme = bytes "http" ∨ scheme = bytes "https") ∧
      u = withScheme scheme rest ∧ tokens? rest = some ts := by
  simp only [isHttpUrl,Bool.and_eq_true,Bool.or_eq_true,startsWith_iff] at hu
  obtain ⟨hpre,hlegal⟩ := hu
  have hsome : ∃ us, tokens? u = some us := by
    unfold isLegalText at hlegal
    split at hlegal
    · exact ⟨_,by assumption⟩
    · simp at hlegal
  obtain ⟨us,hus⟩ := hsome
  rcases hpre with ⟨rest,rfl⟩ | ⟨rest,rfl⟩
  · rw [tokens?_append_of_plain (by decide +kernel)] at hus
    obtain ⟨ts,hts,_⟩ := Option.map_eq_some_iff.mp hus
    exact ⟨_,rest,ts,Or.inl rfl,rfl,hts⟩
  · rw [tokens?_append_of_plain (by decide +kernel)] at hus
    obtain ⟨ts,hts,_⟩ := Option.map_eq_some_iff.mp hus
    exact ⟨_,rest,ts,Or.inr rfl,rfl,hts⟩

/-- The scheme and `://` go through both conversions unchanged. -/
theorem installUrl_withScheme (hinit : sdk.initialized = true) (hsdk : sdk.PlainUnescape)
    {p rest : Bytes} {ts : List Token} (hp : ∀ c ∈ p, urlKeeps c = true ∧ c ≠ 0x25)
    (hts : tokens? rest = some ts) :
    installUrl sdk (p++rest) = some (p++encode urlKeeps (cstr (ts.map Token.value))) := by
  have hwf : (tokens? (p++rest)).isSome := by
    rw [tokens?_append_of_plain fun c hc => (hp c hc).2,hts]
    rfl
  have hnul : ∀ c ∈ p, c ≠ 0 := by
    rintro c hc rfl
    exact absurd (hp 0 hc).1 (by decide)
  rw [installUrl,httpUnescapeUri,hinit,hsdk _ hwf,
    percentDecode_append_of_plain fun h => (hp _ h).2 rfl,← render_of_tokens? hts,
    percentDecode_render]
  simp only [Bool.true_eq_false,if_false,Option.map_some,urlEncode_eq,
    cstr_append_of_ne_zero hnul,encode_append_of_kept hp]

theorem keepsStructure_append {p rest : Bytes} {ts : List Token} (hp : ∀ c ∈ p, c ≠ 0x25)
    (hst : ∀ t ∈ p.map (encodeToken fun _ => true), Stable t) (hts : tokens? rest = some ts) :
    keepsStructure (p++rest) = true ↔ ∀ t ∈ ts, Stable t := by
  rw [keepsStructure,tokens?_append_of_plain hp,hts]
  simp only [Option.map_some,List.all_eq_true,decide_eq_true_eq,List.mem_append]
  constructor
  · exact fun h t ht => h t (Or.inr ht)
  · rintro h t (ht | ht)
    · exact hst t ht
    · exact h t ht

/-- The URL that is installed splits into the components of the one that was
named exactly when that one has no query, no fragment and no escape of `/` or NUL. -/
theorem installUrl_sameComponents_iff (hinit : sdk.initialized = true)
    (hsdk : sdk.PlainUnescape) (u : Bytes) (hu : isHttpUrl u = true) :
    (∃ v, installUrl sdk u = some v ∧ SameComponents u v) ↔ keepsStructure u = true := by
  obtain ⟨scheme,rest,ts,hscheme,rfl,hts⟩ := isHttpUrl_split hu
  have hw : ∀ r, withScheme scheme r = withScheme scheme []++r := by simp [withScheme]
  have hp : ∀ c ∈ withScheme scheme [], urlKeeps c = true ∧ c ≠ 0x25 := by
    rcases hscheme with rfl | rfl <;> decide +kernel
  have hcolon : (0x3a : UInt8) ∉ scheme := by rcases hscheme with rfl | rfl <;> decide
  have hst : ∀ t ∈ (withScheme scheme []).map (encodeToken fun _ => true), Stable t := by
    rcases hscheme with rfl | rfl <;> decide
  rw [hw rest,installUrl_withScheme hinit hsdk hp hts,
    keepsStructure_append (fun c hc => (hp c hc).2) hst hts,← hw,← hw,
    ← render_of_tokens? hts,
    ← sameComponents_reencode_iff hcolon (show urlKeeps 0x2f = true by decide)
      (show urlKeeps 0x3f = false by decide) (show urlKeeps 0x23 = false by decide) ts]
  simp

end Installed

/-- An initialised console whose `sceHttpUriUnescape` is plain percent-decoding. -/
theorem installUrl_sameComponents_iff_example :
    (∃ v, installUrl plainSdk (bytes "http://h/a%20b/c.pkg") = some v ∧
        SameComponents (bytes "http://h/a%20b/c.pkg") v) ↔
      keepsStructure (bytes "http://h/a%20b/c.pkg") = true :=
  installUrl_sameComponents_iff rfl (fun _ _ => rfl) _ (by decide +kernel)

/-- The separator of the query does not survive: the host is asked for one long path. -/
theorem installUrl_query_lost :
    isHttpUrl (bytes "http://h/p?q=1") = true ∧
      installUrl plainSdk (bytes "http://h/p?q=1") = some (bytes "http://h/p%3fq%3d1") ∧
      ¬ SameComponents (bytes "http://h/p?q=1") (bytes "http://h/p%3fq%3d1") := by
  decide +kernel

end InstallUrl
end RemotePkgInstaller
