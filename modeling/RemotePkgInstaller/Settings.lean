import RemotePkgInstaller.HttpState

/-! The settings endpoint.  A request sets the TLS mode, loads a CA bundle and saves
both, in this order, and can fail after each of these. -/
namespace RemotePkgInstaller
namespace Settings

open HttpState HttpText Requests Responses TinyJson Util

/-- The server's settings: what `http.c` keeps, and what the config file holds. -/
structure Server where
  http : Http
  config : Option Bytes
  deriving DecidableEq

/-- The calls behind one request, those for the bundle by its path. -/
structure Calls where
  bundle : Bytes → BundleCalls
  write : WriteCalls

/-- What a request leaves behind, its answer, and what the handler returns. -/
structure Served where
  state : Server
  reply : Answer
  status : Bool
  deriving DecidableEq

def toLower (c : UInt8) : UInt8 := if 0x41 ≤ c ∧ c ≤ 0x5a then c+0x20 else c

/-- Whether `strcasecmp` returns zero. -/
def sameNoCase (a b : Bytes) : Bool := a.map toLower = b.map toLower

variable (sdk : TextSdk)

def writeSettingsJson (http : Http) : Answer :=
  let escapedPath := (httpEscapeJsonString (http.text sdk) 512 http.caBundlePath.val).getD []
  kickResultHeaderJson++
    [.write (bytes "\x7b \"status\": \"success\", \"ssl_verify\": "++
      boolText (http.sslVerifyMode = .on)++bytes ", \"ca_bundle\": \""++escapedPath++
      bytes "\", \"ca_bundle_loaded\": "++boolText http.caBundleLoaded++bytes " \x7d\n")]

def internalError (http : Http) (text : Bytes) : Answer :=
  kickErrorf (http.text sdk) 500 (bytes "Internal server error") text

/-- The handler's part on the `ca_bundle` parameter, with the answer if it fails. -/
def takeCaBundle (http : Http) (nodes : List Node) (calls : Calls) : Http × Option Answer :=
  match rootProperty nodes (bytes "ca_bundle") with
  | none => (http,none)
  | some _ =>
    match requestStr (http.text sdk) nodes (bytes "ca_bundle") with
    | .error reply => (http,some reply)
    | .ok caBundle =>
      let loaded := httpLoadCaBundle http caBundle (calls.bundle caBundle)
      if loaded.2 then (loaded.1,none)
      else
        (loaded.1,some (internalError sdk loaded.1
          (quoted (bytes "Unable to load CA bundle ") caBundle (bytes ": ")++loaded.1.lastError)))

/-- The handler's last part: the settings are saved and reported. -/
def saveSettings (http : Http) (config : Option Bytes) (calls : Calls) : Served :=
  let saved := httpSaveConfig http sdk config calls.write
  if saved.2 then ⟨⟨http,saved.1⟩,writeSettingsJson sdk http,true⟩
  else
    ⟨⟨http,saved.1⟩,internalError sdk http
      (quoted (bytes "Unable to save settings to ") httpConfigPath (bytes ".")),false⟩

/-- The handler from the point where the mode is set. -/
def applySettings (st : Server) (nodes : List Node) (verify : Bool) (calls : Calls) : Served :=
  let taken := takeCaBundle sdk (httpSetSslVerify st.http (sslVerifyMode verify)) nodes calls
  match taken.2 with
  | some reply => ⟨⟨taken.1,st.config⟩,reply,false⟩
  | none => saveSettings sdk taken.1 st.config calls

/-- A `GET` without a payload just reports the settings. -/
def OnlyReports (method : Bytes) (inData : Option Bytes) : Prop :=
  sameNoCase method (bytes "GET") = true ∧ cstr (inData.getD []) = []

instance (method : Bytes) (inData : Option Bytes) : Decidable (OnlyReports method inData) :=
  inferInstanceAs (Decidable (_ ∧ _))

def requestVerify (st : Server) (nodes : List Node) : Except Answer Bool :=
  requestBoolOpt (st.http.text sdk) nodes (bytes "ssl_verify") (st.http.sslVerifyMode = .on)

def handleApiSettings (st : Server) (method : Bytes) (inData : Option Bytes) (calls : Calls) :
    Served :=
  if OnlyReports method inData then ⟨st,writeSettingsJson sdk st.http,true⟩
  else
    match requestParse (st.http.text sdk) inData with
    | .error reply => ⟨st,reply,false⟩
    | .ok nodes =>
      match requestVerify sdk st nodes with
      | .error reply => ⟨st,reply,false⟩
      | .ok verify => applySettings sdk st nodes verify calls

/-- The settings of a state are the TLS mode, the path of the CA bundle and the file. -/
def SameSettings (st st' : Server) : Prop :=
  st'.http.sslVerifyMode = st.http.sslVerifyMode ∧ st'.http.caBundlePath = st.http.caBundlePath ∧
    st'.config = st.config

/-- A failed request has left the settings as they were. -/
def AllOrNothing (st : Server) (served : Served) : Prop :=
  served.status = false → SameSettings st served.state

/-- The request names no bundle, or one that is loaded. -/
def NamesGoodBundle (http : Http) (nodes : List Node) (calls : Calls) : Prop :=
  ∀ field, rootProperty nodes (bytes "ca_bundle") = some field →
    field.type = .text ∧ http.initialized = true ∧ jsonGetValue field ≠ [] ∧
      (calls.bundle (jsonGetValue field)).Taken

/-- The path that is stored when the named bundle is loaded. -/
def requestedPath (http : Http) (nodes : List Node) : PathBuffer :=
  match rootProperty nodes (bytes "ca_bundle") with
  | none => http.caBundlePath
  | some field => PathBuffer.copy (jsonGetValue field)

/-- The text to save for a request on which nothing has failed. -/
def requestedText (http : Http) (nodes : List Node) (verify : Bool) : Option Bytes :=
  configText? { http with
    sslVerifyMode := sslVerifyMode verify
    caBundlePath := requestedPath http nodes } sdk

/-- The text to save exists, and the file takes all of it. -/
def FileTakes (text? : Option Bytes) (io : WriteCalls) : Prop :=
  ∃ text, text? = some text ∧ io.opened = true ∧ io.accepted text.length = text.length

/-- There is no text to save, or no file to write it to, or the part of it that is
written is what the file held. -/
def FileKeeps (config text? : Option Bytes) (io : WriteCalls) : Prop :=
  ∀ text, text? = some text → io.opened = true →
    config = some (text.take (io.accepted text.length))

/-- The request is refused before the mode is set, or nothing fails, or it asks for the
mode that is configured and what is done before the failure changes nothing either. -/
def KeepsSettings (st : Server) (method : Bytes) (inData : Option Bytes) (calls : Calls) : Prop :=
  OnlyReports method inData ∨
    ∀ nodes, requestParse (st.http.text sdk) inData = .ok nodes →
      ∀ verify, requestVerify sdk st nodes = .ok verify →
        (NamesGoodBundle st.http nodes calls ∧
          FileTakes (requestedText sdk st.http nodes verify) calls.write) ∨
        (sslVerifyMode verify = st.http.sslVerifyMode ∧
          (NamesGoodBundle st.http nodes calls →
            requestedPath st.http nodes = st.http.caBundlePath ∧
            FileKeeps st.config (requestedText sdk st.http nodes verify) calls.write))

section Parts

variable {sdk} {http : Http} {nodes : List Node} {calls : Calls}

/-- No bundle is named, or something that is no path, or the named bundle is loaded. -/
theorem takeCaBundle_cases (sdk : TextSdk) (http : Http) (nodes : List Node) (calls : Calls) :
    (rootProperty nodes (bytes "ca_bundle") = none ∧
      takeCaBundle sdk http nodes calls = (http,none)) ∨
    (∃ field reply, rootProperty nodes (bytes "ca_bundle") = some field ∧ field.type ≠ .text ∧
      takeCaBundle sdk http nodes calls = (http,some reply)) ∨
    (∃ field reply?, rootProperty nodes (bytes "ca_bundle") = some field ∧ field.type = .text ∧
      takeCaBundle sdk http nodes calls =
        ((httpLoadCaBundle http (jsonGetValue field) (calls.bundle (jsonGetValue field))).1,reply?) ∧
      (reply? = none ↔
        (httpLoadCaBundle http (jsonGetValue field) (calls.bundle (jsonGetValue field))).2 = true)) := by
  cases hf : rootProperty nodes (bytes "ca_bundle") with
  | none => exact Or.inl ⟨rfl,by simp only [takeCaBundle,hf]⟩
  | some field =>
    refine Or.inr ?_
    rcases requestStr_cases (http.text sdk) hf with ⟨ht,hr⟩ | ⟨ht,reply,hr⟩
    · refine Or.inr ⟨field,(takeCaBundle sdk http nodes calls).2,rfl,ht,?_⟩
      simp only [takeCaBundle,hf,hr]
      split_ifs with hl <;> simp [hl]
    · exact Or.inl ⟨field,reply,rfl,ht,by simp only [takeCaBundle,hf,hr]⟩

/-- The part on the bundle fails exactly when the bundle named is not a good one. -/
theorem takeCaBundle_status :
    (takeCaBundle sdk http nodes calls).2 = none ↔ NamesGoodBundle http nodes calls := by
  unfold NamesGoodBundle
  rcases takeCaBundle_cases sdk http nodes calls with
    ⟨hf,he⟩ | ⟨field,reply,hf,ht,he⟩ | ⟨field,reply?,hf,ht,he,hreply⟩
  · simp [hf,he]
  · simp [hf,he,ht]
  · simp only [hf,he,hreply,Option.some.injEq,forall_eq',ht,true_and]
    exact httpLoadCaBundle_status _ _ _

theorem takeCaBundle_sslVerifyMode :
    (takeCaBundle sdk http nodes calls).1.sslVerifyMode = http.sslVerifyMode := by
  rcases takeCaBundle_cases sdk http nodes calls with
    ⟨_,he⟩ | ⟨_,_,_,_,he⟩ | ⟨_,_,_,_,he,_⟩ <;> simp [he]

theorem takeCaBundle_initialized :
    (takeCaBundle sdk http nodes calls).1.initialized = http.initialized := by
  rcases takeCaBundle_cases sdk http nodes calls with
    ⟨_,he⟩ | ⟨_,_,_,_,he⟩ | ⟨_,_,_,_,he,_⟩ <;> simp [he]

/-- The stored path changes when the named bundle is loaded, and then only. -/
theorem takeCaBundle_path :
    (takeCaBundle sdk http nodes calls).1.caBundlePath =
      if (takeCaBundle sdk http nodes calls).2 = none then requestedPath http nodes
      else http.caBundlePath := by
  unfold requestedPath
  rcases takeCaBundle_cases sdk http nodes calls with
    ⟨hf,he⟩ | ⟨field,reply,hf,_,he⟩ | ⟨field,reply?,hf,_,he,hreply⟩
  · simp [hf,he]
  · simp [he]
  · simp only [hf,he,hreply,httpLoadCaBundle_path]

/-- What is saved depends on the settings alone. -/
theorem configText?_congr {st st' : Http} (hi : st'.initialized = st.initialized)
    (hm : st'.sslVerifyMode = st.sslVerifyMode) (hp : st'.caBundlePath = st.caBundlePath) :
    configText? st' sdk = configText? st sdk := by
  simp only [configText?,Http.text,hi,hm,hp]

/-- The state and the status are those of the save. -/
theorem saveSettings_state (config : Option Bytes) :
    (saveSettings sdk http config calls).state =
        ⟨http,(httpSaveConfig http sdk config calls.write).1⟩ ∧
      (saveSettings sdk http config calls).status =
        (httpSaveConfig http sdk config calls.write).2 := by
  unfold saveSettings
  dsimp only
  split_ifs with h
  · exact ⟨rfl,h.symm⟩
  · exact ⟨rfl,by simpa using h⟩

theorem saveSettings_status (config : Option Bytes) :
    (saveSettings sdk http config calls).status = true ↔
      FileTakes (configText? http sdk) calls.write := by
  rw [(saveSettings_state config).2]
  unfold httpSaveConfig FileTakes
  cases configText? http sdk with
  | none => simp
  | some text => simp [writeFileTrunc_status]

theorem saveSettings_config (config : Option Bytes) :
    (saveSettings sdk http config calls).state.config = config ↔
      FileKeeps config (configText? http sdk) calls.write := by
  rw [(saveSettings_state config).1]
  unfold httpSaveConfig FileKeeps
  cases configText? http sdk with
  | none => simp
  | some text =>
    simp only [writeFileTrunc_file,Option.some.injEq,forall_eq']
    cases calls.write.opened <;> simp [eq_comm]

/-- The settings with the mode of a request. -/
def withVerify (http : Http) (verify : Bool) : Http := httpSetSslVerify http (sslVerifyMode verify)

theorem applySettings_of_failed {st : Server} {verify : Bool} {reply : Answer}
    (h : (takeCaBundle sdk (withVerify st.http verify) nodes calls).2 = some reply) :
    applySettings sdk st nodes verify calls =
      ⟨⟨(takeCaBundle sdk (withVerify st.http verify) nodes calls).1,st.config⟩,reply,false⟩ := by
  simp only [withVerify] at h
  simp only [applySettings,withVerify,h]

theorem applySettings_of_taken {st : Server} {verify : Bool}
    (h : (takeCaBundle sdk (withVerify st.http verify) nodes calls).2 = none) :
    applySettings sdk st nodes verify calls =
      saveSettings sdk (takeCaBundle sdk (withVerify st.http verify) nodes calls).1 st.config calls := by
  simp only [withVerify] at h
  simp only [applySettings,withVerify,h]

/-- What is saved after the named bundle has been loaded. -/
theorem configText?_taken {verify : Bool}
    (h : (takeCaBundle sdk (withVerify http verify) nodes calls).2 = none) :
    configText? (takeCaBundle sdk (withVerify http verify) nodes calls).1 sdk =
      requestedText sdk http nodes verify := by
  refine configText?_congr ?_ ?_ ?_
  · rw [takeCaBundle_initialized]; rfl
  · rw [takeCaBundle_sslVerifyMode]; rfl
  · rw [takeCaBundle_path,if_pos h]; rfl

/-- From the point where the mode is set, the settings are kept or taken over whole when
nothing fails, or the mode is the configured one and so is what is done before the failure. -/
theorem applySettings_allOrNothing_iff (st : Server) (nodes : List Node) (verify : Bool)
    (calls : Calls) :
    AllOrNothing st (applySettings sdk st nodes verify calls) ↔
      (NamesGoodBundle st.http nodes calls ∧
        FileTakes (requestedText sdk st.http nodes verify) calls.write) ∨
      (sslVerifyMode verify = st.http.sslVerifyMode ∧
        (NamesGoodBundle st.http nodes calls →
          requestedPath st.http nodes = st.http.caBundlePath ∧
          FileKeeps st.config (requestedText sdk st.http nodes verify) calls.write)) := by
  have hgood : (takeCaBundle sdk (withVerify st.http verify) nodes calls).2 = none ↔
      NamesGoodBundle st.http nodes calls := takeCaBundle_status
  have hmode := @takeCaBundle_sslVerifyMode sdk (withVerify st.http verify) nodes calls
  have hpath := @takeCaBundle_path sdk (withVerify st.http verify) nodes calls
  unfold AllOrNothing SameSettings
  rw [← hgood]
  cases htaken : (takeCaBundle sdk (withVerify st.http verify) nodes calls).2 with
  | some reply =>
    rw [htaken,if_neg (by simp)] at hpath
    rw [applySettings_of_failed htaken,hmode,hpath]
    simp [withVerify,httpSetSslVerify]
  | none =>
    rw [if_pos htaken] at hpath
    have hwritten := @saveSettings_status sdk
      (takeCaBundle sdk (withVerify st.http verify) nodes calls).1 calls st.config
    have hkept := @saveSettings_config sdk
      (takeCaBundle sdk (withVerify st.http verify) nodes calls).1 calls st.config
    rw [configText?_taken htaken] at hwritten hkept
    rw [applySettings_of_taken htaken,hkept,← Bool.not_eq_true,hwritten,(saveSettings_state _).1,hmode,
      hpath]
    have hset : (withVerify st.http verify).sslVerifyMode = sslVerifyMode verify ∧
        requestedPath (withVerify st.http verify) nodes = requestedPath st.http nodes := ⟨rfl,rfl⟩
    rw [hset.1,hset.2]
    simp only [true_and,true_implies]
    tauto

/-- A request is a report, or it is refused with nothing done, or its settings are applied. -/
theorem handleApiSettings_cases (sdk : TextSdk) (st : Server) (method : Bytes)
    (inData : Option Bytes) (calls : Calls) :
    (OnlyReports method inData ∧
      handleApiSettings sdk st method inData calls = ⟨st,writeSettingsJson sdk st.http,true⟩) ∨
    (∃ reply, handleApiSettings sdk st method inData calls = ⟨st,reply,false⟩) ∨
    (∃ nodes verify, ¬ OnlyReports method inData ∧
      requestParse (st.http.text sdk) inData = .ok nodes ∧ requestVerify sdk st nodes = .ok verify ∧
      handleApiSettings sdk st method inData calls = applySettings sdk st nodes verify calls) := by
  unfold handleApiSettings
  by_cases hreport : OnlyReports method inData
  · exact Or.inl ⟨hreport,by rw [if_pos hreport]⟩
  · simp only [if_neg hreport]
    refine Or.inr ?_
    cases hp : requestParse (st.http.text sdk) inData with
    | error reply => exact Or.inl ⟨reply,rfl⟩
    | ok nodes =>
      cases hv : requestVerify sdk st nodes with
      | error reply => exact Or.inl ⟨reply,by simp only [hv]⟩
      | ok verify => exact Or.inr ⟨nodes,verify,hreport,rfl,hv,by simp only [hv]⟩

/-- A request that does not fail meets the condition. -/
theorem keepsSettings_of_status {st : Server} {method : Bytes} {inData : Option Bytes}
    (h : (handleApiSettings sdk st method inData calls).status = true) :
    KeepsSettings sdk st method inData calls := by
  rcases handleApiSettings_cases sdk st method inData calls with
    ⟨hreport,_⟩ | ⟨reply,he⟩ | ⟨nodes,verify,hreport,hparse,hverify,he⟩
  · exact Or.inl hreport
  · rw [he] at h
    exact absurd h (by simp)
  · refine Or.inr fun nodes' hparse' verify' hverify' => ?_
    rw [hparse] at hparse'
    injection hparse' with hn
    subst hn
    rw [hverify] at hverify'
    injection hverify' with hv
    subst hv
    rw [he] at h
    exact (applySettings_allOrNothing_iff st nodes verify calls).mp fun hf => by simp [h] at hf

end Parts

/-- A request that fails has changed nothing, exactly when it is refused before the mode
is set, or does not fail, or has nothing to change. -/
theorem handleApiSettings_allOrNothing_iff (st : Server) (method : Bytes) (inData : Option Bytes)
    (calls : Calls) :
    AllOrNothing st (handleApiSettings sdk st method inData calls) ↔
      KeepsSettings sdk st method inData calls := by
  unfold handleApiSettings KeepsSettings
  by_cases hreport : OnlyReports method inData
  · simp [hreport,AllOrNothing]
  · simp only [hreport,if_false,false_or]
    cases requestParse (st.http.text sdk) inData with
    | error reply => simp [AllOrNothing,SameSettings]
    | ok nodes =>
      simp only [Except.ok.injEq,forall_eq']
      cases requestVerify sdk st nodes with
      | error reply => simp [AllOrNothing,SameSettings]
      | ok verify =>
        simp only [Except.ok.injEq,forall_eq']
        exact applySettings_allOrNothing_iff st nodes verify calls

/-- A started server with nothing saved. -/
def started : Server := ⟨{ Http.fresh with initialized := true },none⟩

/-- No file can be read, and every write succeeds. -/
def noFiles : Calls where
  bundle := fun _ => ⟨[],⟨false,none,false,fun _ => 0⟩,0,0⟩
  write := ⟨true,fun _ => 512⟩

/-- The bundle is refused, the request fails, and verification is off. -/
theorem handleApiSettings_failed_changes_mode :
    let served := handleApiSettings plainSdk started (bytes "POST")
      (some (bytes "\x7b\"ssl_verify\": false, \"ca_bundle\": \"\"\x7d")) noFiles
    started.http.sslVerifyMode = .on ∧ served.status = false ∧
      served.state.http.sslVerifyMode = .off ∧ ¬ AllOrNothing started served := by
  have h : started.http.sslVerifyMode = .on ∧
      (handleApiSettings plainSdk started (bytes "POST")
        (some (bytes "\x7b\"ssl_verify\": false, \"ca_bundle\": \"\"\x7d")) noFiles).status = false ∧
      (handleApiSettings plainSdk started (bytes "POST")
        (some (bytes "\x7b\"ssl_verify\": false, \"ca_bundle\": \"\"\x7d"))
        noFiles).state.http.sslVerifyMode = .off := by decide +kernel
  refine ⟨h.1,h.2.1,h.2.2,fun hall => ?_⟩
  have hsame := (hall h.2.1).1
  rw [h.1,h.2.2] at hsame
  exact absurd hsame (by decide)

end Settings
end RemotePkgInstaller
