import RemotePkgInstaller.Runs
import RemotePkgInstaller.SavedSettings
import RemotePkgInstaller.Settings

/-! Sequences of settings requests to a server that may be restarted: whether the saved
file and the settings in memory stay in step. -/
namespace RemotePkgInstaller
namespace SettingsRuns

open HttpState HttpText JsonText Requests Runs SavedSettings Settings TinyJson Util

/-- What does not change while the server runs: the console's conversions, the files,
apart from the config file and all the paths that name it, and libhttp's verdict on a
bundle. -/
structure World where
  sdk : TextSdk
  namesConfig : Bytes → Bool
  other : Bytes → Option Bytes
  loadCert : Bytes → ℤ

/-- One request, with the outcomes of its calls that are not the world's. -/
structure Request where
  method : Bytes
  inData : Option Bytes
  unloadCert : ℤ
  write : WriteCalls

/-- A file that is there is read in full. -/
def readCalls : Option Bytes → ReadCalls
  | none => ⟨false,none,false,fun _ => 0⟩
  | some content => ReadCalls.whole content

variable (w : World)

def World.file (config : Option Bytes) (path : Bytes) : Option Bytes :=
  if w.namesConfig path then config else w.other path

def World.bundleCalls (config : Option Bytes) (unloadCert : ℤ) (path : Bytes) : BundleCalls where
  content := (w.file config path).getD []
  read := readCalls (w.file config path)
  unloadCert := unloadCert
  loadCert := w.loadCert ((w.file config path).getD [])

/-- The bundle at a path. -/
def World.bundleAt (config : Option Bytes) (path : Bytes) : Option Bytes :=
  if path = [] then none else (w.bundleCalls config 0 path).bundle

/-- The calls behind a request. -/
def calls (st : Server) (r : Request) : Calls := ⟨w.bundleCalls st.config r.unloadCert,r.write⟩

def serve (st : Server) (r : Request) : Served :=
  handleApiSettings w.sdk st r.method r.inData (calls w st r)

def step (st : Server) (r : Request) : Server := (serve w st r).state

/-- What a server that starts finds in the config file and at the path it names. -/
def restart (config : Option Bytes) : Http :=
  (httpInit Http.fresh ⟨true,0,0,config.getD [],readCalls config,w.bundleCalls config 0⟩).1

/-- The mode that a request carries. -/
def carriedMode (nodes : List Node) : Option SslVerifyMode :=
  (rootProperty nodes (bytes "ssl_verify")).map fun field => sslVerifyMode (jsonGetBoolean field)

/-- The text of a field, as the client wrote it. -/
def sentValue (field : Node) : Option Bytes :=
  match field.u with
  | .value ptr _ => (literal? ptr).bind fun r => meaning? r.1
  | .container _ _ => none

/-- The path that a request carries. -/
def carriedPath (nodes : List Node) : Option Bytes :=
  (rootProperty nodes (bytes "ca_bundle")).bind sentValue

/-- The settings in memory are those that a restart finds. -/
def InStep (st : Server) : Prop :=
  st.http.sslVerifyMode = (restart w st.config).sslVerifyMode ∧
    st.http.caBundlePath = (restart w st.config).caBundlePath ∧
    st.http.loadedBundle = (restart w st.config).loadedBundle

/-- The nodes of a request's payload. -/
def requestNodes (r : Request) : Option (List Node) :=
  r.inData.bind fun data => jsonCreate data jsonPoolSize

/-- After a request that is answered with success, the fields it carried have replaced
those in memory, and a restart changes nothing. -/
def SurvivesRestart (st : Server) (r : Request) : Prop :=
  (serve w st r).status = true →
    (step w st r).http.sslVerifyMode =
      ((requestNodes r).bind carriedMode).getD st.http.sslVerifyMode ∧
    (step w st r).http.caBundlePath.val =
      ((requestNodes r).bind carriedPath).getD st.http.caBundlePath.val ∧
    InStep w (step w st r)

/-- A path that is sent as it will be stored. -/
def SentWhole (data : Bytes) (field : Node) : Prop :=
  ∃ items v, SentText data field items v ∧ v.length < pathSize ∧ PlainItems items

/-- The request does not fail halfway, libhttp refuses no bundle while one is in force,
and a bundle that is loaded is at a path that can be stored and is not the config file. -/
structure SafeRequest (st : Server) (r : Request) : Prop where
  keeps : KeepsSettings w.sdk st r.method r.inData (calls w st r)
  refused : ∀ nodes field, requestNodes r = some nodes →
    rootProperty nodes (bytes "ca_bundle") = some field →
    ((calls w st r).bundle (jsonGetValue field)).Refused → st.http.loadedBundle = none
  path : ∀ nodes, requestNodes r = some nodes → NamesGoodBundle st.http nodes (calls w st r) →
    w.namesConfig (requestedPath st.http nodes).val = false
  sent : ∀ data nodes field, r.inData = some data → requestNodes r = some nodes →
    NamesGoodBundle st.http nodes (calls w st r) →
    rootProperty nodes (bytes "ca_bundle") = some field → SentWhole data field

/-- What holds between requests. -/
structure Settled (st : Server) : Prop where
  initialized : st.http.initialized = true
  text : ∀ c ∈ st.http.caBundlePath.val, isTextByte c = true
  inStep : InStep w st

section Restart

theorem readConfig_initialized (st : Http) (nodes : List Node) :
    (readConfig st nodes).initialized = st.initialized := by
  unfold readConfig httpSetSslVerify
  repeat' split
  all_goals rfl

/-- The path is that of the config file, if there is one and it is a text. -/
theorem readConfig_path (st : Http) (nodes : List Node) :
    (readConfig st nodes).caBundlePath = st.caBundlePath ∨
      ∃ field, rootProperty nodes (bytes "ca_bundle") = some field ∧ field.type = .text ∧
        (readConfig st nodes).caBundlePath = PathBuffer.copy (jsonGetValue field) := by
  unfold readConfig
  cases hf : rootProperty nodes (bytes "ca_bundle") with
  | none =>
    left
    dsimp only
    split
    · split_ifs <;> rfl
    · rfl
  | some field =>
    by_cases ht : field.type = .text
    · exact Or.inr ⟨field,rfl,ht,by simp only [jsonGetType,ht,if_true]⟩
    · left
      dsimp only
      rw [if_neg (show ¬ jsonGetType field = .text from ht)]
      split
      · split_ifs <;> rfl
      · rfl

theorem readConfig_loadedBundle (st : Http) (nodes : List Node) :
    (readConfig st nodes).loadedBundle = st.loadedBundle := by
  unfold readConfig httpSetSslVerify
  repeat' split
  all_goals rfl

theorem httpLoadConfig_cases (st : Http) (content : Bytes) (io : ReadCalls) :
    (httpLoadConfig st content io).1 = st ∨
      ∃ text nodes, jsonCreate text poolSize = some nodes ∧
        (httpLoadConfig st content io).1 = readConfig st nodes := by
  unfold httpLoadConfig
  cases readTextFile content io configMaxSize with
  | none => exact Or.inl rfl
  | some text =>
    cases hc : jsonCreate text poolSize with
    | none => exact Or.inl (by simp only [hc])
    | some nodes => exact Or.inr ⟨text,nodes,hc,by simp only [hc]⟩

/-- The state in which a starting server loads its bundle. -/
def configured (config : Option Bytes) : Http :=
  (httpLoadConfig { Http.fresh with initialized := true } (config.getD []) (readCalls config)).1

theorem configured_initialized (config : Option Bytes) : (configured config).initialized = true := by
  rcases httpLoadConfig_cases { Http.fresh with initialized := true } (config.getD [])
    (readCalls config) with h | ⟨text,nodes,_,h⟩
  · rw [configured,h]
  · rw [configured,h,readConfig_initialized]

theorem configured_loadedBundle (config : Option Bytes) : (configured config).loadedBundle = none := by
  rcases httpLoadConfig_cases { Http.fresh with initialized := true } (config.getD [])
    (readCalls config) with h | ⟨text,nodes,_,h⟩
  · rw [configured,h]
    rfl
  · rw [configured,h,readConfig_loadedBundle]
    rfl

/-- A text of a document holds nothing but bytes a JSON string can hold. -/
theorem isTextByte_of_text {str : Bytes} {qty : ℕ} {nodes : List Node} {field : Node}
    (h : jsonCreate str qty = some nodes) (hf : field ∈ nodes) (ht : field.type = .text) :
    ∀ c ∈ jsonGetValue field, isTextByte c = true := by
  obtain ⟨ptr,items,rest,_,hl,hu⟩ := (document h).text_value hf ht
  intro c hc
  rw [jsonGetValue,hu] at hc
  obtain ⟨item,hitem,rfl⟩ := List.mem_map.mp hc
  cases item with
  | byte c => exact literal?_isTextByte hl c hitem
  | unicode u => exact (by decide : isTextByte 0x3f = true)

theorem isTextByte_of_copy {path : Bytes} (h : ∀ c ∈ path, isTextByte c = true) :
    ∀ c ∈ (PathBuffer.copy path).val, isTextByte c = true :=
  fun c hc => h c (mem_of_mem_strlcpy hc)

theorem configured_text (config : Option Bytes) :
    ∀ c ∈ (configured config).caBundlePath.val, isTextByte c = true := by
  have hfresh : ∀ c ∈ Http.fresh.caBundlePath.val, isTextByte c = true := by decide +kernel
  rcases httpLoadConfig_cases { Http.fresh with initialized := true } (config.getD [])
    (readCalls config) with h | ⟨text,nodes,hc,h⟩
  · rw [configured,h]
    exact hfresh
  · rw [configured,h]
    rcases readConfig_path { Http.fresh with initialized := true } nodes with
      hp | ⟨field,hf,ht,hp⟩
    · rw [hp]
      exact hfresh
    · rw [hp]
      exact isTextByte_of_copy (isTextByte_of_text hc (mem_of_jsonGetProperty hf) ht)

/-- A starting server has the settings of the config file, and the bundle they name. -/
theorem restart_eq (config : Option Bytes) :
    (restart w config).initialized = true ∧
    (restart w config).sslVerifyMode = (configured config).sslVerifyMode ∧
    (restart w config).caBundlePath = (configured config).caBundlePath ∧
    (restart w config).loadedBundle = w.bundleAt config (configured config).caBundlePath.val := by
  have hinit := configured_initialized config
  have hnone := configured_loadedBundle config
  have hb := httpLoadCaBundle_loadedBundle (configured config) (configured config).caBundlePath.val
    (w.bundleCalls config 0 (configured config).caBundlePath.val) (Or.inr hnone)
  have hp := httpLoadCaBundle_path (configured config) (configured config).caBundlePath.val
    (w.bundleCalls config 0 (configured config).caBundlePath.val)
  obtain ⟨loaded,hloaded⟩ : ∃ loaded, loaded = httpLoadCaBundle (configured config)
    (configured config).caBundlePath.val
    (w.bundleCalls config 0 (configured config).caBundlePath.val) := ⟨_,rfl⟩
  have hrestart : restart w config = if loaded.2 then loaded.1 else httpClearLastError loaded.1 := by
    rw [hloaded]
    rfl
  have hkeep : (restart w config).initialized = loaded.1.initialized ∧
      (restart w config).sslVerifyMode = loaded.1.sslVerifyMode ∧
      (restart w config).caBundlePath = loaded.1.caBundlePath ∧
      (restart w config).loadedBundle = loaded.1.loadedBundle := by
    rw [hrestart]
    split_ifs <;> exact ⟨rfl,rfl,rfl,rfl⟩
  obtain ⟨h1,h2,h3,h4⟩ := hkeep
  refine ⟨?_,?_,?_,?_⟩
  · rw [h1,hloaded,httpLoadCaBundle_initialized,hinit]
  · rw [h2,hloaded,httpLoadCaBundle_sslVerifyMode]
  · rw [h3,hloaded,hp,PathBuffer.copy_val,ite_self]
  · rw [h4,hloaded,hb,hnone,Option.or_none,World.bundleAt]
    by_cases hpath : (configured config).caBundlePath.val = [] <;> simp [hinit,hpath]

theorem settled_restart (config : Option Bytes) : Settled w ⟨restart w config,config⟩ where
  initialized := (restart_eq w config).1
  text := by
    rw [(restart_eq w config).2.2.1]
    exact configured_text config
  inStep := ⟨rfl,rfl,rfl⟩

/-- In step means: the settings of the file, and the bundle at the stored path. -/
theorem inStep_iff (st : Server) :
    InStep w st ↔ st.http.sslVerifyMode = (configured st.config).sslVerifyMode ∧
      st.http.caBundlePath = (configured st.config).caBundlePath ∧
      st.http.loadedBundle = w.bundleAt st.config st.http.caBundlePath.val := by
  obtain ⟨_,hm,hp,hb⟩ := restart_eq w st.config
  rw [InStep,hm,hp,hb]
  constructor
  · rintro ⟨h1,h2,h3⟩
    exact ⟨h1,h2,h2 ▸ h3⟩
  · rintro ⟨h1,h2,h3⟩
    exact ⟨h1,h2,h2 ▸ h3⟩

/-- The config file matters to no bundle but the one at its own path. -/
theorem bundleAt_congr {path : Bytes} (h : w.namesConfig path = false) (config config' : Option Bytes) :
    w.bundleAt config path = w.bundleAt config' path := by
  simp only [World.bundleAt,World.bundleCalls,World.file,h,Bool.false_eq_true,if_false]

end Restart

section Step

variable {w} {st : Server} {r : Request} {nodes : List Node} {verify : Bool}

/-- After the part on the bundle, the bundle in force is the one at the stored path. -/
theorem takeCaBundle_inForce (hs : Settled w st)
    (hrefused : ∀ field, rootProperty nodes (bytes "ca_bundle") = some field →
      ((calls w st r).bundle (jsonGetValue field)).Refused → st.http.loadedBundle = none)
    (hwhole : (takeCaBundle w.sdk (withVerify st.http verify) nodes (calls w st r)).2 = none →
      ∀ field, rootProperty nodes (bytes "ca_bundle") = some field →
        (PathBuffer.copy (jsonGetValue field)).val = jsonGetValue field) :
    (takeCaBundle w.sdk (withVerify st.http verify) nodes (calls w st r)).1.loadedBundle =
      w.bundleAt st.config
        (takeCaBundle w.sdk (withVerify st.http verify) nodes (calls w st r)).1.caBundlePath.val := by
  have hforce : (withVerify st.http verify).loadedBundle =
      w.bundleAt st.config (withVerify st.http verify).caBundlePath.val :=
    ((inStep_iff w st).mp hs.inStep).2.2
  have hinit : (withVerify st.http verify).initialized = true := hs.initialized
  rcases takeCaBundle_cases w.sdk (withVerify st.http verify) nodes (calls w st r) with
    ⟨_,he⟩ | ⟨_,_,_,_,he⟩ | ⟨field,reply?,hf,_,he,hreply⟩
  · rw [he]
    exact hforce
  · rw [he]
    exact hforce
  · rw [he] at hwhole ⊢
    obtain ⟨path,hpath⟩ : ∃ path, path = jsonGetValue field := ⟨_,rfl⟩
    have hfree : ¬ ((calls w st r).bundle path).Refused ∨
        (withVerify st.http verify).loadedBundle = none := by
      by_cases h : ((calls w st r).bundle path).Refused
      · exact Or.inr (hrefused field hf (hpath ▸ h))
      · exact Or.inl h
    have hloaded := httpLoadCaBundle_loadedBundle _ path _ hfree
    have hstored := httpLoadCaBundle_path (withVerify st.http verify) path ((calls w st r).bundle path)
    have hstatus := httpLoadCaBundle_status (withVerify st.http verify) path
      ((calls w st r).bundle path)
    rw [← hpath] at hwhole hreply ⊢
    have hbundle : path ≠ [] → ((calls w st r).bundle path).bundle = w.bundleAt st.config path := by
      intro hne
      rw [World.bundleAt,if_neg hne]
      rfl
    dsimp only at hwhole ⊢
    rw [hloaded,hstored]
    by_cases hl : (httpLoadCaBundle (withVerify st.http verify) path
        ((calls w st r).bundle path)).2 = true
    · obtain ⟨_,hne,htaken⟩ := hstatus.mp hl
      have hsome : ((calls w st r).bundle path).bundle ≠ none := fun h =>
        BundleCalls.bundle_eq_none_iff.mp h htaken
      rw [if_pos ⟨hinit,hne⟩,if_pos hl,hpath,hwhole (hreply.mpr hl) field hf,← hpath,← hbundle hne]
      exact Option.or_of_isSome (Option.isSome_iff_ne_none.mpr hsome)
    · rw [if_neg hl,← hforce]
      split_ifs with hne
      · have hnone : ((calls w st r).bundle path).bundle = none :=
          BundleCalls.bundle_eq_none_iff.mpr fun h => hl (hstatus.mpr ⟨hinit,hne.2,h⟩)
        rw [hnone,Option.none_or]
      · rfl

theorem requestNodes_eq (hparse : requestParse (st.http.text w.sdk) r.inData = .ok nodes) :
    requestNodes r = some nodes := requestParse_eq_ok.mp hparse

/-- A path that is sent whole is stored as it was sent. -/
theorem sentWhole_value {data : Bytes} {field : Node} (hdata : r.inData = some data)
    (hnodes : requestNodes r = some nodes) (hf : field ∈ nodes) (h : SentWhole data field) :
    (PathBuffer.copy (jsonGetValue field)).val = jsonGetValue field ∧
      sentValue field = some (jsonGetValue field) := by
  obtain ⟨items,v,hsent,hlen,hplain⟩ := h
  have hcreate : jsonCreate data jsonPoolSize = some nodes := by
    simpa [requestNodes,hdata] using hnodes
  have hval := hsent.value_eq hcreate hf
  have hcopy : strlcpy (flatten 0x3f items) pathSize = v :=
    (strlcpy_flatten_eq_iff (by decide) hsent.meaning).mpr ⟨hlen,hplain⟩
  have hshort : (flatten 0x3f items).length < pathSize := by
    rw [flatten_length]
    exact (length_le_meaning hsent.meaning).trans_lt hlen
  rw [strlcpy_eq_self hshort] at hcopy
  obtain ⟨ptr,s,rest,hu,_,hl⟩ := hsent.literal
  refine ⟨?_,?_⟩
  · rw [hval]
    exact strlcpy_eq_self hshort
  · rw [hval,hcopy,sentValue,hu]
    simp only [hl,Option.bind_some,hsent.meaning]

/-- The mode that is set is the one carried, if any. -/
theorem requestVerify_mode (h : requestVerify w.sdk st nodes = .ok verify) :
    sslVerifyMode verify = (carriedMode nodes).getD st.http.sslVerifyMode := by
  rcases requestBoolOpt_eq_ok.mp h with ⟨hnone,rfl⟩ | ⟨field,hf,_,rfl⟩
  · rw [carriedMode,hnone]
    cases st.http.sslVerifyMode <;> rfl
  · rw [carriedMode,hf]
    rfl

theorem requestedPath_text (hs : Settled w st) (hnodes : requestNodes r = some nodes)
    (htext : ∀ field, rootProperty nodes (bytes "ca_bundle") = some field → field.type = .text) :
    ∀ c ∈ (requestedPath st.http nodes).val, isTextByte c = true := by
  unfold requestedPath
  cases hf : rootProperty nodes (bytes "ca_bundle") with
  | none => exact hs.text
  | some field =>
    obtain ⟨data,_,hcreate⟩ := Option.bind_eq_some_iff.mp hnodes
    exact isTextByte_of_copy (isTextByte_of_text hcreate (mem_of_jsonGetProperty hf) (htext field hf))

/-- A server whose settings have not changed is settled when its bundle is the one at the
stored path. -/
theorem settled_of_same {st' : Server} (hs : Settled w st) (hsame : SameSettings st st')
    (hinit : st'.http.initialized = true)
    (hforce : st'.http.loadedBundle = w.bundleAt st'.config st'.http.caBundlePath.val) :
    Settled w st' := by
  obtain ⟨hmode,hpath,hconfig⟩ := hsame
  obtain ⟨h1,h2,_⟩ := (inStep_iff w st).mp hs.inStep
  refine ⟨hinit,hpath ▸ hs.text,(inStep_iff w st').mpr ⟨?_,?_,hforce⟩⟩
  · rw [hmode,hconfig,h1]
  · rw [hpath,hconfig,h2]

/-- A server that has saved its settings is settled when its bundle is the one at the
stored path. -/
theorem settled_of_saved {http : Http} {config : Option Bytes} {io : WriteCalls}
    (hsdk : w.sdk.StandardEscape) (hinit : http.initialized = true)
    (htext : ∀ c ∈ http.caBundlePath.val, isTextByte c = true)
    (hname : w.namesConfig http.caBundlePath.val = false)
    (hforce : http.loadedBundle = w.bundleAt config http.caBundlePath.val)
    (hsaved : (httpSaveConfig http w.sdk config io).2 = true) :
    Settled w ⟨http,(httpSaveConfig http w.sdk config io).1⟩ := by
  obtain ⟨text,hfile,hload⟩ := httpLoadConfig_httpSaveConfig hinit hsdk htext hsaved
  have hconfigured : configured (some text) = { { Http.fresh with initialized := true } with
      sslVerifyMode := http.sslVerifyMode
      caBundlePath := http.caBundlePath } := congrArg Prod.fst (hload _ _ (WholeFiles.inFull_whole text))
  rw [hfile]
  refine ⟨hinit,htext,(inStep_iff w _).mpr ⟨?_,?_,?_⟩⟩
  · rw [hconfigured]
  · rw [hconfigured]
  · exact hforce.trans (bundleAt_congr w hname _ _)

/-- Applying the settings of a safe request settles the server again. -/
theorem settled_of_applied (hs : Settled w st) (hsafe : SafeRequest w st r)
    (hsdk : w.sdk.StandardEscape) (hnodes : requestNodes r = some nodes)
    (hall : AllOrNothing st (applySettings w.sdk st nodes verify (calls w st r))) :
    Settled w (applySettings w.sdk st nodes verify (calls w st r)).state := by
  have hgood : (takeCaBundle w.sdk (withVerify st.http verify) nodes (calls w st r)).2 = none ↔
      NamesGoodBundle st.http nodes (calls w st r) := takeCaBundle_status
  have hinit := @takeCaBundle_initialized w.sdk (withVerify st.http verify) nodes (calls w st r)
  have hpath := @takeCaBundle_path w.sdk (withVerify st.http verify) nodes (calls w st r)
  have hforce := @takeCaBundle_inForce w st r nodes verify hs
    (fun field hf hr => hsafe.refused nodes field hnodes hf hr) (fun htaken field hf => by
      obtain ⟨data,hdata,_⟩ := Option.bind_eq_some_iff.mp hnodes
      exact (sentWhole_value hdata hnodes (mem_of_jsonGetProperty hf)
        (hsafe.sent data nodes field hdata hnodes (hgood.mp htaken) hf)).1)
  cases htaken : (takeCaBundle w.sdk (withVerify st.http verify) nodes (calls w st r)).2 with
  | some reply =>
    rw [applySettings_of_failed htaken] at hall ⊢
    exact settled_of_same hs (hall rfl) (hinit.trans hs.initialized) hforce
  | none =>
    rw [applySettings_of_taken htaken] at hall ⊢
    have hgood := hgood.mp htaken
    have hstate := @saveSettings_state w.sdk
      (takeCaBundle w.sdk (withVerify st.http verify) nodes (calls w st r)).1 (calls w st r) st.config
    rw [AllOrNothing,hstate.1,hstate.2] at hall
    rw [hstate.1]
    rw [if_pos htaken] at hpath
    cases hsaved : (httpSaveConfig
        (takeCaBundle w.sdk (withVerify st.http verify) nodes (calls w st r)).1 w.sdk st.config
        (calls w st r).write).2 with
    | false =>
      have hsame := hall hsaved
      refine settled_of_same hs hsame (hinit.trans hs.initialized) ?_
      rw [hsame.2.2]
      exact hforce
    | true =>
      refine settled_of_saved hsdk (hinit.trans hs.initialized) ?_ ?_ hforce hsaved
      · rw [hpath]
        exact requestedPath_text hs hnodes fun field hf => (hgood field hf).1
      · rw [hpath]
        exact hsafe.path nodes hnodes hgood

/-- What a safe request puts into memory when it succeeds. -/
theorem applySettings_carried (hsafe : SafeRequest w st r) (hnodes : requestNodes r = some nodes)
    (hverify : requestVerify w.sdk st nodes = .ok verify)
    (h : (applySettings w.sdk st nodes verify (calls w st r)).status = true) :
    (applySettings w.sdk st nodes verify (calls w st r)).state.http.sslVerifyMode =
        (carriedMode nodes).getD st.http.sslVerifyMode ∧
      (applySettings w.sdk st nodes verify (calls w st r)).state.http.caBundlePath.val =
        (carriedPath nodes).getD st.http.caBundlePath.val := by
  cases htaken : (takeCaBundle w.sdk (withVerify st.http verify) nodes (calls w st r)).2 with
  | some reply =>
    rw [applySettings_of_failed htaken] at h
    exact absurd h (by simp)
  | none =>
    have hstatus : (takeCaBundle w.sdk (withVerify st.http verify) nodes (calls w st r)).2 = none ↔
        NamesGoodBundle st.http nodes (calls w st r) := takeCaBundle_status
    have hgood := hstatus.mp htaken
    have hpath := @takeCaBundle_path w.sdk (withVerify st.http verify) nodes (calls w st r)
    rw [applySettings_of_taken htaken,(saveSettings_state _).1]
    refine ⟨?_,?_⟩
    · rw [takeCaBundle_sslVerifyMode]
      exact requestVerify_mode hverify
    · rw [hpath,if_pos htaken]
      unfold requestedPath carriedPath
      cases hf : rootProperty nodes (bytes "ca_bundle") with
      | none => rfl
      | some field =>
        obtain ⟨data,hdata,_⟩ := Option.bind_eq_some_iff.mp hnodes
        obtain ⟨hcopy,hsent⟩ := sentWhole_value hdata hnodes (mem_of_jsonGetProperty hf)
          (hsafe.sent data nodes field hdata hnodes hgood hf)
        rw [Option.bind_some,hsent]
        exact hcopy

/-- A safe request leaves a settled server settled, and survives a restart. -/
theorem step_settled (hsdk : w.sdk.StandardEscape) (hs : Settled w st) (hsafe : SafeRequest w st r) :
    Settled w (step w st r) ∧ SurvivesRestart w st r := by
  unfold SurvivesRestart step serve
  rcases handleApiSettings_cases w.sdk st r.method r.inData (calls w st r) with
    ⟨hreport,he⟩ | ⟨reply,he⟩ | ⟨nodes,verify,hreport,hparse,hverify,he⟩
  · have hnodes : requestNodes r = none := by
      have hempty := hreport.2
      cases hd : r.inData with
      | none => simp [requestNodes,hd]
      | some data =>
        rw [hd,Option.getD_some] at hempty
        simp [requestNodes,hd,jsonCreate,hempty,goBlank]
    rw [he,hnodes]
    exact ⟨hs,fun _ => ⟨rfl,rfl,hs.inStep⟩⟩
  · rw [he]
    exact ⟨hs,fun h => absurd h (by simp)⟩
  · have hnodes := requestNodes_eq hparse
    have hall : AllOrNothing st (applySettings w.sdk st nodes verify (calls w st r)) :=
      (applySettings_allOrNothing_iff _ _ _ _).mpr
        (hsafe.keeps.resolve_left hreport nodes hparse verify hverify)
    have hsettled := settled_of_applied hs hsafe hsdk hnodes hall
    rw [he,hnodes]
    refine ⟨hsettled,fun hstatus => ?_⟩
    obtain ⟨hmode,hpath⟩ := applySettings_carried hsafe hnodes hverify hstatus
    exact ⟨hmode,hpath,hsettled.inStep⟩

end Step

/-- In a run of safe requests to a server that has just started, each request that is
answered with success survives a restart. -/
theorem along_survivesRestart (hsdk : w.sdk.StandardEscape) (config : Option Bytes)
    {requests : List Request}
    (h : Along (step w) (SafeRequest w) requests ⟨restart w config,config⟩) :
    Along (step w) (SurvivesRestart w) requests ⟨restart w config,config⟩ := by
  have hkeep : ∀ st r, Settled w st → SafeRequest w st r → Settled w (step w st r) :=
    fun st r hs hsafe => (step_settled hsdk hs hsafe).1
  have hdo : ∀ st r, Settled w st → SafeRequest w st r → SurvivesRestart w st r :=
    fun st r hs hsafe => (step_settled hsdk hs hsafe).2
  exact along_of_invariant hkeep hdo h (settled_restart w config)

/-- A console with one bundle in a file of its own, which libhttp takes. -/
def oneBundle (path : Bytes) : World where
  sdk := plainSdk
  namesConfig := fun p => p = httpConfigPath
  other := fun p => if p = path then some (bytes "PEM") else none
  loadCert := fun _ => 0

/-- A request whose writes all succeed. -/
def plainRequest (method : Bytes) (inData : Option Bytes) : Request :=
  ⟨method,inData,0,⟨true,fun _ => 512⟩⟩

def bothFields : Request := plainRequest (bytes "POST") (some (configText .off (bytes "/b")))

theorem bothFields_nodes : requestNodes bothFields = some (configNodes .off (bytes "/b")) := by
  decide +kernel

theorem bothFields_safe :
    SafeRequest (oneBundle (bytes "/b")) ⟨restart (oneBundle (bytes "/b")) none,none⟩ bothFields := by
  have hpath : (requestedPath (restart (oneBundle (bytes "/b")) none)
      (configNodes .off (bytes "/b"))).val = bytes "/b" := by decide +kernel
  refine ⟨keepsSettings_of_status (by decide +kernel),?_,?_,?_⟩
  · intro _ _ _ _ hrefused
    exact absurd rfl hrefused.2
  · intro nodes hnodes _
    rw [bothFields_nodes] at hnodes
    injection hnodes with hnodes
    rw [← hnodes,hpath]
    decide
  · intro data nodes field hdata hnodes _ hfield
    rw [bothFields_nodes] at hnodes
    injection hnodes with hnodes
    injection hdata with hdata
    have hbundle : rootProperty (configNodes .off (bytes "/b")) (bytes "ca_bundle") =
        some (bundleNode (bytes "/b")) := by decide +kernel
    rw [← hnodes,hbundle] at hfield
    injection hfield with hfield
    subst hfield hdata
    have hliteral : literal? (bytes "/b\" \x7d\n") = some ([.byte 0x2f,.byte 0x62],bytes " \x7d\n") := by
      decide +kernel
    have hsuffix : bytes "/b\" \x7d\n" <:+ cstr (configText .off (bytes "/b")) := by decide +kernel
    exact ⟨[.byte 0x2f,.byte 0x62],bytes "/b",⟨rfl,⟨_,_,_,rfl,hsuffix,hliteral⟩,by decide⟩,
      by decide,by simp [PlainItems]⟩

theorem along_survivesRestart_example :
    Along (step (oneBundle (bytes "/b"))) (SurvivesRestart (oneBundle (bytes "/b"))) [bothFields]
      ⟨restart (oneBundle (bytes "/b")) none,none⟩ :=
  along_survivesRestart _ plainSdk_standardEscape none ⟨bothFields_safe,trivial⟩

def longPath : Bytes := 0x2f::List.replicate 255 0x61

def longPathRequest : Request := plainRequest (bytes "POST")
  (some (bytes "\x7b\"ca_bundle\":\""++longPath++bytes "\"\x7d"))

/-- The bundle is loaded from a path that is one byte too long to be stored. -/
theorem longPath_lost :
    (serve (oneBundle longPath) ⟨restart (oneBundle longPath) none,none⟩ longPathRequest).status =
      true ∧
    (requestNodes longPathRequest).bind carriedPath = some longPath ∧
    (step (oneBundle longPath) ⟨restart (oneBundle longPath) none,none⟩
      longPathRequest).http.caBundlePath.val = 0x2f::List.replicate 254 0x61 ∧
    ¬ SurvivesRestart (oneBundle longPath) ⟨restart (oneBundle longPath) none,none⟩
      longPathRequest := by
  have hstatus : (serve (oneBundle longPath) ⟨restart (oneBundle longPath) none,none⟩
      longPathRequest).status = true := by decide +kernel
  have hcarried : (requestNodes longPathRequest).bind carriedPath = some longPath := by
    decide +kernel
  have hstored : (step (oneBundle longPath) ⟨restart (oneBundle longPath) none,none⟩
      longPathRequest).http.caBundlePath.val = 0x2f::List.replicate 254 0x61 := by decide +kernel
  refine ⟨hstatus,hcarried,hstored,fun h => ?_⟩
  have hpath := (h hstatus).2.1
  rw [hstored,hcarried] at hpath
  exact absurd hpath (by decide +kernel)

end SettingsRuns
end RemotePkgInstaller
