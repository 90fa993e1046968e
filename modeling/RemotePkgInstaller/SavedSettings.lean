import RemotePkgInstaller.HttpState
import RemotePkgInstaller.JsonSteps
import RemotePkgInstaller.WholeFiles

/-! The config file: what is saved there is what is read back. -/
namespace RemotePkgInstaller
namespace SavedSettings

open HttpState HttpText JsonText Requests TinyJson Util WholeFiles

def verifyNode (mode : SslVerifyMode) (path : Bytes) : Node :=
  ⟨some 2,some (bytes "ssl_verify"),.value (boolText (mode = .on)++bytes ", \"ca_bundle\": \""++
    (escape path++bytes "\" \x7d\n")) (boolText (mode = .on)),.boolean⟩

def bundleNode (path : Bytes) : Node :=
  ⟨none,some (bytes "ca_bundle"),.value (escape path++bytes "\" \x7d\n") path,.text⟩

/-- The nodes of a saved text. -/
def configNodes (mode : SslVerifyMode) (path : Bytes) : List Node :=
  [⟨none,none,.container (some 1) (some 2),.obj⟩,verifyNode mode path,bundleNode path]

theorem ne_zero_of_isTextByte {c : UInt8} (h : isTextByte c = true) : c ≠ 0 := by
  rintro rfl
  simp [isTextByte] at h

theorem escape_ne_zero {s : Bytes} (hs : ∀ c ∈ s, isTextByte c = true) : ∀ c ∈ escape s, c ≠ 0 := by
  intro c hc
  obtain ⟨d,hd,hcd⟩ := List.mem_flatMap.mp hc
  have hne := ne_zero_of_isTextByte (hs d hd)
  unfold escapeByte at hcd
  split_ifs at hcd
  all_goals
    simp only [List.mem_cons,List.not_mem_nil,or_false] at hcd
    rcases hcd with rfl | rfl <;> first | decide | exact hne

theorem scalarValue_boolText (b : Bool) (rest : Bytes) :
    scalarValue (boolText b++0x2c::rest) =
      some (.boolean,.value (boolText b++0x2c::rest) (boolText b),rest) := by
  cases b <;> rfl

theorem boolText_head (b : Bool) : ∃ c s, boolText b = c::s ∧ isBlank c = false ∧
    c ≠ 0x7b ∧ c ≠ 0x5b := by
  cases b
  · exact ⟨0x66,bytes "alse",rfl,by decide,by decide,by decide⟩
  · exact ⟨0x74,bytes "rue",rfl,by decide,by decide,by decide⟩

theorem goBlank_blank (c : UInt8) (s : Bytes) (hc : isBlank c = false) :
    goBlank (0x20::c::s) = some (c::s) := by
  simp [goBlank,show isBlank 0x20 = true by decide,hc]

theorem configText_ne_zero (mode : SslVerifyMode) {path : Bytes}
    (hp : ∀ c ∈ path, isTextByte c = true) : ∀ c ∈ configText mode (escape path), c ≠ 0 := by
  have hne : ∀ {l : Bytes}, (0 : UInt8) ∉ l → ∀ c ∈ l, c ≠ 0 := by
    rintro l hl c hc rfl
    exact hl hc
  have hbool : ∀ b : Bool, (0 : UInt8) ∉ boolText b := by decide
  intro c hc
  simp only [configText,List.mem_append] at hc
  rcases hc with (((hc | hc) | hc) | hc) | hc
  · exact hne (by decide) c hc
  · exact hne (hbool _) c hc
  · exact hne (by decide) c hc
  · exact escape_ne_zero hp c hc
  · exact hne (by decide) c hc

/-- Two rounds read the properties, and one ends the object. -/
theorem jsonCreate_configText (mode : SslVerifyMode) {path : Bytes}
    (hp : ∀ c ∈ path, isTextByte c = true) :
    jsonCreate (configText mode (escape path)) poolSize = some (configNodes mode path) := by
  obtain ⟨verify,hverify⟩ : ∃ verify : Bool, verify = decide (mode = .on) := ⟨_,rfl⟩
  obtain ⟨c,s,hc,hblank,hbrace,hbracket⟩ := boolText_head verify
  have hopen : bytes "\x7b \"ssl_verify\": " =
      0x7b::0x20::0x22::(escape (bytes "ssl_verify")++[0x22,0x3a,0x20]) := by decide
  have hcomma : bytes ", \"ca_bundle\": \"" =
      0x2c::0x20::0x22::(escape (bytes "ca_bundle")++[0x22,0x3a,0x20,0x22]) := by decide
  have hclose : bytes "\" \x7d\n" = [0x22,0x20,0x7d,0x0a] := rfl
  obtain ⟨rest2,hrest2⟩ : ∃ rest2, rest2 = 0x20::0x22::(escape (bytes "ca_bundle")++
      0x22::0x3a::0x20::0x22::(escape path++[0x22,0x20,0x7d,0x0a])) := ⟨_,rfl⟩
  obtain ⟨rest1,hrest1⟩ : ∃ rest1, rest1 = 0x20::0x22::(escape (bytes "ssl_verify")++
      0x22::0x3a::0x20::(boolText verify++0x2c::rest2)) := ⟨_,rfl⟩
  have htext : configText mode (escape path) = 0x7b::rest1 := by
    simp only [configText,hopen,hcomma,hclose,← hverify,hrest1,hrest2,List.append_assoc,
      List.cons_append,List.nil_append]
  have hnodes : configNodes mode path =
      add (add [rootNode] 0 ⟨none,some (bytes "ssl_verify"),
        .value (boolText verify++0x2c::rest2) (boolText verify),.boolean⟩) 0
        ⟨none,some (bytes "ca_bundle"),.value (escape path++[0x22,0x20,0x7d,0x0a]) path,.text⟩ := by
    simp only [configNodes,verifyNode,bundleNode,hcomma,hclose,← hverify,hrest2,List.append_assoc,List.cons_append,
      List.nil_append]
    rfl
  have hfirst : objStep poolSize ⟨rest1,0,[rootNode]⟩ =
      .more ⟨rest2,0,add [rootNode] 0 ⟨none,some (bytes "ssl_verify"),
        .value (boolText verify++0x2c::rest2) (boolText verify),.boolean⟩⟩ := by
    refine objStep_scalar (by rw [hrest1]; exact goBlank_blank _ _ (by decide)) rfl rfl
      (show 1 < poolSize by decide) ?_ ?_ ?_ (scalarValue_boolText verify rest2)
    · rw [propertyName_escaped (List.all_eq_true.mp (by decide)),hc,List.cons_append,goBlank_blank _ _ hblank]
      rfl
    · simp [hc,hbrace]
    · simp [hc,hbracket]
  have hsecond : objStep poolSize ⟨rest2,0,add [rootNode] 0 ⟨none,some (bytes "ssl_verify"),
        .value (boolText verify++0x2c::rest2) (boolText verify),.boolean⟩⟩ =
      .more ⟨[0x20,0x7d,0x0a],0,configNodes mode path⟩ := by
    rw [hnodes]
    refine objStep_scalar (by rw [hrest2]; exact goBlank_blank _ _ (by decide)) rfl rfl
      (show 2 < poolSize by decide) ?_ (by simp) (by simp) (scalarValue_escaped hp [0x20,0x7d,0x0a])
    rw [propertyName_escaped (List.all_eq_true.mp (by decide)),goBlank_blank _ _ (by decide)]
    rfl
  have hthird : objStep poolSize ⟨[0x20,0x7d,0x0a],0,configNodes mode path⟩ =
      .done (configNodes mode path) := objStep_close rfl rfl rfl
  obtain ⟨fuel,hfuel⟩ : ∃ fuel, rest1.length = fuel+2 := by
    refine ⟨rest1.length-2,?_⟩
    rw [hrest1]
    simp only [List.length_cons]
    omega
  have hstart : goBlank (0x7b::rest1) = some (0x7b::rest1) := by
    simp [goBlank,show isBlank 0x7b = false by decide]
  rw [jsonCreate,cstr_eq_self (configText_ne_zero mode hp),htext,hstart]
  simp only [hfuel,objValue,hfirst,hsecond,hthird]

/-- The settings of a saved text are the saved ones. -/
theorem readConfig_configNodes (st : Http) (mode : SslVerifyMode) (path : PathBuffer) :
    readConfig st (configNodes mode path.val) =
      { st with sslVerifyMode := mode, caBundlePath := path } := by
  have hverify : rootProperty (configNodes mode path.val) (bytes "ssl_verify") =
      some (verifyNode mode path.val) := rfl
  have hbundle : rootProperty (configNodes mode path.val) (bytes "ca_bundle") =
      some (bundleNode path.val) := rfl
  have hmode : sslVerifyMode (jsonGetBoolean (verifyNode mode path.val)) = mode := by
    cases mode <;> rfl
  have hpath : PathBuffer.copy (jsonGetValue (bundleNode path.val)) = path := PathBuffer.copy_val path
  have htypes : jsonGetType (verifyNode mode path.val) = .boolean ∧
      jsonGetType (bundleNode path.val) = .text := ⟨rfl,rfl⟩
  simp only [readConfig,hverify,hbundle,htypes,if_true,hmode,hpath,httpSetSslVerify]

/-- Reading a saved text in full restores what was saved. -/
theorem httpLoadConfig_configText (st : Http) (mode : SslVerifyMode) (path : PathBuffer)
    {io : ReadCalls} (hp : ∀ c ∈ path.val, isTextByte c = true)
    (hfits : (configText mode (escape path.val)).length ≤ configMaxSize)
    (hread : InFull (configText mode (escape path.val)) io) :
    httpLoadConfig st (configText mode (escape path.val)) io =
      ({ st with sslVerifyMode := mode, caBundlePath := path },true) := by
  rw [httpLoadConfig,readTextFile_inFull hread hfits]
  simp only [jsonCreate_configText mode hp,readConfig_configNodes]

/-- A stored path never outgrows the buffer for its escaped form. -/
theorem configText?_eq {st : Http} {sdk : TextSdk} (hinit : st.initialized = true)
    (hsdk : sdk.StandardEscape) (hp : ∀ c ∈ st.caBundlePath.val, isTextByte c = true) :
    configText? st sdk =
      if 512 ≤ (configText st.sslVerifyMode (escape st.caBundlePath.val)).length then none
      else some (configText st.sslVerifyMode (escape st.caBundlePath.val)) := by
  have hlen : (escape st.caBundlePath.val).length < pathSize*2+1 := by
    have := escape_length_le st.caBundlePath.val
    have := st.caBundlePath.2
    omega
  have hescape : httpEscapeJsonString (st.text sdk) (pathSize*2+1) st.caBundlePath.val =
      some (escape st.caBundlePath.val) := by
    simp only [httpEscapeJsonString,Http.text,hinit,Bool.true_eq_false,if_false]
    exact hsdk _ _ hp hlen
  simp only [configText?,hescape]

/-- What is reported as saved is read back. -/
theorem httpLoadConfig_httpSaveConfig {st : Http} {sdk : TextSdk} (hinit : st.initialized = true)
    (hsdk : sdk.StandardEscape) (hp : ∀ c ∈ st.caBundlePath.val, isTextByte c = true)
    {config : Option Bytes} {io : WriteCalls} (h : (httpSaveConfig st sdk config io).2 = true) :
    ∃ text, (httpSaveConfig st sdk config io).1 = some text ∧
      ∀ (before : Http) (read : ReadCalls), InFull text read → httpLoadConfig before text read =
        ({ before with sslVerifyMode := st.sslVerifyMode, caBundlePath := st.caBundlePath },true) := by
  simp only [httpSaveConfig,configText?_eq hinit hsdk hp] at h ⊢
  split_ifs at h ⊢ with hfits
  have hmax : (configText st.sslVerifyMode (escape st.caBundlePath.val)).length ≤ configMaxSize := by
    unfold configMaxSize
    omega
  exact ⟨_,writeFileTrunc_complete h,fun before _ => httpLoadConfig_configText before _ _ hp hmax⟩

/-- Nothing is saved before libhttp is initialized. -/
theorem httpSaveConfig_uninitialized {st : Http} (hinit : st.initialized = false) (sdk : TextSdk)
    (config : Option Bytes) (io : WriteCalls) :
    httpSaveConfig st sdk config io = (config,false) := by
  simp only [httpSaveConfig,configText?,httpEscapeJsonString,Http.text,hinit,if_true]

/-- What is reported as saved is restored from any state, however the reads of the file are
split.  A text that does not fit is not saved, and the file not touched. -/
theorem httpSaveConfig_round_trip (st : Http) (sdk : TextSdk) (hsdk : sdk.StandardEscape)
    (hp : ∀ c ∈ st.caBundlePath.val, isTextByte c = true) (config : Option Bytes)
    (io : WriteCalls) :
    ((httpSaveConfig st sdk config io).2 = true →
      ∃ text, (httpSaveConfig st sdk config io).1 = some text ∧
        ∀ (before : Http) (read : ReadCalls), InFull text read → httpLoadConfig before text read =
          ({ before with
            sslVerifyMode := st.sslVerifyMode
            caBundlePath := st.caBundlePath },true)) ∧
      (512 ≤ (configText st.sslVerifyMode (escape st.caBundlePath.val)).length →
        httpSaveConfig st sdk config io = (config,false)) := by
  cases hinit : st.initialized with
  | false =>
    rw [httpSaveConfig_uninitialized hinit]
    exact ⟨nofun,fun _ => rfl⟩
  | true =>
    refine ⟨httpLoadConfig_httpSaveConfig hinit hsdk hp,fun hlong => ?_⟩
    simp only [httpSaveConfig,configText?_eq hinit hsdk hp,if_pos hlong]

theorem httpSaveConfig_round_trip_default :
    let st : Http := { Http.fresh with initialized := true }
    let io : WriteCalls := ⟨true,fun _ => 40⟩
    ((httpSaveConfig st plainSdk none io).2 = true →
      ∃ text, (httpSaveConfig st plainSdk none io).1 = some text ∧
        ∀ (before : Http) (read : ReadCalls), InFull text read → httpLoadConfig before text read =
          ({ before with
            sslVerifyMode := st.sslVerifyMode
            caBundlePath := st.caBundlePath },true)) ∧
      (512 ≤ (configText st.sslVerifyMode (escape st.caBundlePath.val)).length →
        httpSaveConfig st plainSdk none io = (none,false)) :=
  httpSaveConfig_round_trip _ plainSdk plainSdk_standardEscape
    (List.all_eq_true.mp (by decide)) none _

end SavedSettings
end RemotePkgInstaller
