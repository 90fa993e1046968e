import RemotePkgInstaller.InstallPieces
import RemotePkgInstaller.SharedServer

/-! The settings endpoint call by call.  With nothing else running it does what the handler
does as a whole. -/
namespace RemotePkgInstaller
namespace SettingsSteps

open HttpState HttpText InstallPieces Programs Program Requests Responses ServerCalls Settings
  SharedServer TinyJson

variable (sdk : TextSdk) (nodes : List Node)

def settingsJson (mode : SslVerifyMode) (path : Bytes) (loaded : Bool) : Answer :=
  let escapedPath := (httpEscapeJsonString sdk 512 path).getD []
  kickResultHeaderJson++
    [.write (bytes "\x7b \"status\": \"success\", \"ssl_verify\": "++
      boolText (mode = .on)++bytes ", \"ca_bundle\": \""++escapedPath++
      bytes "\", \"ca_bundle_loaded\": "++boolText loaded++bytes " \x7d\n")]

def writeSettingsSteps : ServerProgram Answer Answer := do
  let path ← ask .httpGetCaBundlePath
  let mode ← ask .httpGetSslVerify
  let loaded ← ask .httpHasCaBundle
  pure (settingsJson sdk mode path loaded)

def takeCaBundleSteps : ServerProgram Answer Unit :=
  match rootProperty nodes (bytes "ca_bundle") with
  | none => pure ()
  | some _ => do
    let caBundle ← ofExcept (requestStr sdk nodes (bytes "ca_bundle"))
    let loaded ← ask (.httpLoadCaBundle caBundle)
    if loaded then pure ()
    else
      let lastError ← ask .httpGetLastError
      fail (throwInternalError sdk
        (quoted (bytes "Unable to load CA bundle ") caBundle (bytes ": ")++lastError))

def saveSettingsSteps : ServerProgram Answer Answer := do
  let saved ← ask (.httpSaveConfig httpConfigPath)
  if saved then writeSettingsSteps sdk
  else fail (throwInternalError sdk
    (quoted (bytes "Unable to save settings to ") httpConfigPath (bytes ".")))

/-- The part of the handler from the point where the request is parsed. -/
def applySettingsSteps : ServerProgram Answer Answer := do
  let configured ← ask .httpGetSslVerify
  let verify ← ofExcept (requestBoolOpt sdk nodes (bytes "ssl_verify") (configured = .on))
  ask (.httpSetSslVerify (sslVerifyMode verify))
  takeCaBundleSteps sdk nodes
  saveSettingsSteps sdk

def handleApiSettingsSteps (method : Bytes) (inData : Option Bytes) :
    ServerProgram Answer Answer :=
  if OnlyReports method inData then writeSettingsSteps sdk
  else do
    let nodes ← ofExcept (requestParse sdk inData)
    applySettingsSteps sdk nodes

section Alone

/-- Every call of the request finds the console as `calls` describes it. -/
def stepCalls (calls : Calls) (transfer : HttpTransfer.Sdk) (other : (c : ServerCall) → Reply c) :
    StepCalls :=
  ⟨transfer,sdk,calls.bundle,calls.write,other⟩

def alone {ε α : Type} (o : StepCalls) (p : ServerProgram ε α) (st : Server) :
    Server × Except ε α :=
  Program.run (fun st c => ((serve o st c).state,(serve o st c).reply)) p st

/-- What the handler as a whole leaves, in the same form. -/
def servedResult (served : Served) : Server × Except Answer Answer :=
  (served.state,if served.status then .ok served.reply else .error served.reply)

variable {sdk nodes} {calls : Calls} {transfer : HttpTransfer.Sdk}
  {other : (c : ServerCall) → Reply c} {st : Server}

theorem alone_bind {ε α β : Type} (o : StepCalls) (p : ServerProgram ε α)
    (f : α → ServerProgram ε β) (st : Server) :
    alone o (p >>= f) st = goOn (alone o p st) fun a st => alone o (f a) st :=
  run_bind _ _ _ _

theorem alone_saveSettingsSteps :
    alone (stepCalls sdk calls transfer other) (saveSettingsSteps (st.http.text sdk)) st =
      servedResult (saveSettings sdk st.http st.config calls) := by
  have hsave : alone (stepCalls sdk calls transfer other) (saveSettingsSteps (st.http.text sdk)) st =
      alone (stepCalls sdk calls transfer other)
        (if (httpSaveConfig st.http sdk st.config calls.write).2 then
          writeSettingsSteps (st.http.text sdk)
        else fail (internalError sdk st.http
          (quoted (bytes "Unable to save settings to ") httpConfigPath (bytes "."))))
        ⟨st.http,(httpSaveConfig st.http sdk st.config calls.write).1⟩ := rfl
  rw [hsave,saveSettings]
  split_ifs <;> rfl

theorem alone_takeCaBundleSteps :
    alone (stepCalls sdk calls transfer other) (takeCaBundleSteps (st.http.text sdk) nodes) st =
      ({ st with http := (takeCaBundle sdk st.http nodes calls).1 },
        match (takeCaBundle sdk st.http nodes calls).2 with
        | none => .ok ()
        | some reply => .error reply) := by
  unfold takeCaBundleSteps takeCaBundle
  cases rootProperty nodes (bytes "ca_bundle") with
  | none => rfl
  | some field =>
    dsimp only
    rw [alone_bind]
    cases requestStr (st.http.text sdk) nodes (bytes "ca_bundle") with
    | error reply => rfl
    | ok caBundle =>
      have hload : (alone (stepCalls sdk calls transfer other) (do
            let loaded ← ask (.httpLoadCaBundle caBundle)
            if loaded then pure ()
            else
              let lastError ← ask .httpGetLastError
              fail (throwInternalError (st.http.text sdk)
                (quoted (bytes "Unable to load CA bundle ") caBundle (bytes ": ")++lastError)))
            st : Server × Except Answer Unit) =
          alone (stepCalls sdk calls transfer other)
            (if (httpLoadCaBundle st.http caBundle (calls.bundle caBundle)).2 then pure ()
            else do
              let lastError ← ask .httpGetLastError
              fail (throwInternalError (st.http.text sdk)
                (quoted (bytes "Unable to load CA bundle ") caBundle (bytes ": ")++lastError)))
            { st with http := (httpLoadCaBundle st.http caBundle (calls.bundle caBundle)).1 } := rfl
      have htext : (httpLoadCaBundle st.http caBundle (calls.bundle caBundle)).1.text sdk =
          st.http.text sdk := by simp [Http.text]
      refine hload.trans ?_
      dsimp only
      split_ifs
      · rfl
      · rw [internalError,htext]
        rfl

/-- With nothing else running, the steps of a request are the handler. -/
theorem alone_handleApiSettingsSteps (method : Bytes) (inData : Option Bytes) :
    alone (stepCalls sdk calls transfer other)
        (handleApiSettingsSteps (st.http.text sdk) method inData) st =
      servedResult (handleApiSettings sdk st method inData calls) := by
  unfold handleApiSettingsSteps handleApiSettings
  split_ifs with honly
  · rfl
  · rw [alone_bind]
    cases requestParse (st.http.text sdk) inData with
    | error reply => rfl
    | ok nodes =>
      have hread : alone (stepCalls sdk calls transfer other)
            (applySettingsSteps (st.http.text sdk) nodes) st =
          alone (stepCalls sdk calls transfer other) (do
            let verify ← ofExcept (requestVerify sdk st nodes)
            ask (.httpSetSslVerify (sslVerifyMode verify))
            takeCaBundleSteps (st.http.text sdk) nodes
            saveSettingsSteps (st.http.text sdk)) st := rfl
      refine hread.trans ?_
      rw [alone_bind]
      dsimp only
      cases requestVerify sdk st nodes with
      | error reply => rfl
      | ok verify =>
        have hset : alone (stepCalls sdk calls transfer other) (do
              ask (.httpSetSslVerify (sslVerifyMode verify))
              takeCaBundleSteps (st.http.text sdk) nodes
              saveSettingsSteps (st.http.text sdk)) st =
            alone (stepCalls sdk calls transfer other) (do
              takeCaBundleSteps (st.http.text sdk) nodes
              saveSettingsSteps (st.http.text sdk))
              { st with http := httpSetSslVerify st.http (sslVerifyMode verify) } := rfl
        refine hset.trans ?_
        have htaken := @alone_takeCaBundleSteps sdk nodes calls transfer other
          { st with http := httpSetSslVerify st.http (sslVerifyMode verify) }
        have htext : (takeCaBundle sdk (httpSetSslVerify st.http (sslVerifyMode verify)) nodes
            calls).1.text sdk = st.http.text sdk := by
          simp only [Http.text,takeCaBundle_initialized]
          rfl
        rw [alone_bind]
        refine (congrArg (fun x => goOn x fun _ st' => alone (stepCalls sdk calls transfer other)
          (saveSettingsSteps (st.http.text sdk)) st') htaken).trans ?_
        dsimp only [applySettings]
        cases (takeCaBundle sdk (httpSetSslVerify st.http (sslVerifyMode verify)) nodes calls).2 with
        | some reply => rfl
        | none =>
          have hsave := @alone_saveSettingsSteps sdk calls transfer other
            ⟨(takeCaBundle sdk (httpSetSslVerify st.http (sslVerifyMode verify)) nodes calls).1,
              st.config⟩
          dsimp only at hsave
          rw [htext] at hsave
          exact hsave

end Alone

end SettingsSteps
end RemotePkgInstaller
