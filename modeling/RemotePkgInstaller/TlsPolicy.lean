import RemotePkgInstaller.ArmedTransfers
import RemotePkgInstaller.Downloads
import RemotePkgInstaller.InstallHandlers
import RemotePkgInstaller.SettingsRuns
import RemotePkgInstaller.SettingsSteps

/-! The TLS mode of an install while other requests change the settings: it is fixed once
the handler has read it, every transfer of the install uses it, and none of them sends
anything before the checks that it stands for are enabled. -/
namespace RemotePkgInstaller
namespace TlsPolicy

open ArmedTransfers HttpState HttpText HttpTransfer InstallHandlers InstallPieces Installer Interleaving
  PkgSetup Programs Program Requests ServerCalls Settings SettingsRuns SettingsSteps SharedServer
  TinyJson

/-- What the threads of the server are busy with. -/
inductive Request
  | install (calls : InstallCalls) (stream : StreamId) (sv : Services) (host : Host)
      (inData : Option Bytes)
  | settings (sdk : HttpText.TextSdk) (method : Bytes) (inData : Option Bytes)

def Request.program : Request → ServerProgram Answer Answer
  | install calls stream sv host inData => handleApiInstall calls stream sv host inData
  | settings sdk method inData => handleApiSettingsSteps sdk method inData

/-- The mode that a transfer is asked to use, if the call is one. -/
def transferMode : ServerCall → Option (Option SslVerifyMode)
  | .httpDownloadFile _ _ _ sslVerify => some sslVerify
  | .httpGetFileSize _ sslVerify => some sslVerify
  | _ => none

/-- The mode is the one that the request carries, and otherwise the one that was configured
when the handler read it, which was the first thing it did. -/
def ModeOf (inData : Option Bytes) (trace : List Taken) (mode : SslVerifyMode) : Prop :=
  ∃ nodes first rest, inData.bind (fun data => jsonCreate data jsonPoolSize) = some nodes ∧
    trace = first::rest ∧ first.call = .httpGetSslVerify ∧
    mode = (carriedMode nodes).getD first.before.http.sslVerifyMode

/-- The transfers of an install follow one policy, and it leaves the configured mode alone. -/
structure FollowsPolicy (inData : Option Bytes) (trace : List Taken) : Prop where
  transfers : (∀ t ∈ trace, transferMode t.call = none) ∨
    ∃ mode, ModeOf inData trace mode ∧ ∀ t ∈ trace, ∀ sslVerify,
      transferMode t.call = some sslVerify → sslVerify = some mode ∧
        (mode = .on → ArmedBeforeSending t.calls.sdk t.serving.sdkCalls)
  mode : ∀ t ∈ trace, t.after.http.sslVerifyMode = t.before.http.sslVerifyMode

section Calls

/-- Only one call changes the configured mode. -/
theorem serve_sslVerifyMode {c : ServerCall} (hc : ∀ mode, c ≠ .httpSetSslVerify mode)
    (o : StepCalls) (st : Server) :
    (serve o st c).state.http.sslVerifyMode = st.http.sslVerifyMode := by
  cases c with
  | httpSetSslVerify mode => exact absurd rfl (hc mode)
  | httpLoadCaBundle path => exact httpLoadCaBundle_sslVerifyMode _ _ _
  | httpDownloadFile url size offset sslVerify =>
    exact (httpDownloadFile_onlyLastError size offset sslVerify).sslVerifyMode
  | httpGetFileSize url sslVerify => exact (httpGetFileSize_onlyLastError sslVerify).sslVerifyMode
  | _ => rfl

/-- A transfer with verification on is armed before it sends. -/
theorem serve_armed {c : ServerCall} (hc : transferMode c = some (some .on)) (o : StepCalls)
    (st : Server) : ArmedBeforeSending o.sdk (serve o st c).sdkCalls := by
  cases c with
  | httpDownloadFile url size offset sslVerify =>
    injection hc with hc
    subst hc
    exact httpDownloadFile_armed size offset
  | httpGetFileSize url sslVerify =>
    injection hc with hc
    subst hc
    exact httpGetFileSize_armed
  | _ => cases hc

/-- What the calls of an install have to do with the mode. -/
def WithMode (mode : SslVerifyMode) (c : ServerCall) : Prop :=
  (∀ m, c ≠ .httpSetSslVerify m) ∧ ∀ sslVerify, transferMode c = some sslVerify → sslVerify = some mode

theorem withMode_of_handlerCall {calls : InstallCalls} {stream : StreamId} {nodes : List Node}
    {mode : SslVerifyMode} {c : ServerCall} (h : HandlerCall calls stream nodes mode c) :
    WithMode mode c := by
  have htransfer : ∀ {m : Option SslVerifyMode}, m = some mode →
      ∀ sslVerify, some m = some sslVerify → sslVerify = some mode := by
    rintro m rfl sslVerify h
    injection h with h
    exact h.symm
  cases h with
  | refPkgJson hurl size offset => exact ⟨by simp,htransfer rfl⟩
  | pieces hurls h =>
    cases h with
    | prepare h =>
      cases h with
      | readFile path => exact ⟨by simp,by simp [transferMode]⟩
      | setup h =>
        cases h with
        | httpDownloadFile hurl size offset => exact ⟨by simp,htransfer rfl⟩
        | httpGetFileSize hurl => exact ⟨by simp,htransfer rfl⟩
        | _ => exact ⟨by simp,by simp [transferMode]⟩
    | _ => exact ⟨by simp,by simp [transferMode]⟩

end Calls

/-- Where a run of an install stands: it has not begun, or the configured mode has been
read and every further call goes with the one mode. -/
theorem install_runs {calls : InstallCalls} {stream : StreamId} {sv : Services} {host : Host}
    {inData : Option Bytes} {history : List ServerEvent} {q : ServerProgram Answer Answer}
    (h : Program.Runs (handleApiInstall calls stream sv host inData) history q) :
    history = [] ∨ ∃ nodes configured rest,
      inData.bind (fun data => jsonCreate data jsonPoolSize) = some nodes ∧
      history = ⟨.httpGetSslVerify,configured⟩::rest ∧
      ∀ e ∈ rest, WithMode ((carriedMode nodes).getD configured) e.1 := by
  unfold handleApiInstall at h
  cases hparse : requestParse calls.text inData with
  | error reply =>
    rw [hparse] at h
    cases h
    exact Or.inl rfl
  | ok nodes =>
    rw [hparse] at h
    cases h with
    | refl => exact Or.inl rfl
    | @call _ _ configured rest _ hrest =>
      refine Or.inr ⟨nodes,configured,rest,requestParse_eq_ok.mp hparse,rfl,?_⟩
      change Program.Runs (ofExcept (requestBoolOpt calls.text nodes (bytes "ssl_verify")
        (configured = .on)) >>= fun verify =>
          installFlavour calls stream nodes (sslVerifyMode verify) sv host) rest q at hrest
      cases hverify : requestBoolOpt calls.text nodes (bytes "ssl_verify") (configured = .on) with
      | error reply =>
        rw [hverify] at hrest
        cases hrest
        simp
      | ok verify =>
        rw [hverify] at hrest
        have hmode : (carriedMode nodes).getD configured = sslVerifyMode verify := by
          rcases requestBoolOpt_eq_ok.mp hverify with ⟨hnone,rfl⟩ | ⟨field,hf,_,rfl⟩
          · rw [carriedMode,hnone]
            cases configured <;> rfl
          · rw [carriedMode,hf]
            rfl
        rw [hmode]
        intro e he
        exact withMode_of_handlerCall ((calls_installFlavour.runs hrest).1 e he)

variable {ι : Type} [DecidableEq ι]

/-- Whatever else runs, and whatever the console answers, an install follows its policy at
every point of every run. -/
theorem install_followsPolicy (console : Console ι) (request : ι → Request) (schedule : List ι)
    (st : Server) {i : ι} {calls : InstallCalls} {stream : StreamId} {sv : Services} {host : Host}
    {inData : Option Bytes} (hi : request i = .install calls stream sv host inData) :
    FollowsPolicy inData
      ((runThreads console (fun i => (request i).program) schedule st).locals i).trace := by
  have hcame := came_runThreads console (fun i => (request i).program) schedule st i
  generalize ((runThreads console (fun i => (request i).program) schedule st).locals i) = thread
    at hcame
  unfold Came at hcame
  rw [hi] at hcame
  rcases install_runs hcame with hnil | ⟨nodes,configured,rest,hnodes,hhistory,hrest⟩
  · rw [List.map_eq_nil_iff] at hnil
    rw [hnil]
    exact ⟨Or.inl (by simp),by simp⟩
  · obtain ⟨first,trace,htrace,hfirst,htaken⟩ := List.map_eq_cons_iff.mp hhistory
    obtain ⟨before,o,c⟩ := first
    simp only [Taken.event,Sigma.mk.injEq] at hfirst
    obtain ⟨rfl,hconfigured⟩ := hfirst
    rw [heq_eq_eq] at hconfigured
    have hmode : ∀ t ∈ trace, WithMode ((carriedMode nodes).getD before.http.sslVerifyMode) t.call := by
      intro t ht
      have hevent : t.event ∈ rest := htaken ▸ List.mem_map_of_mem ht
      have hread : before.http.sslVerifyMode = configured := hconfigured
      exact hread ▸ hrest t.event hevent
    rw [htrace]
    refine ⟨Or.inr ⟨_,⟨nodes,_,trace,hnodes,rfl,rfl,rfl⟩,?_⟩,?_⟩
    · intro t ht sslVerify htransfer
      rcases List.mem_cons.mp ht with rfl | ht
      · cases htransfer
      · have hsome := (hmode t ht).2 sslVerify htransfer
        refine ⟨hsome,fun hon => serve_armed ?_ t.calls t.before⟩
        rw [htransfer,hsome]
        exact congrArg _ (congrArg _ hon)
    · intro t ht
      rcases List.mem_cons.mp ht with rfl | ht
      · rfl
      · exact serve_sslVerifyMode (hmode t ht).1 t.calls t.before

/-- An install, and a settings request that turns verification off. -/
def bothRequests : Bool → Request
  | false => .install sampleCalls sampleStream sampleServices sampleHost (some sampleBody)
  | true => .settings plainSdk (bytes "POST") (some (bytes "\x7b\"ssl_verify\": false\x7d"))

/-- Hosts that know no file. -/
def missingHosts : Console Bool := fun _ _ => ⟨Downloads.workingSdk fun _ => ⟨404,0,0,[]⟩,plainSdk,
  noFiles.bundle,noFiles.write,sampleReply ⟨0,1⟩⟩

/-- Verification is turned off between the read of the mode and the transfer. -/
def modeReadFirst : List Bool := [false,true,true,false,false,false,false,false]

theorem install_followsPolicy_example :
    let g := runThreads missingHosts (fun i => (bothRequests i).program) modeReadFirst started
    g.shared.http.sslVerifyMode = .off ∧
      (g.locals false).trace.filterMap (fun t => transferMode t.call) = [some .on] ∧
      FollowsPolicy (some sampleBody) (g.locals false).trace := by
  have hrun : (runThreads missingHosts (fun i => (bothRequests i).program) modeReadFirst
        started).shared.http.sslVerifyMode = .off ∧
      ((runThreads missingHosts (fun i => (bothRequests i).program) modeReadFirst
        started).locals false).trace.filterMap (fun t => transferMode t.call) = [some .on] := by
    decide +kernel
  exact ⟨hrun.1,hrun.2,install_followsPolicy missingHosts bothRequests modeReadFirst started rfl⟩

end TlsPolicy
end RemotePkgInstaller
