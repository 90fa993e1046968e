import RemotePkgInstaller.EventHandler

/-! The response that a client gets.  Every handler leaves one whole response on the stream;
the answer to an `OPTIONS` request has no body, and its header is never ended. -/
namespace RemotePkgInstaller
namespace CompleteAnswers

open Answers Endpoints EventHandler HttpText InstallHandlers InstallPieces Installer Programs
  Program ReceivedRequests Requests Responses SendStream ServerCalls Settings SettingsSteps

/-- An answer as the handlers give it. -/
def IsAnswer (reply : Answer) : Prop := IsKickError reply ∨ IsResultJson reply

section Replies

variable {sdk : TextSdk} {sv : Services} {nodes : List TinyJson.Node}

theorem isAnswer_resultJson {α : Type} (out : Outcome α) (text : α → Bytes) :
    IsAnswer (resultJson out text) := by
  unfold resultJson
  split
  · exact Or.inr ⟨_,rfl⟩
  · exact Or.inr ⟨_,rfl⟩

/-- A helper that fails has answered, and so has the handler that goes on. -/
theorem isAnswer_finish {α : Type} {x : Except Answer α} (hx : FailsWithKick x)
    {f : α → Except Answer Handled} (hf : ∀ a, IsAnswer (finish (f a)).reply) :
    IsAnswer (finish (x >>= f)).reply := by
  cases x with
  | error reply => exact Or.inl (hx reply rfl)
  | ok a => exact hf a

theorem isAnswer_notFound (text : Bytes) : IsAnswer (notFound sdk text).reply :=
  Or.inl ⟨sdk,404,_,text,by decide,rfl⟩

theorem isAnswer_handleApiUninstall (path : Bytes) (inData : Option Bytes) :
    IsAnswer (handleApiUninstall sdk sv path inData).reply := by
  unfold handleApiUninstall
  split
  · exact isAnswer_notFound _
  · refine isAnswer_finish (failsWithKick_requestParse _) fun nodes => ?_
    exact isAnswer_finish (failsWithKick_requestId _ _) fun id => isAnswer_resultJson _ _

theorem isAnswer_handleApiIsExists (inData : Option Bytes) :
    IsAnswer (handleApiIsExists sdk sv inData).reply := by
  refine isAnswer_finish (failsWithKick_requestParse _) fun nodes => ?_
  refine isAnswer_finish (failsWithKick_requestId _ _) fun titleId => ?_
  dsimp only
  split_ifs
  · exact Or.inr ⟨_,rfl⟩
  · exact isAnswer_resultJson _ _

theorem isAnswer_handleApiTaskAction (path : Bytes) (inData : Option Bytes) :
    IsAnswer (handleApiTaskAction sdk sv path inData).reply := by
  unfold handleApiTaskAction
  split
  · exact isAnswer_notFound _
  · refine isAnswer_finish (failsWithKick_requestParse _) fun nodes => ?_
    exact isAnswer_finish failsWithKick_requestTaskId fun taskId => isAnswer_resultJson _ _

theorem isAnswer_handleApiGetTaskProgress (inData : Option Bytes) :
    IsAnswer (handleApiGetTaskProgress sdk sv inData).reply := by
  refine isAnswer_finish (failsWithKick_requestParse _) fun nodes => ?_
  exact isAnswer_finish failsWithKick_requestTaskId fun taskId => isAnswer_resultJson _ _

theorem isAnswer_handleApiFindTask (inData : Option Bytes) :
    IsAnswer (handleApiFindTask sdk sv inData).reply := by
  refine isAnswer_finish (failsWithKick_requestParse _) fun nodes => ?_
  refine isAnswer_finish (failsWithKick_requestId _ _) fun contentId => ?_
  exact isAnswer_finish (failsWithKick_requestInt _) fun subType => isAnswer_resultJson _ _

/-- What the program of a handler leaves, whether it has succeeded or not. -/
def GivesAnswer (r : Except Answer Answer) : Prop := IsAnswer (replyOf r)

theorem results_handleApiInstall {calls : InstallCalls} {stream : StreamId} {host : Host}
    (inData : Option Bytes) :
    Results GivesAnswer (InstallHandlers.handleApiInstall calls stream sv host inData) := by
  refine (ensures_handleApiInstall inData).results fun answers r h => ?_
  cases r with
  | error reply => exact Or.inl h.2
  | ok reply =>
    obtain ⟨task,⟨_,code,rfl⟩ | ⟨answer,_,rfl⟩⟩ := h
    · exact Or.inr (isResultJson_taskAnswer task (.error code))
    · exact Or.inr (isResultJson_taskAnswer task (registrationResult answer))

theorem results_ofExcept_bind {α : Type} {x : Except Answer α} (hx : FailsWithKick x)
    {f : α → ServerProgram Answer Answer} (hf : ∀ a, Results GivesAnswer (f a)) :
    Results GivesAnswer (ofExcept x >>= f) := by
  cases x with
  | error reply => exact Or.inl (hx reply rfl)
  | ok a => exact hf a

theorem results_writeSettingsSteps : Results GivesAnswer (writeSettingsSteps sdk) :=
  fun _ _ _ => Or.inr ⟨_,rfl⟩

theorem results_saveSettingsSteps : Results GivesAnswer (saveSettingsSteps sdk) := by
  refine results_perform_bind.mpr fun saved => ?_
  split_ifs
  · exact results_writeSettingsSteps
  · exact Or.inl (isKickError_throwInternalError _)

/-- A bundle that cannot be loaded is reported, and otherwise the settings are saved. -/
theorem results_takeCaBundleSteps :
    Results GivesAnswer (takeCaBundleSteps sdk nodes >>= fun _ => saveSettingsSteps sdk) := by
  unfold takeCaBundleSteps
  split
  · exact results_saveSettingsSteps
  · cases hstr : requestStr sdk nodes (bytes "ca_bundle") with
    | error reply => exact Or.inl (failsWithKick_requestStr _ reply hstr)
    | ok caBundle =>
      intro loaded
      cases loaded with
      | true => exact results_saveSettingsSteps
      | false => exact fun lastError => Or.inl (isKickError_throwInternalError _)

theorem results_handleApiSettingsSteps (method : Bytes) (inData : Option Bytes) :
    Results GivesAnswer (handleApiSettingsSteps sdk method inData) := by
  unfold handleApiSettingsSteps
  split_ifs
  · exact results_writeSettingsSteps
  · refine results_ofExcept_bind (failsWithKick_requestParse _) fun nodes => ?_
    refine results_perform_bind.mpr fun configured => ?_
    refine results_ofExcept_bind (failsWithKick_requestBoolOpt _ _) fun verify => ?_
    exact results_perform_bind.mpr fun _ => results_takeCaBundleSteps

end Replies

section Responses

def jsonHeaders : List (Bytes × Bytes) :=
  [(bytes "Content-Type",bytes "application/json"),(bytes "Access-Control-Allow-Origin",bytes "*"),
   (bytes "Access-Control-Allow-Methods",bytes "*"),(bytes "Access-Control-Allow-Headers",bytes "*"),
   (bytes "Connection",bytes "close")]

def jsonResponse (code : ℕ) (title text : Bytes) : Response := ⟨code,title,jsonHeaders,.text text⟩

theorem jsonResponse_oneLineEach (code : ℕ) {title : Bytes} (text : Bytes)
    (htitle : title ∈ bytes "OK"::kickTitles) : (jsonResponse code title text).OneLineEach := by
  have htitles : ∀ title ∈ bytes "OK"::kickTitles, OneLine title := by decide
  have hheaders : ∀ header ∈ jsonHeaders, OneLine header.1 ∧ OneLine header.2 := by decide
  refine ⟨htitles title htitle,fun header hmem => hheaders header ?_⟩
  simpa [jsonResponse,Body.headers] using hmem

/-- The answer that a file comes with. -/
def fileResponse (realPath : Bytes) (fd : ℤ) (size : ℕ) : Response :=
  ⟨200,bytes "OK",[(bytes "Connection",bytes "close"),(bytes "Content-Type",contentType realPath)],
    .file realPath fd size⟩

theorem oneLine_text (n : ℕ) : OneLine (Decimal.text n) := by
  have hdigit : ∀ {c : UInt8}, c ∈ Decimal.text n → Decimal.isdigit c = true :=
    fun hc => Decimal.text_isdigit n _ hc
  exact ⟨fun h => absurd (hdigit h) (by decide),fun h => absurd (hdigit h) (by decide)⟩

theorem oneLine_contentType (realPath : Bytes) : OneLine (contentType realPath) := by
  unfold contentType
  split_ifs <;> decide

theorem fileResponse_oneLineEach (realPath : Bytes) (fd : ℤ) (size : ℕ) :
    (fileResponse realPath fd size).OneLineEach := by
  have hnames : OneLine (bytes "OK") ∧ OneLine (bytes "Connection") ∧ OneLine (bytes "close") ∧
      OneLine (bytes "Content-Type") ∧ OneLine (bytes "Content-Length") := by decide
  refine ⟨hnames.1,fun header hmem => ?_⟩
  simp only [fileResponse,Body.headers,List.cons_append,List.nil_append,List.mem_cons,
    List.not_mem_nil,or_false] at hmem
  rcases hmem with rfl | rfl | rfl
  · exact ⟨hnames.2.1,hnames.2.2.1⟩
  · exact ⟨hnames.2.2.2.1,oneLine_contentType realPath⟩
  · exact ⟨hnames.2.2.2.2,oneLine_text size⟩

/-- The answer to a file that cannot be sent: the header that was begun for the file goes on
as that of an error. -/
def unsentResponse (realPath text : Bytes) : Response :=
  ⟨200,bytes "OK",(bytes "Connection",bytes "close")::(bytes "Content-Type",contentType realPath)::
    jsonHeaders,.text text⟩

theorem unsentResponse_oneLineEach (realPath text : Bytes) :
    (unsentResponse realPath text).OneLineEach := by
  obtain ⟨htitle,hfile⟩ := fileResponse_oneLineEach realPath 1 0
  obtain ⟨_,hjson⟩ := jsonResponse_oneLineEach 200 text (List.mem_cons_self ..)
  refine ⟨htitle,fun header hmem => ?_⟩
  simp only [unsentResponse,Body.headers,List.append_nil,List.mem_cons] at hmem
  rcases hmem with rfl | rfl | hmem
  · exact hfile _ (by simp [fileResponse])
  · exact hfile _ (by simp [fileResponse])
  · exact hjson header (List.mem_append_left _ hmem)

/-- The body of an answer of `kick_error`. -/
def kickText (sdk : TextSdk) (error : Bytes) : Bytes :=
  bytes "\x7b \"status\": \"fail\", \"error\": \""++
    (httpEscapeJsonString sdk 1024 error).getD (bytes "Unable to escape error string.")++
    bytes "\" \x7d\n"

/-- An answer is one response. -/
theorem answers_of_isAnswer {reply : Answer} (h : IsAnswer reply) :
    ∃ code title text, Answers (streamCalls reply) (jsonResponse code title text) ∧
      streamCalls reply = (jsonResponse code title text).calls := by
  rcases h with ⟨sdk,code,title,error,htitle,rfl⟩ | ⟨text,rfl⟩
  · refine ⟨code,title,_,?_,rfl⟩
    refine answers_calls (jsonResponse_oneLineEach code _ (List.mem_cons_of_mem _ htitle)) ?_
    intro filename fd size h
    cases h
  · refine ⟨200,bytes "OK",text,?_,rfl⟩
    refine answers_calls (jsonResponse_oneLineEach 200 text (List.mem_cons_self ..)) ?_
    intro filename fd size h
    cases h

/-- A refused file and the status that is refused after it leave the rest as one response. -/
theorem answers_unsent {sdk : TextSdk} {realPath error : Bytes} {fd : ℤ} {size : Option ℕ}
    (hrefused : (Stream.received.queue (streamCalls (fileHeader realPath))).Refuses
      (.sendFile realPath fd size)) :
    Answers (streamCalls (fileHeader realPath)++.sendFile realPath fd size::
      streamCalls (kickError sdk 500 (bytes "Internal server error") error))
      (unsentResponse realPath (kickText sdk error)) := by
  have hanswers : Answers (streamCalls (fileHeader realPath)++
      (headerCalls jsonHeaders++[.sb (.write (kickText sdk error))]))
      (unsentResponse realPath (kickText sdk error)) := by
    refine answers_calls (unsentResponse_oneLineEach _ _) ?_
    intro filename fd size h
    cases h
  refine hanswers.insert [.sendFile realPath fd size,
    .sb (.sendStatus 500 (bytes "Internal server error"))] fun call hmem => ?_
  rcases List.mem_cons.mp hmem with rfl | hmem
  · exact hrefused
  · rw [List.mem_singleton.mp hmem]
    exact ⟨.badState,by decide,rfl⟩

/-- What the stream makes of a file that a handler has begun to answer with. -/
theorem perform_sendFile (realPath : Bytes) (fd : ℤ) (size : Option ℕ) :
    let st := Stream.received.queue (streamCalls (fileHeader realPath))
    ((st.perform (.sendFile realPath fd size)).1 = .success ↔ 0 < fd ∧ size.isSome = true) ∧
      ((st.perform (.sendFile realPath fd size)).1 ≠ .success →
        st.Refuses (.sendFile realPath fd size)) := by
  have hstate : (Stream.received.queue (streamCalls (fileHeader realPath))).state =
      .sendingHeader := rfl
  generalize Stream.received.queue (streamCalls (fileHeader realPath)) = st at hstate
  dsimp only
  by_cases hfd : fd ≤ 0
  · have hrefused : st.perform (.sendFile realPath fd size) = (.cantOpen,st) := by
      simp [Stream.perform,sbSendFile,hstate,hfd]
    rw [hrefused]
    exact ⟨by simp [hfd],fun _ => ⟨_,by decide,hrefused⟩⟩
  · cases size with
    | none =>
      have hrefused : st.perform (.sendFile realPath fd none) = (.badResult,st) := by
        simp [Stream.perform,sbSendFile,hstate,hfd]
      rw [hrefused]
      exact ⟨by simp,fun _ => ⟨_,by decide,hrefused⟩⟩
    | some size =>
      obtain ⟨state,hsent⟩ := @perform_body st hstate (.file realPath fd size) (by
        rintro _ _ _ ⟨⟩
        exact not_le.mp hfd)
      rw [Body.call] at hsent
      rw [hsent]
      exact ⟨by simpa using hfd,fun h => absurd rfl h⟩

end Responses

/-- A file that cannot be opened, or whose size cannot be read. -/
def Fails : ServerEvent → Prop
  | ⟨.openFile _,fd⟩ => fd ≤ 0
  | ⟨.fstat _,size⟩ => size = none
  | _ => False

/-- The request is for a static file, which then cannot be sent. -/
def FileFails (r : ReceivedRequest) (history : List ServerEvent) : Prop :=
  (∃ method path inData, dispatch r = .call .handleStatic method path inData) ∧
    ∃ e ∈ history, Fails e

/-- What a request leaves on the stream, unless it is an `OPTIONS` request. -/
inductive LeftOnStream (sdk : TextSdk) (failed : Prop) : List StreamCall → Prop
  | answer {reply : Answer} (hreply : IsAnswer reply) (hfailed : ¬ failed) :
      LeftOnStream sdk failed (streamCalls reply)
  | file {realPath : Bytes} {fd : ℤ} {size : ℕ} (hfd : 0 < fd) (hfailed : ¬ failed) :
      LeftOnStream sdk failed
        (streamCalls (fileHeader realPath)++[.sendFile realPath fd (some size)])
  | unsent {realPath error : Bytes} {fd : ℤ} {size : Option ℕ}
      (hrefused : (Stream.received.queue (streamCalls (fileHeader realPath))).Refuses
        (.sendFile realPath fd size)) (hfailed : failed) :
      LeftOnStream sdk failed (streamCalls (fileHeader realPath)++.sendFile realPath fd size::
        streamCalls (kickError sdk 500 (bytes "Internal server error") error))

section Handlers

variable {calls : InstallCalls} {stream : StreamId} {sv : Services} {host : Host}
  {r : ReceivedRequest} {history : List ServerEvent} {answered : List StreamCall}

/-- How the answer goes on once the file has been looked at. -/
theorem fileCalls_leaves {sdk : TextSdk} {realPath : Bytes} {fd : ℤ} {size : Option ℕ}
    {failed : Prop} (hfailed : failed ↔ ¬ (0 < fd ∧ size.isSome = true)) :
    LeftOnStream sdk failed (fileCalls sdk realPath fd size) := by
  obtain ⟨hsuccess,hrefuses⟩ := perform_sendFile realPath fd size
  unfold fileCalls
  dsimp only
  split_ifs with hsent
  · obtain ⟨hfd,hsize⟩ := hsuccess.mp hsent
    obtain ⟨size,rfl⟩ := Option.isSome_iff_exists.mp hsize
    exact .file hfd (by simp [hfailed,hfd])
  · exact .unsent (hrefuses hsent) (hfailed.mpr (hsuccess.not.mp hsent))

theorem sendStatic_leaves {sdk : TextSdk} {realPath : Bytes}
    (h : Ends (sendStatic sdk realPath) history (.ok answered)) :
    LeftOnStream sdk (∃ e ∈ history, Fails e) answered := by
  obtain ⟨fd,rest,rfl,hrest⟩ := ends_perform_bind.mp h
  split_ifs at hrest with hfd
  · obtain ⟨rfl,hanswered⟩ := ends_done.mp hrest
    cases hanswered
    exact fileCalls_leaves (by simp [Fails,hfd])
  · obtain ⟨size,rest,rfl,hend⟩ := ends_perform_bind.mp hrest
    obtain ⟨rfl,hanswered⟩ := ends_done.mp hend
    cases hanswered
    refine fileCalls_leaves ?_
    simp [Fails,hfd,not_le.mp hfd]

theorem handleStatic_leaves {sdk : TextSdk} {path : Bytes}
    (h : Ends (handleStatic sdk path) history (.ok answered)) :
    LeftOnStream sdk (∃ e ∈ history, Fails e) answered := by
  have hstat : ∀ {path : Bytes} {isRegular : Option Bool},
      ¬ ∃ e ∈ [(⟨.stat path,isRegular⟩ : ServerEvent)],Fails e := by
    intro path isRegular
    simp [Fails]
  unfold handleStatic at h
  split_ifs at h with hpath
  · obtain ⟨rfl,hanswered⟩ := ends_done.mp h
    cases hanswered
    exact .answer (Or.inl (isKickError_badRequest _)) (by simp)
  · obtain ⟨isRegular,rest,rfl,hrest⟩ := ends_perform_bind.mp h
    rcases isRegular with _ | (_ | _)
    · obtain ⟨rfl,hanswered⟩ := ends_done.mp hrest
      cases hanswered
      exact .answer (Or.inl ⟨sdk,404,_,_,by decide,rfl⟩) hstat
    · obtain ⟨rfl,hanswered⟩ := ends_done.mp hrest
      cases hanswered
      exact .answer (Or.inl ⟨sdk,403,_,_,by decide,rfl⟩) hstat
    · have hleaves := sendStatic_leaves hrest
      simpa [Fails] using hleaves

/-- What the handlers other than the one for files leave. -/
theorem answer_leaves {sdk : TextSdk} {reply : Answer} (h : IsAnswer reply)
    (hstatic : ∀ method path inData, dispatch r ≠ .call .handleStatic method path inData) :
    LeftOnStream sdk (FileFails r history) (streamCalls reply) :=
  .answer h fun hfails => by
    obtain ⟨⟨method,path,inData,hdispatch⟩,_⟩ := hfails
    exact hstatic method path inData hdispatch

theorem respond_leaves {sdk : TextSdk} {p : ServerProgram Answer Answer}
    (hp : Results GivesAnswer p)
    (hstatic : ∀ method path inData, dispatch r ≠ .call .handleStatic method path inData)
    (h : Ends (respond p) history (.ok answered)) :
    LeftOnStream sdk (FileFails r history) answered := by
  obtain ⟨first,rest,reply,rfl,hends,hrest⟩ := ends_caught_bind.mp h
  obtain ⟨rfl,hanswered⟩ := ends_done.mp hrest
  cases hanswered
  exact answer_leaves (hp.ends hends) hstatic

theorem dispatch_eq_options : dispatch r = .options ↔ sameNoCase r.method (bytes "OPTIONS") = true := by
  unfold dispatch
  split_ifs with hoptions
  · exact iff_of_true rfl hoptions
  · refine iff_of_false ?_ hoptions
    repeat' split
    all_goals simp

/-- Unless it is an `OPTIONS` request, a request leaves an answer or a file on the stream. -/
theorem eventHandler_leaves (h : Ends (eventHandler calls stream sv host r) history (.ok answered)) :
    (sameNoCase r.method (bytes "OPTIONS") = true ∧ answered = streamCalls kickResultHeaderJson ∧
      ¬ FileFails r history) ∨
    (sameNoCase r.method (bytes "OPTIONS") = false ∧
      LeftOnStream calls.text (FileFails r history) answered) := by
  unfold eventHandler at h
  by_cases hoptions : dispatch r = .options
  · rw [hoptions] at h
    obtain ⟨rfl,hanswered⟩ := ends_done.mp h
    cases hanswered
    exact Or.inl ⟨dispatch_eq_options.mp hoptions,rfl,by simp [FileFails]⟩
  refine Or.inr ⟨by rwa [← Bool.not_eq_true,← dispatch_eq_options],?_⟩
  have hpure : ∀ {reply : Answer}, IsAnswer reply →
      (∀ method path inData, dispatch r ≠ .call .handleStatic method path inData) →
      Ends (pure (streamCalls reply) : ServerProgram Empty (List StreamCall)) history
        (.ok answered) →
      LeftOnStream calls.text (FileFails r history) answered := by
    intro reply hreply hstatic hends
    obtain ⟨rfl,hanswered⟩ := ends_done.mp hends
    cases hanswered
    exact answer_leaves hreply hstatic
  cases hdispatch : dispatch r with
  | options => exact absurd hdispatch hoptions
  | unsupportedMethod =>
    rw [hdispatch] at h
    exact hpure (Or.inl (isKickError_badRequest _)) (by simp [hdispatch]) h
  | unknownEndpoint =>
    rw [hdispatch] at h
    exact hpure (Or.inl ⟨_,404,_,_,by decide,rfl⟩) (by simp [hdispatch]) h
  | queryDataTooLong =>
    rw [hdispatch] at h
    exact hpure (Or.inl (isKickError_badRequest _)) (by simp [hdispatch]) h
  | call handler method path inData =>
    rw [hdispatch] at h
    cases handler with
    | handleStatic =>
      have hfails : FileFails r history = ∃ e ∈ history, Fails e :=
        propext ⟨fun hfails => hfails.2,fun hfails => ⟨⟨_,_,_,hdispatch⟩,hfails⟩⟩
      rw [hfails]
      exact handleStatic_leaves h
    | handleApiInstall =>
      exact respond_leaves (results_handleApiInstall _) (by simp [hdispatch]) h
    | handleApiUninstall =>
      exact hpure (isAnswer_handleApiUninstall _ _) (by simp [hdispatch]) h
    | handleApiIsExists => exact hpure (isAnswer_handleApiIsExists _) (by simp [hdispatch]) h
    | handleApiTaskAction =>
      exact hpure (isAnswer_handleApiTaskAction _ _) (by simp [hdispatch]) h
    | handleApiGetTaskProgress =>
      exact hpure (isAnswer_handleApiGetTaskProgress _) (by simp [hdispatch]) h
    | handleApiFindTask => exact hpure (isAnswer_handleApiFindTask _) (by simp [hdispatch]) h
    | handleApiSettings =>
      exact respond_leaves (results_handleApiSettingsSteps _ _) (by simp [hdispatch]) h

/-- Whatever has been left is one response. -/
theorem LeftOnStream.complete {sdk : TextSdk} {failed : Prop} (h : LeftOnStream sdk failed answered) :
    Complete answered := by
  cases h with
  | answer hreply _ =>
    obtain ⟨code,title,text,hanswers,_⟩ := answers_of_isAnswer hreply
    exact ⟨_,hanswers⟩
  | @file realPath fd size hfd _ =>
    refine ⟨fileResponse realPath fd size,answers_calls (fileResponse_oneLineEach _ _ _) ?_⟩
    rintro _ _ _ ⟨⟩
    exact hfd
  | unsent hrefused _ => exact ⟨_,answers_unsent hrefused⟩

theorem not_complete_options : ¬ Complete (streamCalls kickResultHeaderJson) := by
  rintro ⟨r,hanswers⟩
  have haccepted : Stream.received.accepted (streamCalls kickResultHeaderJson) =
      streamCalls kickResultHeaderJson := by decide +kernel
  have hlast := congrArg List.getLast? (haccepted.symm.trans hanswers.accepted)
  rw [Response.calls,List.getLast?_append] at hlast
  cases hbody : r.body with
  | text t =>
    rw [hbody] at hlast
    cases hlast
  | file filename fd size =>
    rw [hbody] at hlast
    cases hlast

/-- Whatever the handlers' calls come to, the client gets one whole response, except to an
`OPTIONS` request. -/
theorem eventHandler_complete_iff
    (h : Ends (eventHandler calls stream sv host r) history (.ok answered)) :
    Complete answered ↔ sameNoCase r.method (bytes "OPTIONS") = false := by
  rcases eventHandler_leaves h with ⟨hoptions,rfl,_⟩ | ⟨hother,hleaves⟩
  · rw [hoptions]
    exact iff_of_false not_complete_options (by decide)
  · exact iff_of_true hleaves.complete hother

end Handlers

section Sample

/-- A console with one file, which `open` answers with `fd`. -/
def fileReply (fd : ℤ) : (c : ServerCall) → Reply c
  | .openFile _ => fd
  | c => sampleReply ⟨0,1⟩ c

def fileRequest : ReceivedRequest :=
  ⟨bytes "GET",bytes "/static/a.json",bytes "GET /static/a.json HTTP/1.1\r\n\r\n",0,0⟩

def fileHistory (fd : ℤ) : List ServerEvent :=
  Program.history (fun (_ : Unit) c => ((),fileReply fd c))
    (eventHandler sampleCalls sampleStream sampleServices sampleHost fileRequest) ()

/-- What is queued when the file has no bytes. -/
def fileAnswer : List StreamCall :=
  streamCalls (fileHeader (bytes "/data/a.json"))++[.sendFile (bytes "/data/a.json") 3 (some 0)]

theorem fileRequest_ends :
    Ends (eventHandler sampleCalls sampleStream sampleServices sampleHost fileRequest)
      (fileHistory 3) (.ok fileAnswer) := by
  have hrun : (Program.run (fun (_ : Unit) c => ((),fileReply 3 c))
      (eventHandler sampleCalls sampleStream sampleServices sampleHost fileRequest) ()).2 =
      .ok fileAnswer := by decide +kernel
  exact hrun ▸ ends_run _ _ _

theorem eventHandler_complete_iff_example :
    Complete fileAnswer ↔ sameNoCase fileRequest.method (bytes "OPTIONS") = false :=
  eventHandler_complete_iff fileRequest_ends

def optionsRequest : ReceivedRequest :=
  ⟨bytes "OPTIONS",bytes "/api/settings",bytes "OPTIONS /api/settings HTTP/1.1\r\n\r\n",0,0⟩

/-- The header of the answer to an `OPTIONS` request stays open. -/
theorem options_not_complete :
    Ends (eventHandler sampleCalls sampleStream sampleServices sampleHost optionsRequest) []
        (.ok (streamCalls kickResultHeaderJson)) ∧
      (Stream.received.queue (streamCalls kickResultHeaderJson)).sendBuf =
        bytes "HTTP/1.1 200 OK\r\nContent-Type: application/json\r\n"++
          bytes "Access-Control-Allow-Origin: *\r\nAccess-Control-Allow-Methods: *\r\n"++
          bytes "Access-Control-Allow-Headers: *\r\nConnection: close\r\n" ∧
      ¬ Complete (streamCalls kickResultHeaderJson) := by
  have hdispatch : dispatch optionsRequest = .options := by decide +kernel
  refine ⟨?_,by decide +kernel,not_complete_options⟩
  unfold eventHandler
  rw [hdispatch]
  exact ends_done.mpr ⟨rfl,rfl⟩

end Sample

end CompleteAnswers
end RemotePkgInstaller
