import RemotePkgInstaller.CompleteAnswers

/-! The status under which an error reaches the client.  The one handler that may have begun
another answer when it reports an error is the one for files. -/
namespace RemotePkgInstaller
namespace ErrorStatus

open Answers CompleteAnswers EventHandler HttpText InstallPieces Installer Programs Program
  ReceivedRequests Requests Responses SendStream ServerCalls

/-- An error is reported through `kick_error`, with this code. -/
def Kicks (code : ℕ) (answered : List StreamCall) : Prop :=
  ∃ before sdk title error, answered = before++streamCalls (kickError sdk code title error)

/-- The status line has the code, and the one `Content-Type` is json. -/
def CarriesStatus (code : ℕ) (answered : List StreamCall) : Prop :=
  ∃ r : Response, Answers answered r ∧ r.code = code ∧
    (r.headers++r.body.headers).filter (fun header => header.1 = bytes "Content-Type") =
      [(bytes "Content-Type",bytes "application/json")]

section Kicks

variable {sdk : TextSdk} {failed : Prop} {answered : List StreamCall} {reply : Answer}
  {code : ℕ} {title error : Bytes}

/-- An error has nothing in front of it in an answer of its length. -/
theorem eq_kickError_of_length {before calls : List StreamCall} (hlength : calls.length = 7)
    (h : calls = before++streamCalls (kickError sdk code title error)) :
    calls = streamCalls (kickError sdk code title error) := by
  have hkick : (streamCalls (kickError sdk code title error)).length = 7 := rfl
  have hbefore : before = [] := by
    rw [h,List.length_append,hkick] at hlength
    exact List.eq_nil_of_length_eq_zero (by omega)
  rw [h,hbefore,List.nil_append]

/-- The error that an answer reports is the one whose status it carries. -/
theorem carriesStatus_of_isAnswer (h : IsAnswer reply) (hkicks : Kicks code (streamCalls reply)) :
    CarriesStatus code (streamCalls reply) := by
  obtain ⟨code',title,text,hanswers,hcalls⟩ := answers_of_isAnswer h
  obtain ⟨before,sdk,title',error,hkick⟩ := hkicks
  rw [hcalls] at hkick
  have heq := eq_kickError_of_length rfl hkick
  injection heq with hstatus _
  injection hstatus with hstatus
  injection hstatus with hcode _
  refine ⟨_,hanswers,hcode,?_⟩
  have hheaders : jsonHeaders.filter (fun header => header.1 = bytes "Content-Type") =
      [(bytes "Content-Type",bytes "application/json")] := by decide
  simpa [jsonResponse,Body.headers] using hheaders

theorem not_kicks_file {realPath : Bytes} {fd : ℤ} {size : Option ℕ} :
    ¬ Kicks code (streamCalls (fileHeader realPath)++[.sendFile realPath fd size]) := by
  rintro ⟨before,sdk,title,error,h⟩
  have hlast := congrArg List.getLast? h
  rw [List.getLast?_append,List.getLast?_append] at hlast
  cases hlast

theorem not_kicks_options : ¬ Kicks code (streamCalls kickResultHeaderJson) := by
  rintro ⟨before,sdk,title,error,h⟩
  have hlength := congrArg List.length h
  have hkick : (streamCalls (kickError sdk code title error)).length = 7 := rfl
  have hoptions : (streamCalls kickResultHeaderJson).length = 6 := rfl
  rw [List.length_append,hkick,hoptions] at hlength
  omega

/-- Behind the header of a file an error has the status of the file. -/
theorem not_carriesStatus_unsent {realPath : Bytes} {fd : ℤ} {size : Option ℕ}
    (hrefused : (Stream.received.queue (streamCalls (fileHeader realPath))).Refuses
      (.sendFile realPath fd size)) :
    ¬ CarriesStatus 500 (streamCalls (fileHeader realPath)++.sendFile realPath fd size::
      streamCalls (kickError sdk 500 (bytes "Internal server error") error)) := by
  rintro ⟨r,hanswers,hcode,_⟩
  have haccepted := (answers_unsent hrefused).accepted.symm.trans hanswers.accepted
  injection haccepted with hstatus _
  injection hstatus with hstatus
  injection hstatus with hok _
  have hne : (200 : ℕ) ≠ 500 := by decide
  exact hne (hok.trans hcode)

/-- Errors carry their status on a stream that was not left with a file that failed. -/
theorem carriesStatus_iff (h : LeftOnStream sdk failed answered) :
    (∀ code, Kicks code answered → CarriesStatus code answered) ↔ ¬ failed := by
  cases h with
  | answer hreply hfailed =>
    exact iff_of_true (fun code => carriesStatus_of_isAnswer hreply) hfailed
  | file hfd hfailed => exact iff_of_true (fun code hkicks => absurd hkicks not_kicks_file) hfailed
  | @unsent realPath error fd size hrefused hfailed =>
    refine iff_of_false (fun hcarries => ?_) (not_not.mpr hfailed)
    refine not_carriesStatus_unsent hrefused (hcarries 500 ?_)
    exact ⟨streamCalls (fileHeader realPath)++[.sendFile realPath fd size],sdk,
      bytes "Internal server error",error,by simp⟩

end Kicks

section Handlers

variable {calls : InstallCalls} {stream : StreamId} {sv : Services} {host : Host}
  {r : ReceivedRequest} {history : List ServerEvent} {answered : List StreamCall}

/-- Every error that a handler reports carries its status, if and only if the request is not
one for a file that `open` or `fstat` then fails on. -/
theorem eventHandler_errorStatus_iff
    (h : Ends (eventHandler calls stream sv host r) history (.ok answered)) :
    (∀ code, Kicks code answered → CarriesStatus code answered) ↔ ¬ FileFails r history := by
  rcases eventHandler_leaves h with ⟨_,rfl,hfails⟩ | ⟨_,hleaves⟩
  · exact iff_of_true (fun code hkicks => absurd hkicks not_kicks_options) hfails
  · exact carriesStatus_iff hleaves

end Handlers

theorem eventHandler_errorStatus_iff_example :
    (∀ code, Kicks code fileAnswer → CarriesStatus code fileAnswer) ↔
      ¬ FileFails fileRequest (fileHistory 3) :=
  eventHandler_errorStatus_iff fileRequest_ends

/-- The answer when `open` fails on a file that `stat` has found. -/
def lostFileAnswer : List StreamCall :=
  streamCalls (fileHeader (bytes "/data/a.json"))++.sendFile (bytes "/data/a.json") (-1) none::
    streamCalls (kickError plainSdk 500 (bytes "Internal server error") (bytes "cannot open file"))

/-- An error 500 goes out under the status 200, with two content types. -/
theorem lostFile_status :
    Ends (eventHandler sampleCalls sampleStream sampleServices sampleHost fileRequest)
        (fileHistory (-1)) (.ok lostFileAnswer) ∧
      Kicks 500 lostFileAnswer ∧
      (bytes "HTTP/1.1 200 OK\r\n" <+: (Stream.received.queue lostFileAnswer).sendBuf) ∧
      ¬ CarriesStatus 500 lostFileAnswer := by
  have hrun : (Program.run (fun (_ : Unit) c => ((),fileReply (-1) c))
      (eventHandler sampleCalls sampleStream sampleServices sampleHost fileRequest) ()).2 =
      .ok lostFileAnswer := by decide +kernel
  refine ⟨hrun ▸ ends_run _ _ _,?_,by decide +kernel,?_⟩
  · exact ⟨streamCalls (fileHeader (bytes "/data/a.json"))++[.sendFile (bytes "/data/a.json") (-1) none],
      plainSdk,bytes "Internal server error",bytes "cannot open file",by simp [lostFileAnswer]⟩
  · exact not_carriesStatus_unsent ⟨.cantOpen,by decide,rfl⟩

end ErrorStatus
end RemotePkgInstaller
