import RemotePkgInstaller.HttpTransfer
import RemotePkgInstaller.Lifetimes
import RemotePkgInstaller.Programs

/-! `do_request` call by call, whatever each call gives.  It has nine ways to stop, and each of
them has to take down what was set up by then. -/
namespace RemotePkgInstaller
namespace RequestTeardown

open HttpState HttpTransfer Lifetimes Programs Program Requests Responses Util

inductive HttpCall
  | createTemplate
  | disableOption (template : ℤ) (flags : ℕ)
  | enableOption (template : ℤ) (flags : ℕ)
  | createConnection (template : ℤ) (url : Bytes)
  | createRequest (connection method : ℤ) (url : Bytes) (size : ℕ)
  | addRequestHeader (request : ℤ) (header : Bytes × Bytes)
  | sendRequest (request : ℤ) (data : Option Bytes)
  | getLastErrno (request : ℤ)
  | getStatusCode (request : ℤ)
  | getContentLength (request : ℤ)
  | callback (request statusCode : ℤ) (contentLength : UInt64) (contentLengthType : ℤ)
  | deleteRequest (request : ℤ)
  | deleteConnection (connection : ℤ)
  | deleteTemplate (template : ℤ)

/-- The length of an answer, as libhttp reports it. -/
structure AnswerLength where
  contentLengthType : ℤ
  contentLength : UInt64

/-- What a call stores through its pointers. -/
@[reducible] def Stored : HttpCall → Type
  | .getLastErrno _ => ℤ
  | .getStatusCode _ => ℤ
  | .getContentLength _ => AnswerLength
  | _ => Unit

structure Reply (call : HttpCall) where
  ret : ℤ
  value : Stored call

abbrev HttpEvent := Event Reply

/-- What the caller asks for, apart from the URL. -/
structure Request where
  method : ℤ
  data : Option Bytes
  headers : Option (List (Bytes × Bytes))
  callback : Bool

/-- What `do_request` leaves and returns. -/
structure Requested where
  http : Http
  status : ℤ

abbrev HttpProgram (α : Type) := Program HttpCall Reply Empty α

def applySslOptions (http : Http) (template : ℤ) (url : Bytes) :
    SslVerifyMode → HttpProgram (Http × Bool)
  | .off => do
    let _ ← perform (.disableOption template (sslServerChecks ||| sslClientVerify))
    pure (http,true)
  | .on => do
    let _ ← perform (.disableOption template sslClientVerify)
    let enabled ← perform (.enableOption template sslServerChecks)
    if enabled.ret ≠ 0 then
      pure (http.setLastError (quoted (bytes "Unable to enable TLS verification for ") url
        (bytes ": 0x")++hex8Text enabled.ret++bytes "."),false)
    else pure (http,true)

/-- Zero, or the code of the first header that is refused. -/
def addHeaders (request : ℤ) : List (Bytes × Bytes) → HttpProgram ℤ
  | [] => pure 0
  | header::headers => do
    let added ← perform (.addRequestHeader request header)
    if added.ret ≠ 0 then pure added.ret else addHeaders request headers

def sendErrorText (http : Http) (url : Bytes) (mode : SslVerifyMode) (ret lastErrno : ℤ) : Bytes :=
  let failed := quoted (bytes "Request to ") url (bytes " failed (0x")++hex8Text ret++
    bytes ", errno "++intText lastErrno
  if mode = .on ∧ startsWith url (bytes "https://") = true then
    failed++bytes "). With TLS verification on this is usually an untrusted or expired "++
      bytes "server certificate: add its issuer to "++http.caBundlePath.val++
      bytes ", or turn ssl_verify off."
  else failed++bytes ")."

variable (r : Request) (url : Bytes) (mode : SslVerifyMode) (http : Http)

/-- The end of a request on which nothing has failed. -/
def callBack (request statusCode : ℤ) (length : AnswerLength) : HttpProgram Requested :=
  if r.callback then do
    let called ← perform
      (.callback request statusCode length.contentLength length.contentLengthType)
    pure ⟨http,called.ret⟩
  else pure ⟨http,0⟩

def receive (request : ℤ) : HttpProgram Requested := do
  let statusCode ← perform (.getStatusCode request)
  if statusCode.ret < 0 then pure ⟨http,statusCode.ret⟩
  else if isGoodStatus statusCode.value then do
    let length ← perform (.getContentLength request)
    if length.ret ≠ 0 then pure ⟨http,length.ret⟩
    else callBack r http request statusCode.value length.value
  else callBack r http request statusCode.value ⟨-1,0⟩

def useRequest (request : ℤ) : HttpProgram Requested := do
  let added ← addHeaders request (r.headers.getD [])
  if added ≠ 0 then pure ⟨http,added⟩
  else do
    let sent ← perform (.sendRequest request r.data)
    if sent.ret ≠ 0 then do
      let errno ← perform (.getLastErrno request)
      let lastErrno := if errno.ret ≠ 0 then 0 else errno.value
      pure ⟨http.setLastError (sendErrorText http url mode sent.ret lastErrno),sent.ret⟩
    else receive r http request

/-- What was created before is deleted, and the result of that is of no account. -/
def thenDelete (p : HttpProgram Requested) (c : HttpCall) : HttpProgram Requested := do
  let requested ← p
  let _ ← perform c
  pure requested

def useConnection (connection : ℤ) : HttpProgram Requested := do
  let request ← perform
    (.createRequest connection r.method url ((r.data.map List.length).getD 0))
  if request.ret < 0 then pure ⟨http,request.ret⟩
  else thenDelete (useRequest r url mode http request.ret) (.deleteRequest request.ret)

def useTemplate (template : ℤ) : HttpProgram Requested := do
  let armed ← applySslOptions http template url mode
  if armed.2 = false then pure ⟨armed.1,errorInvalidValue⟩
  else do
    let connection ← perform (.createConnection template url)
    if connection.ret < 0 then pure ⟨armed.1,connection.ret⟩
    else
      thenDelete (useConnection r url mode armed.1 connection.ret)
        (.deleteConnection connection.ret)

def doRequest (url : Option Bytes) (sslVerify : Option SslVerifyMode) : HttpProgram Requested :=
  let http := httpClearLastError http
  match url with
  | none => pure ⟨http,errorInvalidValue⟩
  | some url => do
    let template ← perform .createTemplate
    if template.ret < 0 then pure ⟨http,template.ret⟩
    else
      thenDelete (useTemplate r url (resolveMode http sslVerify) http template.ret)
        (.deleteTemplate template.ret)

section Teardown

inductive Handle
  | template (id : ℤ)
  | connection (id : ℤ)
  | request (id : ℤ)
  deriving DecidableEq

def uses : HttpCall → List Handle
  | .disableOption template _ => [.template template]
  | .enableOption template _ => [.template template]
  | .createConnection template _ => [.template template]
  | .createRequest connection _ _ _ => [.connection connection]
  | .addRequestHeader request _ => [.request request]
  | .sendRequest request _ => [.request request]
  | .getLastErrno request => [.request request]
  | .getStatusCode request => [.request request]
  | .getContentLength request => [.request request]
  | .callback request _ _ _ => [.request request]
  | _ => []

/-- A call that creates something returns its id, or an error below zero. -/
def creates : HttpCall → ℤ → Option Handle
  | .createTemplate,id => if id < 0 then none else some (.template id)
  | .createConnection _ _,id => if id < 0 then none else some (.connection id)
  | .createRequest _ _ _ _,id => if id < 0 then none else some (.request id)
  | _,_ => none

def deletes : HttpCall → Option Handle
  | .deleteRequest request => some (.request request)
  | .deleteConnection connection => some (.connection connection)
  | .deleteTemplate template => some (.template template)
  | _ => none

def act (e : HttpEvent) : Act Handle := ⟨uses e.1,creates e.1 e.2.ret,deletes e.1⟩

/-- A call that uses what is alive, and nothing more. -/
structure QuietCall (live : List Handle) (c : HttpCall) : Prop where
  uses : ∀ k ∈ uses c, k ∈ live
  creates : ∀ ret, creates c ret = none
  deletes : deletes c = none

/-- A call that deletes this. -/
structure DeleteCall (k : Handle) (c : HttpCall) : Prop where
  uses : uses c = []
  creates : ∀ ret, creates c ret = none
  deletes : deletes c = some k

/-- While these things are alive, the program deletes all that it creates, inside out. -/
def TearsDown {α : Type} (live : List Handle) (p : HttpProgram α) : Prop :=
  ∀ history a, Ends p history (.ok a) → ∃ ks, Nested live ks (history.map act)

variable {α β : Type} {live : List Handle}

theorem quiet_of_calls {first : List HttpEvent} (h : ∀ e ∈ first, QuietCall live e.1) :
    ∀ a ∈ first.map act, a.Quiet live := by
  intro a ha
  obtain ⟨e,he,rfl⟩ := List.mem_map.mp ha
  exact ⟨(h e he).uses,(h e he).creates _,(h e he).deletes⟩

theorem tearsDown_of_quiet {p : HttpProgram α} (hp : Calls (QuietCall live) p) :
    TearsDown live p := by
  intro history a h
  refine ⟨[],?_⟩
  rw [← List.append_nil (history.map act)]
  exact .quiet_append (quiet_of_calls (hp.runs h).1) .nil

theorem tearsDown_bind {p : HttpProgram α} {f : α → HttpProgram β} (hp : Calls (QuietCall live) p)
    (hf : ∀ a, TearsDown live (f a)) : TearsDown live (p >>= f) := by
  intro history b h
  rcases ends_bind.mp h with ⟨first,rest,a,rfl,h1,h2⟩ | ⟨e,_,_⟩
  · obtain ⟨ks,hks⟩ := hf a rest b h2
    rw [List.map_append]
    exact ⟨ks,.quiet_append (quiet_of_calls (hp.runs h1).1) hks⟩
  · exact e.elim

/-- What one call creates is deleted behind all that happens with it. -/
theorem tearsDown_setUp {c : HttpCall} {handle : ℤ → Handle} {delete : ℤ → HttpCall}
    {failed : Reply c → Requested} {body : Reply c → HttpProgram Requested}
    (huses : ∀ k ∈ uses c, k ∈ live) (hdeletes : deletes c = none)
    (hcreates : ∀ id, creates c id = if id < 0 then none else some (handle id))
    (hfresh : ∀ id, handle id ∉ live) (hdelete : ∀ id, DeleteCall (handle id) (delete id))
    (hbody : ∀ reply, TearsDown (handle reply.ret::live) (body reply)) :
    TearsDown live (perform c >>= fun reply =>
      if reply.ret < 0 then pure (failed reply)
      else thenDelete (body reply) (delete reply.ret)) := by
  intro history a h
  obtain ⟨reply,rest,rfl,hrest⟩ := ends_perform_bind.mp h
  split_ifs at hrest with hneg
  · obtain ⟨rfl,_⟩ := ends_done.mp hrest
    exact ⟨[],.quiet ⟨huses,by rw [act,hcreates,if_pos hneg],hdeletes⟩ .nil⟩
  · rcases ends_bind.mp hrest with ⟨first,rest,requested,rfl,h1,h2⟩ | ⟨e,_,_⟩
    · obtain ⟨deleted,rest,rfl,hlast⟩ := ends_perform_bind.mp h2
      obtain ⟨rfl,_⟩ := ends_done.mp hlast
      obtain ⟨ks,hks⟩ := hbody reply first requested h1
      have hd := hdelete reply.ret
      rw [List.map_cons,List.map_append]
      exact ⟨handle reply.ret::ks,.bracket
        ⟨huses,by rw [act,hcreates,if_neg hneg],hdeletes,hfresh _⟩ hks
        ⟨hd.uses,hd.creates _,hd.deletes⟩⟩
    · exact e.elim

variable {r url mode http} {request connection template : ℤ}

theorem quietCall_request {c : HttpCall} (huses : uses c = [.request request])
    (hcreates : ∀ ret, creates c ret = none) (hdeletes : deletes c = none) :
    QuietCall (.request request::live) c := by
  refine ⟨fun k hk => ?_,hcreates,hdeletes⟩
  rw [huses,List.mem_singleton] at hk
  exact hk ▸ List.mem_cons_self

theorem addHeaders_quiet (headers : List (Bytes × Bytes)) :
    Calls (QuietCall (.request request::live)) (addHeaders request headers) := by
  induction headers with
  | nil => trivial
  | cons header headers ih =>
    refine calls_perform_bind (quietCall_request rfl (fun _ => rfl) rfl) fun added => ?_
    split_ifs
    · trivial
    · exact ih

theorem callBack_quiet (statusCode : ℤ) (length : AnswerLength) :
    Calls (QuietCall (.request request::live)) (callBack r http request statusCode length) := by
  unfold callBack
  split_ifs
  · exact calls_perform_bind (quietCall_request rfl (fun _ => rfl) rfl) fun _ => trivial
  · trivial

theorem receive_quiet :
    Calls (QuietCall (.request request::live)) (receive r http request) := by
  refine calls_perform_bind (quietCall_request rfl (fun _ => rfl) rfl) fun statusCode => ?_
  split_ifs
  · trivial
  · refine calls_perform_bind (quietCall_request rfl (fun _ => rfl) rfl) fun length => ?_
    split_ifs
    · trivial
    · exact callBack_quiet _ _
  · exact callBack_quiet _ _

theorem useRequest_quiet :
    Calls (QuietCall (.request request::live)) (useRequest r url mode http request) := by
  refine calls_bind (addHeaders_quiet _) fun added => ?_
  split_ifs
  · trivial
  · refine calls_perform_bind (quietCall_request rfl (fun _ => rfl) rfl) fun sent => ?_
    split_ifs
    · exact calls_perform_bind (quietCall_request rfl (fun _ => rfl) rfl) fun _ => trivial
    · exact receive_quiet

theorem applySslOptions_quiet :
    Calls (QuietCall [.template template]) (applySslOptions http template url mode) := by
  have hquiet {c : HttpCall} (huses : uses c = [.template template])
      (hcreates : ∀ ret, creates c ret = none) (hdeletes : deletes c = none) :
      QuietCall [.template template] c :=
    ⟨fun k hk => huses ▸ hk,hcreates,hdeletes⟩
  cases mode with
  | off => exact calls_perform_bind (hquiet rfl (fun _ => rfl) rfl) fun _ => trivial
  | on =>
    refine calls_perform_bind (hquiet rfl (fun _ => rfl) rfl) fun _ =>
      calls_perform_bind (hquiet rfl (fun _ => rfl) rfl) fun enabled => ?_
    split_ifs
    · trivial
    · trivial

theorem useConnection_tearsDown :
    TearsDown [.connection connection,.template template]
      (useConnection r url mode http connection) :=
  tearsDown_setUp (fun _ hk => List.mem_cons.mpr (Or.inl (List.mem_singleton.mp hk))) rfl
    (fun _ => rfl) (fun _ h => by simp at h) (fun _ => ⟨rfl,fun _ => rfl,rfl⟩)
    fun _ => tearsDown_of_quiet useRequest_quiet

theorem useTemplate_tearsDown :
    TearsDown [.template template] (useTemplate r url mode http template) := by
  refine tearsDown_bind applySslOptions_quiet fun armed => ?_
  split_ifs
  · exact tearsDown_of_quiet trivial
  · exact tearsDown_setUp (fun _ hk => hk) rfl (fun _ => rfl) (fun _ h => by simp at h)
      (fun _ => ⟨rfl,fun _ => rfl,rfl⟩) fun _ => useConnection_tearsDown

theorem doRequest_tearsDown (url : Option Bytes) (sslVerify : Option SslVerifyMode) :
    TearsDown [] (doRequest r http url sslVerify) := by
  cases url with
  | none => exact tearsDown_of_quiet trivial
  | some url =>
    exact tearsDown_setUp (fun _ hk => hk) rfl (fun _ => rfl) (fun _ => List.not_mem_nil)
      (fun _ => ⟨rfl,fun _ => rfl,rfl⟩) fun _ => useTemplate_tearsDown

end Teardown

section Status

/-- The code with which a call makes the request stop, if it does. -/
def stopCode : HttpCall → ℤ → Option ℤ
  | .createTemplate,ret => if ret < 0 then some ret else none
  | .enableOption _ _,ret => if ret ≠ 0 then some errorInvalidValue else none
  | .createConnection _ _,ret => if ret < 0 then some ret else none
  | .createRequest _ _ _ _,ret => if ret < 0 then some ret else none
  | .addRequestHeader _ _,ret => if ret ≠ 0 then some ret else none
  | .sendRequest _ _,ret => if ret ≠ 0 then some ret else none
  | .getStatusCode _,ret => if ret < 0 then some ret else none
  | .getContentLength _,ret => if ret ≠ 0 then some ret else none
  | .callback _ _ _ _,ret => some ret
  | _,_ => none

/-- The calls that are made once the request has stopped. -/
def CleansUp : HttpCall → Prop
  | .getLastErrno _ => True
  | .deleteRequest _ => True
  | .deleteConnection _ => True
  | .deleteTemplate _ => True
  | _ => False

def Sent (e : HttpEvent) : Prop := ∃ request data, e.1 = .sendRequest request data ∧ e.2.ret = 0

def StatusObtained (e : HttpEvent) : Prop := ∃ request, e.1 = .getStatusCode request ∧ 0 ≤ e.2.ret

def CalledBack (e : HttpEvent) : Prop :=
  ∃ request statusCode length type, e.1 = .callback request statusCode length type ∧ e.2.ret = 0

def Passed (history : List HttpEvent) : Prop := ∀ e ∈ history, stopCode e.1 e.2.ret = none

/-- The status is the code of the call that made the request stop, which is followed by the
clean-up only; or nothing made it stop and there is no callback.  It is zero only if all went
well. -/
structure Explains (callback : Bool) (history : List HttpEvent) (status : ℤ) : Prop where
  stopped : (∃ before stop after, history = before++stop::after ∧ Passed before ∧
      stopCode stop.1 stop.2.ret = some status ∧ ∀ e ∈ after, CleansUp e.1) ∨
    (callback = false ∧ Passed history ∧ status = 0)
  zero : status = 0 → (∃ e ∈ history, Sent e) ∧ (∃ e ∈ history, StatusObtained e) ∧
    (callback = true → ∃ e ∈ history, CalledBack e)

/-- After these calls, each of which passed, the program ends with a status that is explained. -/
def Explained (callback : Bool) (before : List HttpEvent) (p : HttpProgram Requested) : Prop :=
  Passed before → ∀ history q, Ends p history (.ok q) → Explains callback (before++history) q.status

/-- The program ends with this status and does nothing but clean up. -/
def StopsWith (code : ℤ) (p : HttpProgram Requested) : Prop :=
  ∀ history q, Ends p history (.ok q) → q.status = code ∧ ∀ e ∈ history, CleansUp e.1

variable {callback : Bool} {before history : List HttpEvent} {c : HttpCall} {code status : ℤ}
  {e : HttpEvent}

theorem stopCode_of_cleansUp (h : CleansUp c) (ret : ℤ) : stopCode c ret = none := by
  cases c <;> first | rfl | cases h

theorem Passed.concat (h : Passed history) (he : stopCode e.1 e.2.ret = none) :
    Passed (history++[e]) := by
  intro e' he'
  rcases List.mem_append.mp he' with he' | he'
  · exact h e' he'
  · exact List.mem_singleton.mp he' ▸ he

/-- What has happened is not undone by what follows. -/
theorem exists_append {P : HttpEvent → Prop} (more : List HttpEvent) (h : ∃ e ∈ before, P e) :
    ∃ e ∈ before++more, P e := h.imp fun _ he => ⟨List.mem_append_left _ he.1,he.2⟩

/-- Cleaning up does not change what the status means. -/
theorem Explains.concat (h : Explains callback history status) (he : CleansUp e.1) :
    Explains callback (history++[e]) status := by
  refine ⟨?_,fun h0 => ?_⟩
  · rcases h.stopped with ⟨before,stop,after,rfl,hbefore,hstop,hafter⟩ | ⟨hcallback,hpassed,h0⟩
    · refine Or.inl ⟨before,stop,after++[e],by simp,hbefore,hstop,?_⟩
      intro e' he'
      rcases List.mem_append.mp he' with he' | he'
      · exact hafter e' he'
      · exact List.mem_singleton.mp he' ▸ he
    · exact Or.inr ⟨hcallback,hpassed.concat (stopCode_of_cleansUp he _),h0⟩
  · obtain ⟨hsent,hstatus,hcalled⟩ := h.zero h0
    exact ⟨exists_append _ hsent,exists_append _ hstatus,fun hcallback =>
      exists_append _ (hcalled hcallback)⟩

theorem stopsWith_pure {http : Http} : StopsWith code (pure ⟨http,code⟩) := by
  intro history q h
  obtain ⟨rfl,hq⟩ := ends_done.mp h
  exact ⟨by rw [Except.ok.inj hq],fun _ he => nomatch he⟩

/-- A call that does not make the request stop is passed. -/
theorem explained_pass {f : Reply c → HttpProgram Requested}
    (hpass : ∀ reply, stopCode c reply.ret = none ∧
      Explained callback (before++[⟨c,reply⟩]) (f reply)) :
    Explained callback before (perform c >>= f) := by
  intro hbefore history q h
  obtain ⟨reply,rest,rfl,hrest⟩ := ends_perform_bind.mp h
  obtain ⟨hcode,hexplained⟩ := hpass reply
  have hexplains := hexplained (hbefore.concat hcode) rest q hrest
  rwa [List.append_assoc] at hexplains

/-- A call makes the request stop if its result is a failure. -/
theorem explained_check {f : Reply c → HttpProgram Requested} {Fails : ℤ → Prop}
    [DecidablePred Fails] {code : ℤ → ℤ}
    (hstop : ∀ ret, stopCode c ret = if Fails ret then some (code ret) else none)
    (hne : ∀ ret, Fails ret → code ret ≠ 0)
    (hfail : ∀ reply, Fails reply.ret → StopsWith (code reply.ret) (f reply))
    (hpass : ∀ reply, ¬ Fails reply.ret → Explained callback (before++[⟨c,reply⟩]) (f reply)) :
    Explained callback before (perform c >>= f) := by
  intro hbefore history q h
  obtain ⟨reply,rest,rfl,hrest⟩ := ends_perform_bind.mp h
  have hcode := hstop reply.ret
  by_cases hfails : Fails reply.ret
  · rw [if_pos hfails] at hcode
    obtain ⟨hstatus,hclean⟩ := hfail reply hfails rest q hrest
    rw [hstatus]
    exact ⟨Or.inl ⟨before,⟨c,reply⟩,rest,rfl,hbefore,hcode,hclean⟩,
      fun h0 => absurd h0 (hne _ hfails)⟩
  · rw [if_neg hfails] at hcode
    have hexplains := hpass reply hfails (hbefore.concat hcode) rest q hrest
    rwa [List.append_assoc] at hexplains

theorem Explained.thenDelete {p : HttpProgram Requested} (h : Explained callback before p)
    (hc : CleansUp c) : Explained callback before (thenDelete p c) := by
  intro hbefore history q hend
  rcases ends_bind.mp hend with ⟨first,rest,requested,rfl,h1,h2⟩ | ⟨e,_,_⟩
  · obtain ⟨deleted,rest,rfl,hlast⟩ := ends_perform_bind.mp h2
    obtain ⟨rfl,hq⟩ := ends_done.mp hlast
    have hexplains := (h hbefore first requested h1).concat (e := ⟨c,deleted⟩) hc
    rw [List.append_assoc] at hexplains
    rwa [Except.ok.inj hq]
  · exact e.elim

variable {r : Request} {url : Bytes} {mode : SslVerifyMode} {http : Http}
  {request connection template : ℤ}

theorem callBack_explained (statusCode : ℤ) (length : AnswerLength)
    (hsent : ∃ e ∈ before, Sent e) (hstatus : ∃ e ∈ before, StatusObtained e) :
    Explained r.callback before (callBack r http request statusCode length) := by
  intro hbefore history q h
  unfold callBack at h
  split_ifs at h with hcallback
  · obtain ⟨called,rest,rfl,hrest⟩ := ends_perform_bind.mp h
    obtain ⟨rfl,hq⟩ := ends_done.mp hrest
    rw [Except.ok.inj hq]
    refine ⟨Or.inl ⟨before,_,[],rfl,hbefore,rfl,fun _ he => nomatch he⟩,fun h0 => ?_⟩
    exact ⟨exists_append _ hsent,exists_append _ hstatus,fun _ => ⟨_,List.mem_append_right _ List.mem_cons_self,
      request,statusCode,_,_,rfl,h0⟩⟩
  · obtain ⟨rfl,hq⟩ := ends_done.mp h
    rw [Except.ok.inj hq,List.append_nil]
    have hfalse := Bool.eq_false_iff.mpr hcallback
    exact ⟨Or.inr ⟨hfalse,hbefore,rfl⟩,fun _ => ⟨hsent,hstatus,fun h => absurd h hcallback⟩⟩

theorem receive_explained (hsent : ∃ e ∈ before, Sent e) :
    Explained r.callback before (receive r http request) := by
  refine explained_check (fun _ => rfl) (fun _ h => h.ne) (fun statusCode hneg => ?_)
    fun statusCode hneg => ?_
  · rw [if_pos hneg]
    exact stopsWith_pure
  have hstatus : ∃ e ∈ before++[⟨.getStatusCode request,statusCode⟩], StatusObtained e :=
    ⟨_,List.mem_append_right _ List.mem_cons_self,request,rfl,not_lt.mp hneg⟩
  rw [if_neg hneg]
  by_cases hgood : isGoodStatus statusCode.value = true
  · rw [if_pos hgood]
    refine explained_check (fun _ => rfl) (fun _ h => h) (fun length hne => ?_) fun length hne => ?_
    · rw [if_pos hne]
      exact stopsWith_pure
    · rw [if_neg hne]
      exact callBack_explained _ _ (exists_append _ (exists_append _ hsent))
        (exists_append _ hstatus)
  · rw [if_neg hgood]
    exact callBack_explained _ _ (exists_append _ hsent) hstatus

/-- The headers are passed or one of them is refused. -/
theorem addHeaders_explained {f : ℤ → HttpProgram Requested} (headers : List (Bytes × Bytes))
    (hstop : ∀ code, code ≠ 0 → StopsWith code (f code))
    (hpass : ∀ before, Explained callback before (f 0)) :
    Explained callback before (addHeaders request headers >>= f) := by
  induction headers generalizing before with
  | nil => exact hpass before
  | cons header headers ih =>
    change Explained callback before (perform (.addRequestHeader request header) >>= fun added =>
      (if added.ret ≠ 0 then pure added.ret else addHeaders request headers) >>= f)
    refine explained_check (fun _ => rfl) (fun _ h => h) (fun added hne => ?_) fun added hne => ?_
    · rw [if_pos hne]
      exact hstop _ hne
    · rw [if_neg hne]
      exact ih

theorem useRequest_explained :
    Explained r.callback before (useRequest r url mode http request) := by
  refine addHeaders_explained _ (fun code hne => ?_) fun before => ?_
  · rw [if_pos hne]
    exact stopsWith_pure
  rw [if_neg (not_not.mpr rfl)]
  refine explained_check (fun _ => rfl) (fun _ h => h) (fun sent hne => ?_) fun sent hne => ?_
  · rw [if_pos hne]
    intro history q h
    obtain ⟨errno,rest,rfl,hrest⟩ := ends_perform_bind.mp h
    obtain ⟨rfl,hq⟩ := ends_done.mp hrest
    rw [Except.ok.inj hq]
    refine ⟨rfl,fun e he => ?_⟩
    rw [List.mem_singleton.mp he]
    trivial
  · rw [if_neg hne]
    exact receive_explained ⟨_,List.mem_append_right _ List.mem_cons_self,request,r.data,rfl,
      not_not.mp hne⟩

/-- The calls that create something stop the request if they fail. -/
theorem explained_setUp {c : HttpCall} {delete : ℤ → HttpCall} {http : Http}
    {body : Reply c → HttpProgram Requested}
    (hstop : ∀ ret, stopCode c ret = if ret < 0 then some ret else none)
    (hdelete : ∀ id, CleansUp (delete id))
    (hbody : ∀ before reply, Explained callback before (body reply)) :
    Explained callback before (perform c >>= fun reply =>
      if reply.ret < 0 then pure ⟨http,reply.ret⟩
      else thenDelete (body reply) (delete reply.ret)) := by
  refine explained_check hstop (fun _ h => h.ne) (fun reply hneg => ?_) fun reply hneg => ?_
  · rw [if_pos hneg]
    exact stopsWith_pure
  · rw [if_neg hneg]
    exact (hbody _ _).thenDelete (hdelete _)

theorem useConnection_explained :
    Explained r.callback before (useConnection r url mode http connection) :=
  explained_setUp (fun _ => rfl) (fun _ => trivial) fun _ _ => useRequest_explained

theorem useTemplate_explained :
    Explained r.callback before (useTemplate r url mode http template) := by
  have hconnect {before : List HttpEvent} (http : Http) : Explained r.callback before
      (perform (.createConnection template url) >>= fun connection =>
        if connection.ret < 0 then pure ⟨http,connection.ret⟩
        else thenDelete (useConnection r url mode http connection.ret)
          (.deleteConnection connection.ret)) :=
    explained_setUp (fun _ => rfl) (fun _ => trivial) fun _ _ => useConnection_explained
  cases mode with
  | off => exact explained_pass fun _ => ⟨rfl,hconnect http⟩
  | on =>
    refine explained_pass fun _ => ⟨rfl,?_⟩
    refine explained_check (fun _ => rfl) (fun _ _ => by decide) (fun enabled hne => ?_)
      fun enabled hne => ?_
    · change StopsWith _ ((if enabled.ret ≠ 0 then _ else _) >>= _)
      rw [if_pos hne]
      exact stopsWith_pure
    · change Explained _ _ ((if enabled.ret ≠ 0 then _ else _) >>= _)
      rw [if_neg hne]
      exact hconnect http

end Status

section Results

variable {α : Type} (sdk : Sdk) (answer : HostAnswer) (cb : Callback α)

/-- The calls with the results of a record; `i` is how many headers were added. -/
def answers (i : ℕ) : (c : HttpCall) → ℕ × Reply c
  | .createTemplate => (i,⟨sdk.createTemplate,()⟩)
  | .disableOption _ _ => (i,⟨sdk.disableOption,()⟩)
  | .enableOption _ _ => (i,⟨sdk.enableOption,()⟩)
  | .createConnection _ _ => (i,⟨sdk.createConnection,()⟩)
  | .createRequest _ _ _ _ => (i,⟨sdk.createRequest,()⟩)
  | .addRequestHeader _ _ => (i+1,⟨sdk.addRequestHeader i,()⟩)
  | .sendRequest _ _ => (i,⟨sdk.sendRequest,()⟩)
  | .getLastErrno _ => (i,⟨if sdk.lastErrno = none then -1 else 0,sdk.lastErrno.getD 0⟩)
  | .getStatusCode _ => (i,⟨sdk.getStatusCode,answer.statusCode⟩)
  | .getContentLength _ => (i,⟨sdk.getContentLength,answer.contentLengthType,answer.contentLength⟩)
  | .callback request statusCode length type =>
    (i,⟨(cb request statusCode length type answer.body).1,()⟩)
  | .deleteRequest _ => (i,⟨0,()⟩)
  | .deleteConnection _ => (i,⟨0,()⟩)
  | .deleteTemplate _ => (i,⟨0,()⟩)

/-- A call as the transfers have it. -/
def transferCall : HttpCall → SdkCall
  | .createTemplate => .createTemplate
  | .disableOption template flags => .disableOption template flags
  | .enableOption template flags => .enableOption template flags
  | .createConnection template url => .createConnection template url
  | .createRequest connection _ url _ => .createRequest connection url
  | .addRequestHeader request header => .addRequestHeader request header.1 header.2
  | .sendRequest request _ => .sendRequest request
  | .getLastErrno request => .getLastErrno request
  | .getStatusCode request => .getStatusCode request
  | .getContentLength request => .getContentLength request
  | .callback request _ _ _ => .callback request
  | .deleteRequest request => .deleteRequest request
  | .deleteConnection connection => .deleteConnection connection
  | .deleteTemplate template => .deleteTemplate template

def transferCalls {β : Type} (p : HttpProgram β) (i : ℕ) : List SdkCall :=
  (Program.history (answers sdk answer cb) p i).map fun e => transferCall e.1

/-- With these results the program makes the calls of the exchange and ends like it. -/
def Agrees (p : HttpProgram Requested) (i : ℕ) (e : Exchange α) : Prop :=
  (run (answers sdk answer cb) p i).2 = .ok ⟨e.http,e.status⟩ ∧
    transferCalls sdk answer cb p i = e.calls

variable {sdk answer cb} {url : Bytes} {headers : List (Bytes × Bytes)} {init : α}
  {mode : SslVerifyMode} {http : Http} {method : ℤ} {request connection template : ℤ} {i : ℕ}

/-- A call is made, and the program goes on with its result. -/
theorem agrees_perform {c : HttpCall} {f : Reply c → HttpProgram Requested} {e : Exchange α}
    (h : Agrees sdk answer cb (f (answers sdk answer cb i c).2) (answers sdk answer cb i c).1 e) :
    Agrees sdk answer cb (perform c >>= f) i (e.after [transferCall c]) :=
  ⟨h.1,congrArg (transferCall c::·) h.2⟩

theorem Agrees.thenDelete {p : HttpProgram Requested} {e : Exchange α} {c : HttpCall}
    (h : Agrees sdk answer cb p i e) :
    Agrees sdk answer cb (thenDelete p c) i (e.andThen [transferCall c]) := by
  refine ⟨?_,?_⟩
  · rw [RequestTeardown.thenDelete,run_bind,goOn,h.1]
    rfl
  · have hcalls := h.2
    rw [transferCalls] at hcalls
    rw [transferCalls,RequestTeardown.thenDelete,history_bind,h.1,List.map_append,hcalls]
    rfl

/-- The headers are added, and the program goes on with the result. -/
theorem addHeaders_agrees {f : ℤ → HttpProgram Requested} {e : Exchange α}
    (headers : List (Bytes × Bytes))
    (h : ∀ j, Agrees sdk answer cb (f (HttpTransfer.addHeaders sdk request i headers).1) j e) :
    Agrees sdk answer cb (addHeaders request headers >>= f) i
      (e.after (HttpTransfer.addHeaders sdk request i headers).2) := by
  induction headers generalizing i with
  | nil => exact h i
  | cons header headers ih =>
    by_cases hne : sdk.addRequestHeader i ≠ 0
    · rw [HttpTransfer.addHeaders,if_pos hne] at h ⊢
      refine agrees_perform (c := .addRequestHeader request header) ?_
      change Agrees _ _ _ ((if sdk.addRequestHeader i ≠ 0 then _ else _) >>= f) _ _
      rw [if_pos hne]
      exact h _
    · rw [HttpTransfer.addHeaders,if_neg hne] at h ⊢
      refine agrees_perform (c := .addRequestHeader request header)
        (e := e.after (HttpTransfer.addHeaders sdk request (i+1) headers).2) ?_
      change Agrees _ _ _ ((if sdk.addRequestHeader i ≠ 0 then _ else _) >>= f) _ _
      rw [if_neg hne]
      exact ih h

theorem Agrees.of_calls {p : HttpProgram Requested} {e : Exchange α} {calls : List SdkCall}
    (h : Agrees sdk answer cb p i e) (hcalls : e.calls = calls) :
    Agrees sdk answer cb p i { e with calls := calls } := hcalls ▸ h

theorem agrees_pure {status : ℤ} :
    Agrees sdk answer cb (pure ⟨http,status⟩) i ⟨http,status,init,[]⟩ := ⟨rfl,rfl⟩

theorem receive_agrees : Agrees sdk (sdk.host ⟨url,headers⟩) cb
    (receive ⟨method,none,some headers,true⟩ http request) i
    (HttpTransfer.receive url headers init cb sdk http request) := by
  by_cases hstatus : sdk.getStatusCode < 0
  · simp [Agrees,receive,HttpTransfer.receive,run,Program.history,transferCalls,answers,
      transferCall,hstatus]
  by_cases hgood : isGoodStatus (sdk.host ⟨url,headers⟩).statusCode = true
  · by_cases hlength : sdk.getContentLength ≠ 0
    · simp [Agrees,receive,HttpTransfer.receive,run,Program.history,transferCalls,answers,
        transferCall,hstatus,hgood,hlength]
    · simp [Agrees,receive,HttpTransfer.receive,callBack,run,Program.history,transferCalls,answers,
        transferCall,hstatus,hgood,not_not.mp hlength,announced]
  · simp [Agrees,receive,HttpTransfer.receive,callBack,run,Program.history,transferCalls,answers,
      transferCall,hstatus,hgood,announced]

theorem useRequest_agrees : Agrees sdk (sdk.host ⟨url,headers⟩) cb
    (useRequest ⟨method,none,some headers,true⟩ url mode http request) 0
    (HttpTransfer.useRequest url headers init cb mode sdk http request) := by
  unfold HttpTransfer.useRequest
  dsimp only
  obtain ⟨added,hadd⟩ : ∃ added, added = (HttpTransfer.addHeaders sdk request 0 headers).1 :=
    ⟨_,rfl⟩
  rw [← hadd]
  by_cases hadded : added ≠ 0
  · rw [if_pos hadded]
    refine (addHeaders_agrees (e := ⟨http,added,init,[]⟩) headers fun j => ?_).of_calls
      (List.append_nil _)
    rw [← hadd,if_pos hadded]
    exact agrees_pure
  rw [if_neg hadded]
  by_cases hsent : sdk.sendRequest ≠ 0
  · rw [if_pos hsent]
    refine addHeaders_agrees (e := ⟨http.setLastError (sendError http url mode sdk),
      sdk.sendRequest,init,[.sendRequest request,.getLastErrno request]⟩) headers fun j => ?_
    rw [← hadd,if_neg hadded]
    cases herrno : sdk.lastErrno <;>
      simp [Agrees,run,Program.history,transferCalls,answers,transferCall,hsent,sendErrorText,
        sendError,herrno]
  · rw [if_neg hsent]
    refine (addHeaders_agrees
      (e := (HttpTransfer.receive url headers init cb sdk http request).after [.sendRequest request])
      headers fun j => ?_).of_calls (List.append_assoc _ _ _).symm
    rw [← hadd,if_neg hadded]
    refine agrees_perform (c := .sendRequest request none) ?_
    change Agrees _ _ _ (if sdk.sendRequest ≠ 0 then _ else _) _ _
    rw [if_neg hsent]
    exact receive_agrees

theorem agrees_setUp {c : HttpCall} {delete : ℤ → HttpCall} {e : Exchange α} (reply : Reply c)
    {body : Reply c → HttpProgram Requested} (hreply : answers sdk answer cb i c = (i,reply))
    (hbody : Agrees sdk answer cb (body reply) i e) :
    Agrees sdk answer cb (perform c >>= fun reply =>
        if reply.ret < 0 then pure ⟨http,reply.ret⟩
        else thenDelete (body reply) (delete reply.ret)) i
      (if reply.ret < 0 then ⟨http,reply.ret,init,[transferCall c]⟩
        else (e.after [transferCall c]).andThen [transferCall (delete reply.ret)]) := by
  by_cases hneg : reply.ret < 0
  · rw [if_pos hneg]
    refine agrees_perform (e := ⟨http,reply.ret,init,[]⟩) ?_
    rw [hreply]
    dsimp only
    rw [if_pos hneg]
    exact agrees_pure
  · rw [if_neg hneg]
    refine agrees_perform (e := e.andThen [transferCall (delete reply.ret)]) ?_
    rw [hreply]
    dsimp only
    rw [if_neg hneg]
    exact hbody.thenDelete

theorem useConnection_agrees : Agrees sdk (sdk.host ⟨url,headers⟩) cb
    (useConnection ⟨method,none,some headers,true⟩ url mode http connection) 0
    (HttpTransfer.useConnection url headers init cb mode sdk http connection) :=
  agrees_setUp ⟨sdk.createRequest,()⟩ rfl useRequest_agrees

/-- A program whose result and calls are known, and one that goes on from there. -/
theorem agrees_bind {β : Type} {p : HttpProgram β} {f : β → HttpProgram Requested} {b : β} {j : ℕ}
    {calls : List SdkCall} {e : Exchange α} (hrun : run (answers sdk answer cb) p i = (j,.ok b))
    (hcalls : transferCalls sdk answer cb p i = calls) (hf : Agrees sdk answer cb (f b) j e) :
    Agrees sdk answer cb (p >>= f) i (e.after calls) := by
  refine ⟨?_,?_⟩
  · rw [run_bind,goOn,hrun]
    exact hf.1
  · rw [transferCalls] at hcalls
    have hrest := hf.2
    rw [transferCalls] at hrest
    rw [transferCalls,history_bind,hrun,List.map_append,hcalls,hrest]
    rfl

theorem applySslOptions_run :
    run (answers sdk answer cb) (applySslOptions http template url mode) i =
        (i,.ok ((HttpTransfer.applySslOptions http template url mode sdk).http,
          (HttpTransfer.applySslOptions http template url mode sdk).value)) ∧
      transferCalls sdk answer cb (applySslOptions http template url mode) i =
        (HttpTransfer.applySslOptions http template url mode sdk).calls := by
  cases mode with
  | off => exact ⟨rfl,rfl⟩
  | on =>
    by_cases hne : sdk.enableOption ≠ 0
    · simp [applySslOptions,HttpTransfer.applySslOptions,run,Program.history,transferCalls,answers,
        transferCall,hne]
    · simp [applySslOptions,HttpTransfer.applySslOptions,run,Program.history,transferCalls,answers,
        transferCall,not_not.mp hne]

theorem connect_agrees : Agrees sdk (sdk.host ⟨url,headers⟩) cb
    (perform (.createConnection template url) >>= fun connection =>
      if connection.ret < 0 then pure ⟨http,connection.ret⟩
      else thenDelete (useConnection ⟨method,none,some headers,true⟩ url mode http connection.ret)
        (.deleteConnection connection.ret)) 0
    (if sdk.createConnection < 0 then
      ⟨http,sdk.createConnection,init,[.createConnection template url]⟩
    else
      ((HttpTransfer.useConnection url headers init cb mode sdk http sdk.createConnection).after
        [.createConnection template url]).andThen [.deleteConnection sdk.createConnection]) :=
  agrees_setUp ⟨sdk.createConnection,()⟩ rfl useConnection_agrees

theorem useTemplate_agrees : Agrees sdk (sdk.host ⟨url,headers⟩) cb
    (useTemplate ⟨method,none,some headers,true⟩ url mode http template) 0
    (HttpTransfer.useTemplate url headers init cb mode sdk http template) := by
  obtain ⟨hrun,hcalls⟩ :=
    @applySslOptions_run α sdk (sdk.host ⟨url,headers⟩) cb url mode http template 0
  unfold HttpTransfer.useTemplate
  dsimp only
  obtain ⟨armed,harmed⟩ :
      ∃ armed, armed = HttpTransfer.applySslOptions http template url mode sdk := ⟨_,rfl⟩
  rw [← harmed] at hrun hcalls ⊢
  by_cases hoff : armed.value = false
  · rw [if_pos hoff]
    refine (agrees_bind (e := ⟨armed.http,errorInvalidValue,init,[]⟩) hrun hcalls ?_).of_calls
      (List.append_nil _)
    dsimp only
    rw [if_pos hoff]
    exact agrees_pure
  have hconnect := @connect_agrees α sdk cb url headers init mode armed.http method template
  have hafter (e : Exchange α) (h : Agrees sdk (sdk.host ⟨url,headers⟩) cb
      (perform (.createConnection template url) >>= fun connection =>
        if connection.ret < 0 then pure ⟨armed.http,connection.ret⟩
        else thenDelete
          (useConnection ⟨method,none,some headers,true⟩ url mode armed.http connection.ret)
          (.deleteConnection connection.ret)) 0 e) :
      Agrees sdk (sdk.host ⟨url,headers⟩) cb
        (useTemplate ⟨method,none,some headers,true⟩ url mode http template) 0
        (e.after armed.calls) := by
    refine agrees_bind hrun hcalls ?_
    dsimp only
    rwa [if_neg hoff]
  rw [if_neg hoff]
  by_cases hneg : sdk.createConnection < 0
  · rw [if_pos hneg] at hconnect ⊢
    exact hafter _ hconnect
  · rw [if_neg hneg] at hconnect ⊢
    refine (hafter _ hconnect).of_calls ?_
    simp [Exchange.after,Exchange.andThen]

/-- With a URL, headers and a callback, and for the results of a record, the request is the one
that the transfers make. -/
theorem doRequest_agrees (sslVerify : Option SslVerifyMode) : Agrees sdk (sdk.host ⟨url,headers⟩) cb
    (doRequest ⟨method,none,some headers,true⟩ http (some url) sslVerify) 0
    (HttpTransfer.doRequest url headers init cb sdk http sslVerify) :=
  agrees_setUp ⟨sdk.createTemplate,()⟩ rfl useTemplate_agrees

end Results

/-- Whatever the calls give, a request is taken down exactly, and its status is the code of the
call that made it stop. -/
theorem doRequest_exact (r : Request) (http : Http) (url : Option Bytes)
    (sslVerify : Option SslVerifyMode) (history : List HttpEvent) (q : Requested)
    (h : Ends (doRequest r http url sslVerify) history (.ok q)) :
    TornDown (history.map act) ∧
      (url = none → history = [] ∧ q.status = errorInvalidValue) ∧
      (url ≠ none → Explains r.callback history q.status) := by
  obtain ⟨ks,hks⟩ := doRequest_tearsDown url sslVerify history q h
  refine ⟨hks.tornDown,?_,?_⟩
  · rintro rfl
    obtain ⟨rfl,hq⟩ := ends_done.mp h
    rw [Except.ok.inj hq]
    exact ⟨rfl,rfl⟩
  · intro hurl
    obtain ⟨url,rfl⟩ := Option.ne_none_iff_exists'.mp hurl
    have hexplained : Explained r.callback [] (doRequest r http (some url) sslVerify) :=
      explained_setUp (fun _ => rfl) (fun _ => trivial) fun _ _ => useTemplate_explained
    exact hexplained (fun _ he => nomatch he) history q h

/-- Everything succeeds, and the host answers with a file of five bytes. -/
def sampleSdk : Sdk :=
  ⟨1,0,0,2,3,fun _ => 0,0,none,0,0,fun _ => true,fun _ => 0,fun _ => ⟨200,1,5,[]⟩⟩

def sampleRequest : Request := ⟨0,none,some [acceptEncoding],true⟩

theorem doRequest_exact_get :
    let history := Program.history (answers sampleSdk ⟨200,1,5,[]⟩ fun _ _ _ _ _ => (0,()))
      (doRequest sampleRequest Http.fresh (some (bytes "https://h/f")) none) 0
    TornDown (history.map act) ∧ Explains true history 0 := by
  have hend := ends_run (answers sampleSdk ⟨200,1,5,[]⟩ fun _ _ _ _ _ => (0,()))
    (doRequest sampleRequest Http.fresh (some (bytes "https://h/f")) none) 0
  obtain ⟨http,hresult⟩ : ∃ http, (run (answers sampleSdk ⟨200,1,5,[]⟩ fun _ _ _ _ _ => (0,()))
      (doRequest sampleRequest Http.fresh (some (bytes "https://h/f")) none) 0).2 =
        .ok ⟨http,0⟩ :=
    ⟨_,(@doRequest_agrees Unit sampleSdk (fun _ _ _ _ _ => (0,())) (bytes "https://h/f")
      [acceptEncoding] () Http.fresh 0 none).1⟩
  rw [hresult] at hend
  obtain ⟨htorn,_,hexplains⟩ := doRequest_exact _ _ _ _ _ _ hend
  exact ⟨htorn,hexplains nofun⟩

end RequestTeardown
end RemotePkgInstaller
