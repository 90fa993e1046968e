import RemotePkgInstaller.Endpoints

/-! Whether a request acts on the object its client named: an id goes through the
parser's strings and a fixed buffer, a number through a 32-bit `int`. -/
namespace RemotePkgInstaller
namespace NamedObjects

open ContentId Decimal Endpoints HttpText Installer JsonText Requests TinyJson

/-- The endpoints that act on an id. -/
inductive IdEndpoint
  | uninstallGame | uninstallAc | uninstallPatch | uninstallTheme | isExists | findTask
  deriving DecidableEq

/-- The endpoints that act on a number. -/
inductive NumberEndpoint
  | startTask | stopTask | pauseTask | resumeTask | unregisterTask | getTaskProgress | findTask
  deriving DecidableEq

def IdEndpoint.field : IdEndpoint → Bytes
  | uninstallGame | uninstallPatch | isExists => bytes "title_id"
  | uninstallAc | uninstallTheme | findTask => bytes "content_id"

def IdEndpoint.size : IdEndpoint → ℕ
  | uninstallGame | uninstallPatch | isExists => pkgTitleIdSize+1
  | uninstallAc | uninstallTheme | findTask => pkgContentIdSize+1

def NumberEndpoint.field : NumberEndpoint → Bytes
  | findTask => bytes "sub_type"
  | _ => bytes "task_id"

/-- The object's number in a call of the download service. -/
def number : SceCall → Option ℤ
  | .downloadStartTask n | .downloadStopTask n | .downloadPauseTask n | .downloadResumeTask n
  | .downloadUnregisterTask n | .downloadGetProgress n | .downloadFindTaskByContentId _ n => some n
  | _ => none

section Handlers

variable (sdk : TextSdk) (sv : Services)

def IdEndpoint.handle (inData : Option Bytes) : IdEndpoint → Handled
  | uninstallGame => handleApiUninstall sdk sv (bytes "/api/uninstall_game") inData
  | uninstallAc => handleApiUninstall sdk sv (bytes "/api/uninstall_ac") inData
  | uninstallPatch => handleApiUninstall sdk sv (bytes "/api/uninstall_patch") inData
  | uninstallTheme => handleApiUninstall sdk sv (bytes "/api/uninstall_theme") inData
  | isExists => handleApiIsExists sdk sv inData
  | findTask => handleApiFindTask sdk sv inData

def NumberEndpoint.handle (inData : Option Bytes) : NumberEndpoint → Handled
  | startTask => handleApiTaskAction sdk sv (bytes "/api/start_task") inData
  | stopTask => handleApiTaskAction sdk sv (bytes "/api/stop_task") inData
  | pauseTask => handleApiTaskAction sdk sv (bytes "/api/pause_task") inData
  | resumeTask => handleApiTaskAction sdk sv (bytes "/api/resume_task") inData
  | unregisterTask => handleApiTaskAction sdk sv (bytes "/api/unregister_task") inData
  | getTaskProgress => handleApiGetTaskProgress sdk sv inData
  | findTask => handleApiFindTask sdk sv inData

/-- A number that names a kind of task. -/
def InSubTypes (n : ℤ) : Prop := sv.subTypeUnknown < n ∧ n < sv.subTypeMax

/-- A request to find a task names an acceptable kind. -/
def NamesSubType (nodes : List Node) : Prop :=
  ∃ field, rootProperty nodes (bytes "sub_type") = some field ∧ field.type = .integer ∧
    InSubTypes sv (toInt32 (jsonGetInteger field))

/-- A request to find a task names a content id. -/
def NamesContentId (nodes : List Node) : Prop :=
  ∃ field, rootProperty nodes (bytes "content_id") = some field ∧ field.type = .text ∧
    jsonGetValue field ≠ []

/-- The checks behind the buffer: a request that fails them reaches no service. -/
def IdEndpoint.Refuses (nodes : List Node) (id : Bytes) : IdEndpoint → Prop
  | uninstallGame | uninstallPatch | uninstallTheme | isExists => sv.appInstUtilInitialized = false
  | uninstallAc => sv.appInstUtilInitialized = false ∨ pkgParseContentId id = none
  | findTask => sv.bgftInitialized = false ∨ ¬ NamesSubType sv nodes

/-- The checks on the 32-bit number, and those on the rest of the request. -/
def NumberEndpoint.Refuses (nodes : List Node) (n : ℤ) : NumberEndpoint → Prop
  | findTask => sv.bgftInitialized = false ∨ ¬ NamesContentId nodes ∨ ¬ InSubTypes sv n
  | _ => sv.bgftInitialized = false ∨ n < 0

end Handlers

/-- Rejected, or handed over under the id `v`. -/
def ActsOnId (v : Bytes) (handled : Handled) : Prop :=
  handled.calls = [] ∨ ∀ id ∈ handled.ids, id = v

/-- Rejected, or handed over under the number `v`. -/
def ActsOnNumber (v : ℤ) (handled : Handled) : Prop :=
  ∀ call ∈ handled.calls, number call = some v

section Requests

variable {sdk : TextSdk} {sv : Services} {data : Bytes} {nodes : List Node} {field : Node}

theorem handleApiUninstall_eq {path id : Bytes} {action : UninstallAction}
    (ha : uninstallActions.find? (fun action => action.path = path) = some action)
    (hparse : requestParse sdk (some data) = .ok nodes)
    (hid : requestId sdk nodes action.field action.idSize = .ok id) :
    handleApiUninstall sdk sv path (some data) =
      ⟨resultJson (action.fn sv id) fun _ => Responses.statusSuccess,true,[id],[],
        (action.fn sv id).calls⟩ := by
  simp only [handleApiUninstall,ha,hparse,hid,bind,Except.bind,pure,Except.pure,finish]

theorem handleApiTaskAction_eq {path : Bytes} {action : TaskAction} {n : ℤ}
    (ha : taskActions.find? (fun action => action.path = path) = some action)
    (hparse : requestParse sdk (some data) = .ok nodes) (hn : requestTaskId sdk nodes = .ok n) :
    handleApiTaskAction sdk sv path (some data) =
      ⟨resultJson (action.fn sv n) fun _ => Responses.statusSuccess,true,[],[n],
        (action.fn sv n).calls⟩ := by
  simp only [handleApiTaskAction,ha,hparse,hn,bind,Except.bind,pure,Except.pure,finish]

/-- No call is made exactly when the request is refused, and otherwise this id is handed over. -/
def HandsOver (handled : Handled) (refuses : Prop) (id : Bytes) : Prop :=
  (handled.calls = [] ↔ refuses) ∧
    (handled.calls ≠ [] → handled.ids ≠ [] ∧ ∀ i ∈ handled.ids, i = id)

/-- A call guarded by initialisation alone is made exactly when the guard lets it. -/
theorem appInstUtilRequest_handed {α : Type} (call : SceCall) (value : α) (id : Bytes) :
    ((appInstUtilRequest sv call value).calls = [] ↔ sv.appInstUtilInitialized = false) ∧
      ((appInstUtilRequest sv call value).calls ≠ [] → [id] ≠ [] ∧ ∀ i ∈ [id], i = id) := by
  rw [appInstUtilRequest_calls]
  cases sv.appInstUtilInitialized <;> simp

/-- Whether a title exists is asked first, and then what its size is. -/
theorem isExists_handsOver {id : Bytes} (hparse : requestParse sdk (some data) = .ok nodes)
    (hid : requestId sdk nodes IdEndpoint.isExists.field IdEndpoint.isExists.size = .ok id) :
    HandsOver (IdEndpoint.isExists.handle sdk sv (some data))
      (IdEndpoint.isExists.Refuses sv nodes id) id := by
  simp only [IdEndpoint.field,IdEndpoint.size] at hid
  simp only [HandsOver,IdEndpoint.handle,handleApiIsExists,hparse,hid,bind,Except.bind,
    IdEndpoint.Refuses]
  have hc := @appInstUtilRequest_handed sv _ (.appExists id) (decide (sv.existsFlag id ≠ 0)) id
  split_ifs with hexists
  · have hinit : sv.appInstUtilInitialized = true := by
      by_contra hi
      simp only [Bool.not_eq_true] at hi
      simp [appInstUtilIsExists,appInstUtilRequest,refuse,hi] at hexists
    simp [finish,pure,Except.pure,appInstUtilIsExists,appInstUtilRequest_calls,hinit]
  · simpa only [finish,pure,Except.pure,appInstUtilIsExists] using hc

theorem namesSubType_iff (sdk : TextSdk) : NamesSubType sv nodes ↔ ∃ n,
    requestInt sdk nodes (bytes "sub_type") = .ok n ∧ InSubTypes sv n := by
  simp only [NamesSubType,requestInt_eq_ok]
  constructor
  · rintro ⟨f,hf,ht,hn⟩
    exact ⟨_,⟨f,hf,ht,rfl⟩,hn⟩
  · rintro ⟨_,⟨f,hf,ht,rfl⟩,hn⟩
    exact ⟨f,hf,ht,hn⟩

/-- A task is looked for if the sub type is one. -/
theorem findTask_handsOver {id : Bytes} (hparse : requestParse sdk (some data) = .ok nodes)
    (hid : requestId sdk nodes IdEndpoint.findTask.field IdEndpoint.findTask.size = .ok id) :
    HandsOver (IdEndpoint.findTask.handle sdk sv (some data))
      (IdEndpoint.findTask.Refuses sv nodes id) id := by
  simp only [IdEndpoint.field,IdEndpoint.size] at hid
  simp only [HandsOver,IdEndpoint.handle,handleApiFindTask,hparse,hid,bind,Except.bind,
    IdEndpoint.Refuses]
  rw [namesSubType_iff sdk]
  cases hn : requestInt sdk nodes (bytes "sub_type") with
  | error reply => simp [finish]
  | ok n =>
    simp only [finish,pure,Except.pure,bgftDownloadFindTaskByContentId,InSubTypes]
    split_ifs with h1 h2
    · simp [refuse,h1]
    · simp [h1,h2]
    · simpa [refuse,h1] using h2

/-- An id that is not empty is handed over as the buffer holds it. -/
theorem handle_id (ep : IdEndpoint) (hparse : jsonCreate data jsonPoolSize = some nodes)
    (hfield : rootProperty nodes ep.field = some field) (htype : field.type = .text)
    (hne : jsonGetValue field ≠ []) :
    HandsOver (ep.handle sdk sv (some data))
      (ep.Refuses sv nodes (strlcpy (jsonGetValue field) ep.size))
      (strlcpy (jsonGetValue field) ep.size) := by
  have hp : requestParse sdk (some data) = .ok nodes := requestParse_ok hparse
  obtain ⟨id,hbuf⟩ : ∃ id, id = strlcpy (jsonGetValue field) ep.size := ⟨_,rfl⟩
  have hid : requestId sdk nodes ep.field ep.size = .ok id :=
    requestId_eq_ok.mpr ⟨field,hfield,htype,hne,hbuf⟩
  rw [← hbuf]
  cases ep with
  | uninstallGame =>
    rw [IdEndpoint.handle,handleApiUninstall_eq rfl hp hid]
    exact appInstUtilRequest_handed _ _ id
  | uninstallAc =>
    rw [IdEndpoint.handle,handleApiUninstall_eq rfl hp hid]
    simp only [HandsOver,IdEndpoint.Refuses,appInstUtilUninstallAc]
    cases sv.appInstUtilInitialized
    · simp [refuse]
    · cases pkgParseContentId id <;> simp [refuse]
  | uninstallPatch =>
    rw [IdEndpoint.handle,handleApiUninstall_eq rfl hp hid]
    exact appInstUtilRequest_handed _ _ id
  | uninstallTheme =>
    rw [IdEndpoint.handle,handleApiUninstall_eq rfl hp hid]
    exact appInstUtilRequest_handed _ _ id
  | isExists => exact isExists_handsOver hp hid
  | findTask => exact findTask_handsOver hp hid

theorem handleApiUninstall_rejected {path : Bytes} {reply : Answer} {action : UninstallAction}
    (ha : uninstallActions.find? (fun action => action.path = path) = some action)
    (hparse : requestParse sdk (some data) = .ok nodes)
    (hid : requestId sdk nodes action.field action.idSize = .error reply) :
    (handleApiUninstall sdk sv path (some data)).calls = [] := by
  simp only [handleApiUninstall,ha,hparse,hid,bind,Except.bind,finish]

/-- A request whose id is refused reaches no service. -/
theorem handle_rejected {ep : IdEndpoint} {reply : Answer}
    (hparse : jsonCreate data jsonPoolSize = some nodes)
    (hid : requestId sdk nodes ep.field ep.size = .error reply) :
    (ep.handle sdk sv (some data)).calls = [] := by
  have hp : requestParse sdk (some data) = .ok nodes := requestParse_ok hparse
  cases ep with
  | uninstallGame => exact handleApiUninstall_rejected rfl hp hid
  | uninstallAc => exact handleApiUninstall_rejected rfl hp hid
  | uninstallPatch => exact handleApiUninstall_rejected rfl hp hid
  | uninstallTheme => exact handleApiUninstall_rejected rfl hp hid
  | isExists =>
    simp only [IdEndpoint.field,IdEndpoint.size] at hid
    simp only [IdEndpoint.handle,handleApiIsExists,hp,hid,bind,Except.bind,finish]
  | findTask =>
    simp only [IdEndpoint.field,IdEndpoint.size] at hid
    simp only [IdEndpoint.handle,handleApiFindTask,hp,hid,bind,Except.bind,finish]

/-- A request acts on the id it names, or on none, exactly when the id fits the
endpoint's buffer and has no `\u` escape of another character than `?`, or the checks
behind the buffer refuse what the buffer holds. -/
theorem handle_actsOnId_iff (ep : IdEndpoint) {items : List Item} {v : Bytes}
    (hparse : jsonCreate data jsonPoolSize = some nodes)
    (hfield : rootProperty nodes ep.field = some field) (hsent : SentText data field items v) :
    ActsOnId v (ep.handle sdk sv (some data)) ↔
      (v.length < ep.size ∧ PlainItems items) ∨
        ep.Refuses sv nodes (strlcpy (flatten 0x3f items) ep.size) := by
  have hval := hsent.value_eq hparse (mem_of_jsonGetProperty hfield)
  have hfits : strlcpy (flatten 0x3f items) ep.size = v ↔ v.length < ep.size ∧ PlainItems items :=
    strlcpy_flatten_eq_iff (by cases ep <;> decide) hsent.meaning
  rw [← hfits]
  by_cases hne : jsonGetValue field = []
  · obtain ⟨reply,hrej⟩ : ∃ reply, requestId sdk nodes ep.field ep.size = .error reply := by
      refine exists_eq_error fun id h => ?_
      obtain ⟨f,hf,_,hne',_⟩ := requestId_eq_ok.mp h
      rw [hfield] at hf
      injection hf with hf
      exact hne' (hf ▸ hne)
    have hitems : items = [] := by
      rw [hval] at hne
      simpa [flatten] using hne
    have hv : v = [] := by simpa [hitems,meaning?,eq_comm] using hsent.meaning
    exact iff_of_true (Or.inl (handle_rejected hparse hrej)) (Or.inl (by simp [hitems,hv,flatten,strlcpy]))
  · obtain ⟨hrefuse,hids⟩ := @handle_id sdk sv _ _ _ ep hparse hfield hsent.text hne
    rw [hval] at hrefuse hids
    rw [ActsOnId,hrefuse]
    by_cases hr : ep.Refuses sv nodes (strlcpy (flatten 0x3f items) ep.size)
    · exact iff_of_true (Or.inl hr) (Or.inr hr)
    · obtain ⟨hne,hall⟩ := hids (fun h => hr (hrefuse.mp h))
      simp only [hr,false_or,or_false]
      constructor
      · intro h
        obtain ⟨id,hid⟩ := List.exists_mem_of_ne_nil _ hne
        rw [← hall id hid,h id hid]
      · intro h id hid
        rw [hall id hid,h]

/-- A console whose services are initialised and return zero, and whose own text
conversions copy what they are given. -/
def readyServices : Services where
  appInstUtilInitialized := true
  bgftInitialized := true
  ret := fun _ => 0
  existsFlag := fun _ => 1
  size32 := fun _ => 0
  progress := fun _ => ⟨0,0,0,0,0,0,0,0,0,0,0,0⟩
  foundTask := fun _ _ => 0
  errorEnxio := -0x7ffdfffa
  errorEinval := -0x7ffdffea
  subTypeUnknown := 0
  subTypeMax := 10

def shortIdBody : Bytes := bytes "\x7b\"title_id\":\"CUSA00001\"\x7d"
def longIdBody : Bytes := bytes "\x7b\"title_id\":\"CUSA000010\"\x7d"

/-- The one property of a body whose only member is a text. -/
def onlyText (name ptr s : Bytes) : Node := ⟨none,some name,.value ptr s,.text⟩

theorem shortIdBody_parse : jsonCreate shortIdBody jsonPoolSize = some
    [⟨none,none,.container (some 1) (some 1),.obj⟩,
     onlyText (bytes "title_id") (bytes "CUSA00001\"\x7d") (bytes "CUSA00001")] := by
  decide +kernel

theorem handle_actsOnId_iff_example :
    ActsOnId (bytes "CUSA00001")
      (IdEndpoint.uninstallGame.handle plainSdk readyServices (some shortIdBody)) ↔
    ((bytes "CUSA00001").length < IdEndpoint.uninstallGame.size ∧
      PlainItems ((bytes "CUSA00001").map .byte)) ∨
    IdEndpoint.uninstallGame.Refuses readyServices
      [⟨none,none,.container (some 1) (some 1),.obj⟩,
       onlyText (bytes "title_id") (bytes "CUSA00001\"\x7d") (bytes "CUSA00001")]
      (strlcpy (flatten 0x3f ((bytes "CUSA00001").map .byte)) IdEndpoint.uninstallGame.size) :=
  handle_actsOnId_iff .uninstallGame shortIdBody_parse rfl
    ⟨rfl,⟨_,_,[0x7d],rfl,by decide,by decide +kernel⟩,by decide⟩

/-- Ten characters are sent and nine are acted on: another, existing title. -/
theorem handle_id_truncated :
    SentText longIdBody (onlyText (bytes "title_id") (bytes "CUSA000010\"\x7d") (bytes "CUSA000010"))
      ((bytes "CUSA000010").map .byte) (bytes "CUSA000010") ∧
    (IdEndpoint.uninstallGame.handle plainSdk readyServices (some longIdBody)).calls =
      [.appUnInstall (bytes "CUSA00001")] ∧
    ¬ ActsOnId (bytes "CUSA000010")
      (IdEndpoint.uninstallGame.handle plainSdk readyServices (some longIdBody)) := by
  have hcalls : (IdEndpoint.uninstallGame.handle plainSdk readyServices (some longIdBody)).calls =
      [.appUnInstall (bytes "CUSA00001")] := by decide +kernel
  have hids : (IdEndpoint.uninstallGame.handle plainSdk readyServices (some longIdBody)).ids =
      [bytes "CUSA00001"] := by decide +kernel
  refine ⟨⟨rfl,⟨_,_,[0x7d],rfl,by decide,by decide +kernel⟩,by decide⟩,hcalls,?_⟩
  rw [ActsOnId,hcalls,hids]
  decide

/-- The call that carries a number, when the checks let it through. -/
theorem bgftRequest_numbers {α : Type} {call : ℤ → SceCall} {value : ℤ → α}
    (hcall : ∀ m, number (call m) = some m) (n v : ℤ) :
    (∀ c ∈ (bgftRequest sv call value n).calls, number c = some v) ↔
      n = v ∨ sv.bgftInitialized = false ∨ n < 0 := by
  rw [bgftRequest_calls]
  cases sv.bgftInitialized
  · simp
  · by_cases hn : 0 ≤ n
    · simp [hn,hcall]
    · simp [hn,not_le.mp hn]

/-- A negative task id is refused before any call. -/
theorem requestTaskId_negative {n : ℤ} (hn : requestInt sdk nodes (bytes "task_id") = .ok n)
    (h0 : n < 0) : ∃ reply, requestTaskId sdk nodes = .error reply := by
  refine exists_eq_error fun m h => ?_
  obtain ⟨hm,h0'⟩ := requestTaskId_eq_ok.mp h
  rw [hn] at hm
  injection hm with hm
  omega

theorem handleApiTaskAction_numbers {path : Bytes} {action : TaskAction} {call : ℤ → SceCall}
    (ha : taskActions.find? (fun action => action.path = path) = some action)
    (hfn : action.fn = fun sv => bgftRequest sv call fun _ => ())
    (hcall : ∀ m, number (call m) = some m) (hparse : requestParse sdk (some data) = .ok nodes)
    {n : ℤ} (hn : requestInt sdk nodes (bytes "task_id") = .ok n) (v : ℤ) :
    ActsOnNumber v (handleApiTaskAction sdk sv path (some data)) ↔
      n = v ∨ sv.bgftInitialized = false ∨ n < 0 := by
  by_cases h0 : n < 0
  · obtain ⟨reply,hrej⟩ := requestTaskId_negative hn h0
    refine iff_of_true ?_ (Or.inr (Or.inr h0))
    simp only [handleApiTaskAction,ha,hparse,hrej,bind,Except.bind,finish,ActsOnNumber]
    simp
  · rw [handleApiTaskAction_eq ha hparse (requestTaskId_eq_ok.mpr ⟨hn,not_lt.mp h0⟩),ActsOnNumber,
      hfn]
    exact bgftRequest_numbers hcall n v

theorem handleApiGetTaskProgress_numbers (hparse : requestParse sdk (some data) = .ok nodes)
    {n : ℤ} (hn : requestInt sdk nodes (bytes "task_id") = .ok n) (v : ℤ) :
    ActsOnNumber v (handleApiGetTaskProgress sdk sv (some data)) ↔
      n = v ∨ sv.bgftInitialized = false ∨ n < 0 := by
  by_cases h0 : n < 0
  · obtain ⟨reply,hrej⟩ := requestTaskId_negative hn h0
    refine iff_of_true ?_ (Or.inr (Or.inr h0))
    simp only [handleApiGetTaskProgress,hparse,hrej,bind,Except.bind,finish,ActsOnNumber]
    simp
  · have ht := requestTaskId_eq_ok.mpr ⟨hn,not_lt.mp h0⟩
    simp only [handleApiGetTaskProgress,hparse,ht,bind,Except.bind,finish,ActsOnNumber,pure,
      Except.pure]
    exact bgftRequest_numbers (fun _ => rfl) n v

theorem handleApiFindTask_numbers (hparse : requestParse sdk (some data) = .ok nodes)
    {n : ℤ} (hn : requestInt sdk nodes (bytes "sub_type") = .ok n) (v : ℤ) :
    ActsOnNumber v (handleApiFindTask sdk sv (some data)) ↔
      n = v ∨ sv.bgftInitialized = false ∨ ¬ NamesContentId nodes ∨ ¬ InSubTypes sv n := by
  have hname : NamesContentId nodes ↔ ∃ id,
      requestId sdk nodes (bytes "content_id") (pkgContentIdSize+1) = .ok id := by
    simp only [NamesContentId,requestId_eq_ok]
    constructor
    · rintro ⟨f,hf,ht,hne⟩
      exact ⟨_,f,hf,ht,hne,rfl⟩
    · rintro ⟨_,f,hf,ht,hne,_⟩
      exact ⟨f,hf,ht,hne⟩
  rw [hname]
  cases hid : requestId sdk nodes (bytes "content_id") (pkgContentIdSize+1) with
  | error reply =>
    simp only [handleApiFindTask,hparse,hid,bind,Except.bind,finish,ActsOnNumber]
    simp
  | ok id =>
    simp only [handleApiFindTask,hparse,hid,hn,bind,Except.bind,finish,ActsOnNumber,pure,
      Except.pure,bgftDownloadFindTaskByContentId,InSubTypes]
    split_ifs with h1 h2
    · simp [refuse,h1]
    · simp [h1,h2,number]
    · simp [refuse,h2]

/-- A request acts on the task or kind whose number it writes, or on none, exactly
when the number is a 32-bit one or the checks refuse what it wraps to. -/
theorem handle_actsOnNumber_iff (ep : NumberEndpoint)
    (hparse : jsonCreate data jsonPoolSize = some nodes)
    (hfield : rootProperty nodes ep.field = some field) (htype : field.type = .integer) :
    ActsOnNumber (integer (jsonGetValue field)) (ep.handle sdk sv (some data)) ↔
      (-2^31 ≤ integer (jsonGetValue field) ∧ integer (jsonGetValue field) < 2^31) ∨
        ep.Refuses sv nodes (toInt32 (integer (jsonGetValue field))) := by
  have hp : requestParse sdk (some data) = .ok nodes := requestParse_ok hparse
  obtain ⟨ptr,s,_,hu,_,hint,_⟩ :=
    (document hparse).integer_value (mem_of_jsonGetProperty hfield) htype
  have hval : jsonGetValue field = s := by rw [jsonGetValue,hu]
  rw [hval,← toInt32_eq_self_iff]
  have hn : requestInt sdk nodes ep.field = .ok (toInt32 (integer s)) :=
    requestInt_eq_ok.mpr ⟨field,hfield,htype,by rw [hint]⟩
  cases ep with
  | startTask => exact handleApiTaskAction_numbers rfl rfl (fun _ => rfl) hp hn _
  | stopTask => exact handleApiTaskAction_numbers rfl rfl (fun _ => rfl) hp hn _
  | pauseTask => exact handleApiTaskAction_numbers rfl rfl (fun _ => rfl) hp hn _
  | resumeTask => exact handleApiTaskAction_numbers rfl rfl (fun _ => rfl) hp hn _
  | unregisterTask => exact handleApiTaskAction_numbers rfl rfl (fun _ => rfl) hp hn _
  | getTaskProgress => exact handleApiGetTaskProgress_numbers hp hn _
  | findTask => exact handleApiFindTask_numbers hp hn _

def taskBody : Bytes := bytes "\x7b\"task_id\":5\x7d"
def wrappingTaskBody : Bytes := bytes "\x7b\"task_id\":4294967301\x7d"

def onlyInteger (name ptr s : Bytes) : Node := ⟨none,some name,.value ptr s,.integer⟩

theorem taskBody_parse : jsonCreate taskBody jsonPoolSize = some
    [⟨none,none,.container (some 1) (some 1),.obj⟩,
     onlyInteger (bytes "task_id") (bytes "5\x7d") (bytes "5")] := by
  decide +kernel

theorem handle_actsOnNumber_iff_example :
    ActsOnNumber (integer (bytes "5"))
      (NumberEndpoint.stopTask.handle plainSdk readyServices (some taskBody)) ↔
    (-2^31 ≤ integer (bytes "5") ∧ integer (bytes "5") < 2^31) ∨
    NumberEndpoint.stopTask.Refuses readyServices
      [⟨none,none,.container (some 1) (some 1),.obj⟩,
       onlyInteger (bytes "task_id") (bytes "5\x7d") (bytes "5")] (toInt32 (integer (bytes "5"))) :=
  handle_actsOnNumber_iff .stopTask taskBody_parse rfl rfl

/-- Task 5 is stopped on behalf of a client that named task 2^32+5. -/
theorem handle_number_wrapped :
    jsonCreate wrappingTaskBody jsonPoolSize = some
      [⟨none,none,.container (some 1) (some 1),.obj⟩,
       onlyInteger (bytes "task_id") (bytes "4294967301\x7d") (bytes "4294967301")] ∧
    integer (bytes "4294967301") = 4294967301 ∧
    (NumberEndpoint.stopTask.handle plainSdk readyServices (some wrappingTaskBody)).calls =
      [.downloadStopTask 5] ∧
    ¬ ActsOnNumber 4294967301
      (NumberEndpoint.stopTask.handle plainSdk readyServices (some wrappingTaskBody)) := by
  have hcalls :
      (NumberEndpoint.stopTask.handle plainSdk readyServices (some wrappingTaskBody)).calls =
        [.downloadStopTask 5] := by decide +kernel
  refine ⟨by decide +kernel,by decide,hcalls,?_⟩
  rw [ActsOnNumber,hcalls]
  decide

end Requests

end NamedObjects
end RemotePkgInstaller
