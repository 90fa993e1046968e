import RemotePkgInstaller.Answers

/-! The task that a successful install reports.  The answer of the download service for a
title that is on the console already goes the way of a success, without a task. -/
namespace RemotePkgInstaller
namespace RegisteredTasks

open Answers Endpoints HttpText InstallHandlers InstallPieces Installer Programs Program Requests
  Responses ServerCalls TinyJson

/-- The text says that the request has succeeded. -/
def SaysSuccess (reply : Answer) : Prop :=
  ∃ text, SbCall.write text ∈ reply ∧ bytes "\x7b \"status\": \"success\"" <+: text

/-- The text names the task. -/
def ReportsTask (reply : Answer) (taskId : ℤ) : Prop :=
  ∃ title, SbCall.write (successText taskId title) ∈ reply

/-- The download service has registered the task in this run. -/
def RegisteredAs (history : List ServerEvent) (taskId : ℤ) : Prop :=
  ∃ answer ∈ history.flatMap registrationOf, answer.ret = 0 ∧ toInt32 answer.taskId = taskId

/-- Sent to a task endpoint, the id passes the checks on the way to the service. -/
structure Usable (taskId : ℤ) : Prop where
  nonneg : 0 ≤ taskId
  accepted : ∀ sdk nodes field, rootProperty nodes (bytes "task_id") = some field →
    field.type = .integer → jsonGetInteger field = taskId → requestTaskId sdk nodes = .ok taskId
  action : ∀ sv : Services, sv.bgftInitialized = true → ∀ action ∈ taskActions,
    (action.fn sv taskId).calls ≠ []
  progress : ∀ sv : Services, sv.bgftInitialized = true →
    (bgftDownloadGetTaskProgress sv taskId).calls ≠ []

/-- A success comes with the id of a task of this run that can be used. -/
def CarriesUsableTask (history : List ServerEvent) (reply : Answer) : Prop :=
  SaysSuccess reply → ∃ taskId, ReportsTask reply taskId ∧ RegisteredAs history taskId ∧
    Usable taskId

/-- The service does not report the title as installed, and an id that it gives is none of
the negative ones. -/
def GivesUsableId (answer : Registered) : Prop :=
  answer.ret ≠ sameApplicationAlreadyInstalled ∧ (answer.ret = 0 → 0 ≤ toInt32 answer.taskId)

section Ids

theorem usable_of_nonneg {taskId : ℤ} (h0 : 0 ≤ taskId) (hint : toInt32 taskId = taskId) :
    Usable taskId := by
  have hcalls : ∀ {α : Type} (sv : Services), sv.bgftInitialized = true →
      ∀ (call : ℤ → SceCall) (value : ℤ → α), (bgftRequest sv call value taskId).calls ≠ [] := by
    intro α sv hsv call value
    rw [bgftRequest_calls,if_pos ⟨hsv,h0⟩]
    exact List.cons_ne_nil _ _
  refine ⟨h0,fun sdk nodes field hf ht hv => ?_,fun sv hsv action haction => ?_,
    fun sv hsv => hcalls sv hsv _ _⟩
  · refine requestTaskId_eq_ok.mpr ⟨requestInt_eq_ok.mpr ⟨field,hf,ht,?_⟩,h0⟩
    rw [hv,hint]
  · simp only [taskActions,List.mem_cons,List.not_mem_nil,or_false] at haction
    rcases haction with rfl | rfl | rfl | rfl | rfl <;> exact hcalls sv hsv _ _

theorem toInt32_toInt32 (n : ℤ) : toInt32 (toInt32 n) = toInt32 n := Int.bmod_bmod

theorem comma_not_mem_intText (n : ℤ) : (0x2c : UInt8) ∉ intText n := by
  have hdigits : (0x2c : UInt8) ∉ Decimal.text n.natAbs := by
    intro h
    exact absurd (Decimal.text_isdigit _ _ h) (by decide)
  unfold intText
  split_ifs
  · simpa using hdigits
  · exact hdigits

theorem text_injective {m n : ℕ} (h : Decimal.text m = Decimal.text n) : m = n := by
  rw [← Decimal.value_text m,h,Decimal.value_text]

theorem intText_injective {m n : ℤ} (h : intText m = intText n) : m = n := by
  have hminus : ∀ k : ℕ, ∀ rest, (0x2d : UInt8)::rest ≠ Decimal.text k := by
    intro k rest heq
    exact absurd (Decimal.text_isdigit k 0x2d (heq ▸ List.mem_cons_self)) (by decide)
  unfold intText at h
  split_ifs at h with hm hn hn
  · have := text_injective (List.cons_injective h)
    omega
  · exact absurd h (hminus _ _)
  · exact absurd h.symm (hminus _ _)
  · have := text_injective h
    omega

/-- The text of a success names one task. -/
theorem successText_injective {m n : ℤ} {title title' : Bytes}
    (h : successText m title = successText n title') : m = n := by
  have hid : ∀ (k : ℤ) (title : Bytes),
      ((successText k title).drop (bytes "\x7b \"status\": \"success\", \"task_id\": ").length).takeWhile
        (· ≠ 0x2c) = intText k := by
    intro k title
    have hkeep : ∀ c ∈ intText k, decide (c ≠ 0x2c) = true := by
      intro c hc
      exact decide_eq_true fun hcomma => comma_not_mem_intText k (hcomma ▸ hc)
    have hcomma : bytes ", \"title\": \"" = 0x2c::bytes " \"title\": \"" := by decide
    rw [successText,List.append_assoc,List.append_assoc,List.append_assoc,List.drop_left,
      List.takeWhile_append_of_pos hkeep,hcomma]
    simp
  have hids := hid m title
  rw [h,hid n title'] at hids
  exact intText_injective hids.symm

end Ids

section Replies

/-- A text that says `fail` does not say `success`. -/
theorem not_saysSuccess_of_fail {reply : Answer}
    (h : ∀ text, SbCall.write text ∈ reply → bytes "\x7b \"status\": \"fail\"" <+: text) :
    ¬ SaysSuccess reply := by
  rintro ⟨text,hmem,hsuccess⟩
  rcases List.prefix_or_prefix_of_prefix (h text hmem) hsuccess with hp | hp
  · exact absurd hp (by decide)
  · exact absurd hp (by decide)

theorem not_saysSuccess_of_isKickError {reply : Answer} (h : IsKickError reply) :
    ¬ SaysSuccess reply := by
  obtain ⟨sdk,code,title,error,_,rfl⟩ := h
  refine not_saysSuccess_of_fail fun text hmem => ?_
  simp only [kickError,setCorsHeader,connectionClose,List.cons_append,List.nil_append,List.mem_cons,
    reduceCtorEq,List.not_mem_nil,or_false,false_or,SbCall.write.injEq] at hmem
  subst hmem
  rw [List.append_assoc]
  exact ((by decide : bytes "\x7b \"status\": \"fail\"" <+:
    bytes "\x7b \"status\": \"fail\", \"error\": \"")).trans (List.prefix_append _ _)

theorem mem_result {text text' : Bytes} :
    SbCall.write text ∈ kickResultHeaderJson++[.write text'] ↔ text = text' := by
  simp [kickResultHeaderJson,setCorsHeader,connectionClose]

theorem not_saysSuccess_kickErrorJson (code : ℤ) : ¬ SaysSuccess (kickErrorJson code) := by
  refine not_saysSuccess_of_fail fun text hmem => ?_
  rw [mem_result.mp hmem,List.append_assoc]
  exact ((by decide : bytes "\x7b \"status\": \"fail\"" <+:
    bytes "\x7b \"status\": \"fail\", \"error_code\": 0x")).trans (List.prefix_append _ _)

theorem saysSuccess_taskAnswer (task : InstallPieces.Task) (taskId : ℤ) :
    SaysSuccess (taskAnswer task (.ok taskId)) := by
  refine ⟨_,mem_result.mpr rfl,?_⟩
  rw [successText,List.append_assoc,List.append_assoc,List.append_assoc]
  exact ((by decide : bytes "\x7b \"status\": \"success\"" <+:
    bytes "\x7b \"status\": \"success\", \"task_id\": ")).trans (List.prefix_append _ _)

theorem reportsTask_taskAnswer {task : InstallPieces.Task} {taskId n : ℤ} :
    ReportsTask (taskAnswer task (.ok taskId)) n ↔ n = taskId := by
  constructor
  · rintro ⟨title,hmem⟩
    exact successText_injective (mem_result.mp hmem)
  · rintro rfl
    exact ⟨_,mem_result.mpr rfl⟩

end Replies

variable {calls : InstallCalls} {stream : StreamId} {sv : Services} {host : Host}
  {inData : Option Bytes}

/-- A success of an install carries a task that can be used if and only if the download
service does not report the title as installed, and gives no negative id. -/
theorem handleApiInstall_usableTask_iff {history : List ServerEvent} {r : Except Answer Answer}
    (h : Ends (handleApiInstall calls stream sv host inData) history r) :
    CarriesUsableTask history (replyOf r) ↔
      ∀ answer ∈ history.flatMap registrationOf, GivesUsableId answer := by
  have hanswers := ensures_iff.mp (ensures_handleApiInstall inData) history r h
  rw [foldl_collect,List.nil_append] at hanswers
  cases r with
  | error reply =>
    obtain ⟨hnone,hkick⟩ := hanswers
    refine iff_of_true (fun hs => absurd hs (not_saysSuccess_of_isKickError hkick)) ?_
    simp [hnone]
  | ok reply =>
    rcases hanswers with ⟨task,⟨hnone,code,rfl⟩ | ⟨answer,hone,rfl⟩⟩
    · refine iff_of_true (fun hs => absurd hs (not_saysSuccess_kickErrorJson code)) ?_
      simp [hnone]
    · have hall : (∀ a ∈ history.flatMap registrationOf, GivesUsableId a) ↔ GivesUsableId answer := by
        simp [hone]
      rw [hall,replyOf]
      unfold registrationResult
      split_ifs with hret hsame
      · -- the title is installed: a success without a task
        refine iff_of_false (fun hcarries => ?_) fun hgood => hgood.1 hsame
        obtain ⟨taskId,hreports,_,husable⟩ := hcarries (saysSuccess_taskAnswer task (-1))
        rw [reportsTask_taskAnswer.mp hreports] at husable
        exact absurd husable.nonneg (by decide)
      · exact iff_of_true (fun hs => absurd hs (not_saysSuccess_kickErrorJson _))
          ⟨hsame,fun h0 => absurd h0 hret⟩
      · rw [ne_eq,not_not] at hret
        constructor
        · intro hcarries
          obtain ⟨taskId,hreports,_,husable⟩ := hcarries (saysSuccess_taskAnswer task _)
          rw [reportsTask_taskAnswer.mp hreports] at husable
          exact ⟨hret ▸ by decide,fun _ => husable.nonneg⟩
        · rintro ⟨_,hnonneg⟩ _
          refine ⟨_,reportsTask_taskAnswer.mpr rfl,⟨answer,by simp [hone],hret,rfl⟩,?_⟩
          exact usable_of_nonneg (hnonneg hret) (toInt32_toInt32 _)

theorem handleApiInstall_usableTask_iff_example :
    CarriesUsableTask (sampleRequestHistory ⟨0,5⟩) (replyOf (sampleRequestResult ⟨0,5⟩)) ↔
      ∀ answer ∈ (sampleRequestHistory ⟨0,5⟩).flatMap registrationOf, GivesUsableId answer :=
  handleApiInstall_usableTask_iff (sampleRequest_ends ⟨0,5⟩)

/-- The title is installed, and the answer is a success with the task -1. -/
theorem handleApiInstall_reports_no_task :
    Ends sampleRequest (sampleRequestHistory ⟨sameApplicationAlreadyInstalled,0⟩)
        (sampleRequestResult ⟨sameApplicationAlreadyInstalled,0⟩) ∧
      replyOf (sampleRequestResult ⟨sameApplicationAlreadyInstalled,0⟩) =
        kickResultHeaderJson++[.write
          (bytes "\x7b \"status\": \"success\", \"task_id\": -1, \"title\": \"T\" \x7d\n")] ∧
      ¬ CarriesUsableTask (sampleRequestHistory ⟨sameApplicationAlreadyInstalled,0⟩)
        (replyOf (sampleRequestResult ⟨sameApplicationAlreadyInstalled,0⟩)) := by
  have hreply : replyOf (sampleRequestResult ⟨sameApplicationAlreadyInstalled,0⟩) =
      kickResultHeaderJson++[.write (successText (-1) (bytes "T"))] := by decide +kernel
  have htext : successText (-1) (bytes "T") =
      bytes "\x7b \"status\": \"success\", \"task_id\": -1, \"title\": \"T\" \x7d\n" := by decide
  refine ⟨sampleRequest_ends _,by rw [hreply,htext],fun hcarries => ?_⟩
  obtain ⟨taskId,⟨title,hmem⟩,_,husable⟩ := hcarries
    ⟨_,hreply ▸ mem_result.mpr rfl,by decide⟩
  rw [hreply,mem_result] at hmem
  have hneg : taskId = -1 := successText_injective hmem
  exact absurd (hneg ▸ husable.nonneg) (by decide)

end RegisteredTasks
end RemotePkgInstaller
