import RemotePkgInstaller.CompleteAnswers
import RemotePkgInstaller.LexicalPaths

/-! The files of the static endpoint.  Whatever a request names, the file that is looked at
and sent lies in the working directory. -/
namespace RemotePkgInstaller
namespace StaticFiles

open CompleteAnswers EventHandler HttpText InstallPieces LexicalPaths Programs Program SendStream ServerCalls

/-- An absolute path whose names lead to the working directory first. -/
def InWorkDir (path : Bytes) : Prop :=
  [0x2f] <+: path ∧ resolve 0x2f 0x2e workDir <+: resolve 0x2f 0x2e path

/-- The file that a call looks at. -/
def fileOf : ServerCall → Option Bytes
  | .stat path => some path
  | .openFile path => some path
  | .fstat path => some path
  | _ => none

/-- All that is looked at is one file of the working directory, and what is opened and sent
is that file, found to be a regular one first. -/
structure StaysInside (history : List ServerEvent) (answered : List StreamCall) (name : Bytes) :
    Prop where
  inWorkDir : InWorkDir name
  looks : ∀ e ∈ history, fileOf e.1 = some name
  opens : ∀ path fd, ⟨.openFile path,fd⟩ ∈ history →
    path = name ∧ history.head? = some ⟨.stat name,some true⟩
  sends : ∀ path fd size, .sendFile path fd size ∈ answered →
    path = name ∧ history.head? = some ⟨.stat name,some true⟩ ∧ ⟨.openFile name,fd⟩ ∈ history

/-- Joined to the working directory, a path without two dots in a row stays below it, also
when it is cut off. -/
theorem inWorkDir_join {path : Bytes} (h : ¬ bytes ".." <:+: path) :
    InWorkDir (strlcpy (workDir++bytes "/"++path) 1024) := by
  have hcut : strlcpy (workDir++bytes "/"++path) 1024 = workDir++0x2f::path.take 1017 := by
    have hlength : (workDir++bytes "/").length = 6 := by decide
    rw [strlcpy,List.take_append,List.take_of_length_le (by omega),hlength]
    simp [bytes]
  have hrest : ¬ [0x2e,0x2e] <:+: path.take 1017 :=
    fun hdots => h (hdots.trans (List.take_prefix _ _).isInfix)
  rw [hcut]
  refine ⟨(by decide : [0x2f] <+: workDir).trans (List.prefix_append _ _),?_⟩
  rw [resolve_join hrest]
  exact List.prefix_append _ _

theorem not_mem_streamCalls {reply : Requests.Answer} {path : Bytes} {fd : ℤ} {size : Option ℕ} :
    .sendFile path fd size ∉ streamCalls reply := by simp [streamCalls]

/-- An answer without a file, after at most one look at a file. -/
theorem staysInside_unsent {history : List ServerEvent} {reply : Requests.Answer} {name : Bytes}
    (hname : InWorkDir name)
    (hlooks : history = [] ∨ ∃ isRegular, history = [⟨.stat name,isRegular⟩]) :
    StaysInside history (streamCalls reply) name where
  inWorkDir := hname
  looks := by
    rcases hlooks with rfl | ⟨isRegular,rfl⟩
    · simp
    · simp [fileOf]
  opens := by rcases hlooks with rfl | ⟨isRegular,rfl⟩ <;> simp
  sends := fun path fd size hmem => absurd hmem not_mem_streamCalls

theorem mem_fileCalls {sdk : TextSdk} {realPath path : Bytes} {fd fd' : ℤ} {size size' : Option ℕ}
    (h : .sendFile path fd' size' ∈ fileCalls sdk realPath fd size) : path = realPath ∧ fd' = fd := by
  unfold fileCalls at h
  dsimp only at h
  split_ifs at h
  · simp only [List.mem_append,List.mem_singleton,not_mem_streamCalls,false_or,
      StreamCall.sendFile.injEq] at h
    exact ⟨h.1,h.2.1⟩
  · simp only [List.mem_append,List.mem_cons,not_mem_streamCalls,false_or,or_false,
      StreamCall.sendFile.injEq] at h
    exact ⟨h.1,h.2.1⟩

/-- The file is looked at, opened and sent under one name. -/
theorem staysInside_sent {sdk : TextSdk} {name : Bytes} {fd : ℤ} {size : Option ℕ}
    {rest : List ServerEvent} (hname : InWorkDir name)
    (hrest : rest = [] ∨ ∃ r, rest = [⟨.fstat name,r⟩]) :
    StaysInside (⟨.stat name,some true⟩::⟨.openFile name,fd⟩::rest)
      (fileCalls sdk name fd size) name where
  inWorkDir := hname
  looks := by rcases hrest with rfl | ⟨r,rfl⟩ <;> simp [fileOf]
  opens := by rcases hrest with rfl | ⟨r,rfl⟩ <;> simp
  sends := by
    intro path fd' size' hmem
    obtain ⟨rfl,rfl⟩ := mem_fileCalls hmem
    exact ⟨rfl,rfl,by simp⟩

/-- Every file that the static endpoint looks at lies in the working directory, and a file
that it sends is the one that it has found to be regular. -/
theorem handleStatic_staysInside {sdk : TextSdk} {path : Bytes} {history : List ServerEvent}
    {answered : List StreamCall} (h : Ends (handleStatic sdk path) history (.ok answered)) :
    ∃ name, StaysInside history answered name := by
  unfold handleStatic at h
  split_ifs at h with hrefused
  · obtain ⟨rfl,hr⟩ := ends_done.mp h
    injection hr with hr
    subst hr
    exact ⟨workDir,staysInside_unsent ⟨by decide,List.prefix_rfl⟩ (Or.inl rfl)⟩
  · simp only [not_or] at hrefused
    have hdots : ¬ bytes ".." <:+: path.drop (bytes "/static/").length :=
      fun hin => hrefused.2.2 (hin.trans (List.drop_suffix _ _).isInfix)
    have hname := inWorkDir_join hdots
    refine ⟨strlcpy (workDir++bytes "/"++path.drop (bytes "/static/").length) 1024,?_⟩
    obtain ⟨isRegular,rest,rfl,hstat⟩ := ends_perform_bind.mp h
    match isRegular with
    | none =>
      obtain ⟨rfl,hr⟩ := ends_done.mp hstat
      injection hr with hr
      subst hr
      exact staysInside_unsent hname (Or.inr ⟨_,rfl⟩)
    | some false =>
      obtain ⟨rfl,hr⟩ := ends_done.mp hstat
      injection hr with hr
      subst hr
      exact staysInside_unsent hname (Or.inr ⟨_,rfl⟩)
    | some true =>
      obtain ⟨fd,rest,rfl,hopen⟩ := ends_perform_bind.mp hstat
      split_ifs at hopen with hfd
      · obtain ⟨rfl,hr⟩ := ends_done.mp hopen
        injection hr with hr
        subst hr
        exact staysInside_sent hname (Or.inl rfl)
      · obtain ⟨size,rest,rfl,hsize⟩ := ends_perform_bind.mp hopen
        obtain ⟨rfl,hr⟩ := ends_done.mp hsize
        injection hr with hr
        subst hr
        exact staysInside_sent hname (Or.inr ⟨_,rfl⟩)

/-- The run of a request for a file that is there. -/
def staticHistory : List ServerEvent :=
  Program.history (fun (_ : Unit) c => ((),fileReply 3 c))
    (handleStatic plainSdk (bytes "/static/a.json")) ()

theorem staticHistory_ends :
    Ends (handleStatic plainSdk (bytes "/static/a.json")) staticHistory (.ok fileAnswer) := by
  have hrun : (Program.run (fun (_ : Unit) c => ((),fileReply 3 c))
      (handleStatic plainSdk (bytes "/static/a.json")) ()).2 = .ok fileAnswer := by decide +kernel
  exact hrun ▸ ends_run _ _ _

theorem handleStatic_staysInside_example : ∃ name, StaysInside staticHistory fileAnswer name :=
  handleStatic_staysInside staticHistory_ends

end StaticFiles
end RemotePkgInstaller
