import RemotePkgInstaller.PublishedFiles

/-! The temporary files of an install once `install_pieces` has returned: a registered task
keeps what it will fetch, and an install that fails keeps nothing.  An install whose
package is in order, but whose task is not registered, keeps both files. -/
namespace RemotePkgInstaller
namespace TempFiles

open HttpState InstallPieces Installer PkgSetup Programs Program PublishedFiles Requests
  Responses ServerCalls

/-- Exactly the files that a registered task needs are left. -/
def LeavesNeeded (paths : TempPaths) (s : Seen) : Prop :=
  if s.registered then
    (s.files paths.refPkgJson).isSome = true ∧
      (s.files paths.icon0Png).isSome = listsIcon s.transfers ∧ s.files paths.paramSfo = none
  else
    s.files paths.refPkgJson = none ∧ s.files paths.icon0Png = none ∧
      s.files paths.paramSfo = none

instance (paths : TempPaths) (s : Seen) : Decidable (LeavesNeeded paths s) := by
  delta LeavesNeeded
  infer_instance

/-- The files from an earlier install under the same name. -/
def NoneThere (paths : TempPaths) (files : Files) : Prop :=
  files paths.refPkgJson = none ∧ files paths.icon0Png = none ∧ files paths.paramSfo = none

/-- Neither the user service nor the download service refuses. -/
def Accepting : ServerEvent → Prop
  | ⟨.getForegroundUser,user⟩ => ∃ userId, user = .ok userId
  | ⟨.downloadRegisterTask _,answer⟩ => answer.ret = 0
  | ⟨.debugDownloadRegisterPkg _,answer⟩ => answer.ret = 0
  | _ => True

/-- The services take the task. -/
def Accepted (sv : Services) (task : Task) (history : List ServerEvent) : Prop :=
  Ready sv task ∧ ∀ e ∈ history, Accepting e

section Paths

theorem tmpName_length (s : StreamId) : (tmpName s).length ≤ 31 := by
  rw [tmpName,strlcpy_length]
  exact min_le_left _ _

theorem tempPath_eq {name extension : Bytes} (hname : name.length ≤ 31)
    (hextension : extension.length ≤ 5) :
    tempPath name extension = workDir++bytes "/"++name++extension := by
  have hdir : (workDir++bytes "/").length = 6 := by decide
  apply strlcpy_eq_self
  rw [List.length_append,List.length_append,hdir]
  omega

theorem tempPaths_distinct (s : StreamId) : Distinct (tempPaths s) := by
  have hne : ∀ {e e' : Bytes}, e.length ≤ 5 → e'.length ≤ 5 → e ≠ e' →
      tempPath (tmpName s) e ≠ tempPath (tmpName s) e' := by
    intro e e' he he' hne h
    rw [tempPath_eq (tmpName_length s) he,tempPath_eq (tmpName_length s) he'] at h
    exact hne (List.append_cancel_left h)
  exact ⟨hne (by decide) (by decide) (by decide),hne (by decide) (by decide) (by decide),
    hne (by decide) (by decide) (by decide)⟩

end Paths

variable {calls : InstallCalls} {stream : StreamId} {urls : List Bytes} {sslVerify : SslVerifyMode}
  {sv : Services} {host : Host} {s : Seen}

theorem see_readFile (s : Seen) (path : Bytes) (r : Option Bytes) :
    see s ⟨.readFile path,r⟩ = s := by
  simp [see,fileEffect,transferOf,printOf,registers]

/-- A task that is prepared finds its files published. -/
theorem yields_prepareTask (langId : ℤ) (hprinted : s.printed = []) (htransfers : s.transfers = []) :
    Yields see (fun s' task => Published (tempPaths stream) urls s s' task.info)
      (prepareTask calls stream urls sslVerify langId) s := by
  refine yields_bind.mpr (yields_caught.mpr (Ensures.mono
    (yields_pkgSetupPrerequisites (tempPaths_distinct stream) urls hprinted htransfers)
    fun s1 setup h1 => ?_))
  cases setup with
  | error text => exact yields_fail
  | ok info =>
    have hpublished := (h1 info rfl).1
    dsimp only
    split
    · exact yields_fail
    · split_ifs
      · exact yields_fail
      · refine yields_bind.mpr (yields_perform_bind.mpr fun data => ?_)
        rw [see_readFile]
        have hread : ∀ packageType entries, Yields see
            (fun s' task => Published (tempPaths stream) urls s s' task.info)
            (ofExcept (readTask calls.text (urls.headD []) packageType info langId entries)) s1 :=
          fun packageType entries => yields_ofExcept fun task htask =>
            (readTask_info htask).symm ▸ hpublished
        cases data with
        | none => exact yields_done.mpr yields_fail
        | some data =>
          dsimp only
          split
          · exact yields_done.mpr (hread _ _)
          · exact yields_done.mpr yields_fail

/-- Nothing is registered before the task is prepared. -/
theorem registered_of_prepareTask {langId : ℤ} {history : List ServerEvent} {r : Except Bytes Task}
    (h : Ends (prepareTask calls stream urls sslVerify langId) history r) (s : Seen) :
    (history.foldl see s).registered = s.registered := by
  have hkeep : ∀ s' c r, PrepareCall stream urls sslVerify c → s'.registered = s.registered →
      (see s' ⟨c,r⟩).registered = s.registered := by
    intro s' c r hc hs'
    rw [← hs']
    cases hc with
    | readFile path => exact Bool.or_false _
    | setup hsetup => cases hsetup <;> exact Bool.or_false _
  exact ensures_iff.mp (ensures_invariant (calls_prepareTask calls stream urls sslVerify langId)
    hkeep rfl) history r h

/-- After a failure all three files are gone. -/
theorem leavesNeeded_of_unlinks {paths : TempPaths} (hs : s.registered = false) (r r' r'' : Unit) :
    LeavesNeeded paths (see (see (see s ⟨.unlink paths.refPkgJson,r⟩) ⟨.unlink paths.paramSfo,r'⟩)
      ⟨.unlink paths.icon0Png,r''⟩) := by
  simp only [see_unlink,LeavesNeeded,hs,Bool.false_eq_true,if_false]
  simp only [Function.update_apply]
  refine ⟨?_,by simp,?_⟩ <;> split_ifs <;> rfl

/-- The answers of a registration leave the files alone, and show a task exactly when
nothing has refused it. -/
theorem registration_seen {ε : Type} {task : Task} {history : List ServerEvent}
    {r : Except ε (Except ℤ ℤ)}
    (h : Ends (bgftDownloadRegisterPackageTask calls stream sv host task) history r) (s : Seen)
    (hs : s.registered = false) :
    (history.foldl see s).files = s.files ∧ (history.foldl see s).transfers = s.transfers ∧
      ((history.foldl see s).registered = true ↔ Accepted sv task history) := by
  rcases registration_cases _ _ h with ⟨hready,rfl,_⟩ | ⟨hready,⟨code,rfl⟩,_⟩ |
    ⟨hready,userId,answer,rfl,_⟩
  · refine ⟨rfl,rfl,?_⟩
    simp [hs,Accepted,hready]
  · refine ⟨rfl,List.append_nil _,?_⟩
    simp [see,registers,hs,Accepted,hready,Accepting]
  · cases hpatch : task.info.isPatch <;>
      simp [see,fileEffect,transferOf,registers,registerEvent,hs,Accepted,hready,Accepting]

/-- The histories of `install_pieces`: the console does not tell its language, the task cannot be
prepared, or its registration is tried. -/
inductive InstallRun (calls : InstallCalls) (stream : StreamId) (urls : List Bytes)
    (sslVerify : SslVerifyMode) (sv : Services) (host : Host) : List ServerEvent → Prop
  | untold : InstallRun calls stream urls sslVerify sv host [⟨.getLanguageId,none⟩]
  | unprepared {langId : ℤ} {preparing : List ServerEvent} {text : Bytes}
      (h : Ends (prepareTask calls stream urls sslVerify langId) preparing (.error text)) :
      InstallRun calls stream urls sslVerify sv host
        (⟨.getLanguageId,some langId⟩::(preparing++[⟨.unlink (tempPaths stream).refPkgJson,()⟩,
          ⟨.unlink (tempPaths stream).paramSfo,()⟩,⟨.unlink (tempPaths stream).icon0Png,()⟩]))
  | tried {langId : ℤ} {preparing registering : List ServerEvent} {task : Task}
      {registered : Except ℤ ℤ}
      (h : Ends (prepareTask calls stream urls sslVerify langId) preparing (.ok task))
      (hregister : Ends (bgftDownloadRegisterPackageTask calls stream sv host task :
        ServerProgram Answer (Except ℤ ℤ)) registering (.ok registered)) :
      InstallRun calls stream urls sslVerify sv host (⟨.getLanguageId,some langId⟩::
        (preparing++(registering++[⟨.unlink (tempPaths stream).paramSfo,()⟩])))

theorem installRun_of_ends {history : List ServerEvent} {r : Except Answer Answer}
    (h : Ends (installPieces calls stream urls sslVerify sv host) history r) :
    InstallRun calls stream urls sslVerify sv host history := by
  obtain ⟨langId,tail,rfl,htail⟩ := ends_perform_bind.mp h
  cases langId with
  | none =>
    obtain ⟨rfl,_⟩ := ends_fail.mp htail
    exact .untold
  | some langId =>
    obtain ⟨preparing,rest,prepared,rfl,hprepared,hrest⟩ := ends_caught_bind.mp htail
    cases prepared with
    | error text =>
      obtain ⟨_,_,rfl,h1⟩ := ends_perform_bind.mp hrest
      obtain ⟨_,_,rfl,h2⟩ := ends_perform_bind.mp h1
      obtain ⟨_,_,rfl,h3⟩ := ends_perform_bind.mp h2
      obtain ⟨rfl,_⟩ := ends_fail.mp h3
      exact .unprepared hprepared
    | ok task =>
      rcases ends_bind.mp hrest with ⟨registering,last,registered,rfl,hreg,hlast⟩ | ⟨e,_,hfail⟩
      · obtain ⟨_,_,rfl,hdone⟩ := ends_perform_bind.mp hlast
        obtain ⟨rfl,_⟩ := ends_done.mp hdone
        exact .tried hprepared hreg
      · rcases registration_cases _ _ hfail with ⟨_,_,_,hr⟩ | ⟨_,_,hr⟩ | ⟨_,_,_,_,hr⟩ <;> cases hr

/-- A task that is prepared leaves what is needed if and only if the services take it. -/
theorem leavesNeeded_tried_iff {langId : ℤ} {preparing registering : List ServerEvent} {task : Task}
    {registered : Except ℤ ℤ} {files : Files}
    (h : Ends (prepareTask calls stream urls sslVerify langId) preparing (.ok task))
    (hregister : Ends (bgftDownloadRegisterPackageTask calls stream sv host task :
      ServerProgram Answer (Except ℤ ℤ)) registering (.ok registered)) (u : Unit) :
    LeavesNeeded (tempPaths stream) (List.foldl see (Seen.start files)
        (preparing++(registering++[⟨.unlink (tempPaths stream).paramSfo,u⟩]))) ↔
      Accepted sv task (registering++[⟨.unlink (tempPaths stream).paramSfo,u⟩]) := by
  have hdistinct := tempPaths_distinct stream
  have hpublished := (yields_prepareTask (s := Seen.start files) langId rfl rfl).ends h
  obtain ⟨hfiles,htransfers,haccepted⟩ :=
    registration_seen hregister _ (registered_of_prepareTask h (Seen.start files))
  rw [List.foldl_append,List.foldl_append,List.foldl_cons,List.foldl_nil,see_unlink]
  generalize preparing.foldl see (Seen.start files) = s1 at *
  have hjson : (Function.update (registering.foldl see s1).files
      (tempPaths stream).paramSfo none) (tempPaths stream).refPkgJson =
        some (printedText s1.printed) := by
    rw [Function.update_of_ne hdistinct.json_sfo,hfiles,hpublished.json]
  have hicon : ((Function.update (registering.foldl see s1).files
      (tempPaths stream).paramSfo none) (tempPaths stream).icon0Png).isSome =
        listsIcon (registering.foldl see s1).transfers := by
    rw [Function.update_of_ne hdistinct.sfo_icon.symm,hfiles,hpublished.icon,htransfers]
  have hunlink : Accepted sv task (registering++[⟨.unlink (tempPaths stream).paramSfo,u⟩]) ↔
      Accepted sv task registering := by
    simp [Accepted,Accepting,or_imp,forall_and]
  rw [hunlink,← haccepted]
  unfold LeavesNeeded
  dsimp only
  split_ifs with hreg
  · exact iff_of_true ⟨by rw [hjson]; rfl,hicon,Function.update_self _ _ _⟩ hreg
  · exact iff_of_false (fun hnone => by rw [hjson] at hnone; exact nomatch hnone.1) hreg

/-- The history of a prepared task can be read in one way only. -/
theorem preparing_unique {langId langId' : ℤ} {preparing preparing' rest rest' : List ServerEvent}
    {result result' : Except Bytes Task}
    (h : Ends (prepareTask calls stream urls sslVerify langId) preparing result)
    (h' : Ends (prepareTask calls stream urls sslVerify langId') preparing' result')
    (heq : (⟨.getLanguageId,some langId⟩::(preparing++rest) : List ServerEvent) =
      ⟨.getLanguageId,some langId'⟩::(preparing'++rest')) : result = result' ∧ rest = rest' := by
  simp only [List.cons.injEq,Sigma.mk.injEq,heq_eq_eq,true_and,Option.some.injEq] at heq
  obtain ⟨rfl,heq⟩ := heq
  exact (h.unique h' heq).2

/-- A package that the console has already, and one that it registers. -/
def alreadyInstalled : Registered := ⟨sameApplicationAlreadyInstalled,0⟩
def fifthTask : Registered := ⟨0,5⟩

end TempFiles
end RemotePkgInstaller
