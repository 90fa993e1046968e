import RemotePkgInstaller.ProgramStages

/-! What `server_start` sets up, and what it takes down again when a call below it fails. -/
namespace RemotePkgInstaller
namespace ServerLife

open Lifetimes ProgramStages ProgramStart ServerStart

section Server

variable {live : List Resource} (wide : ℕ → UInt32) (a : StartAnswers)

/-- The calls of `server.c` and `sandbird.c` among those of the program. -/
def serverActs (calls : List ServerCall) : List (Act Resource) := acts (calls.map .server)

theorem serverActs_cons (c : ServerCall) (calls : List ServerCall) :
    serverActs (c::calls) = actOfServer c::serverActs calls := rfl

theorem serverActs_append (calls calls' : List ServerCall) :
    serverActs (calls++calls') = serverActs calls++serverActs calls' := by
  rw [serverActs,List.map_append,acts_append]
  rfl

/-- The socket is made, bound and listened on, and the mutex is initialised. -/
structure Listens : Prop where
  socket : a.socket ≠ invalidSocket
  bind : a.bind = 0
  listen : a.listen = 0
  mutexInit : a.mutexInit = 0

/-- Nothing stands in the way of `sb_new_server`. -/
structure Serves (opt : SbOptions) : Prop where
  malloc : a.malloc = true
  port : (opt.port.bind (portOf a)).isSome = true
  host : opt.host.isSome = true → a.inetPton = 1
  listens : Listens a

theorem closes_server {srv : SbServer} (hsrv : srv.sockfd = invalidSocket) :
    Closes live [.server] (serverActs (sbCloseServer srv)) := by
  have hquiet : (needing [.server]).Quiet ([.server]++live) := quiet_needing (by simp)
  have hcalls : serverActs (sbCloseServer srv) =
      [needing [.server],needing [.server],needing [.server],deleting .server] := by
    rw [sbCloseServer,if_neg (not_not.mpr hsrv)]
    rfl
  rw [hcalls]
  exact .quiet hquiet (.quiet hquiet (.quiet hquiet (.deletes deletes_deleting .nil)))

theorem closes_socket {srv : SbServer} (hsrv : srv.sockfd ≠ invalidSocket) :
    Closes live [.socket,.server] (serverActs (sbCloseServer srv)) := by
  have hlock : (needing [.server]).Quiet ([.socket,.server]++live) := quiet_needing (by simp)
  have hshutdown : (needing [.socket]).Quiet ([.socket,.server]++live) := quiet_needing (by simp)
  have hdestroy : (needing [.server]).Quiet ([.server]++live) := quiet_needing (by simp)
  have hcalls : serverActs (sbCloseServer srv) =
      [needing [.server],needing [.server],needing [.socket],deleting .socket,needing [.server],
        deleting .server] := by
    rw [sbCloseServer,if_pos hsrv]
    rfl
  rw [hcalls]
  exact .quiet hlock (.quiet hlock (.quiet hshutdown (.deletes deletes_deleting
    (.quiet hdestroy (.deletes deletes_deleting .nil)))))

theorem opens_ready (port : ℤ) :
    Opens (.socket::.server::live) [] (serverActs (readyServer a port).2) := by
  have hsocket : (needing [.socket]).Quiet (.socket::.server::live) := quiet_needing (by simp)
  have hserver : (needing [.server]).Quiet (.socket::.server::live) := quiet_needing (by simp)
  unfold readyServer
  split_ifs
  · exact .quiet hsocket (.quiet hsocket (.quiet hsocket .nil))
  · exact .quiet hsocket (.quiet hsocket (.quiet hsocket (.quiet hsocket .nil)))
  · exact .quiet hsocket (.quiet hsocket (.quiet hsocket (.quiet hsocket (.quiet hserver .nil))))

/-- The memory of a server and what is opened in it, when that does not serve. -/
def Abandons (live : List Resource) (calls : List ServerCall) : Prop :=
  ∃ ks up down, serverActs calls = up++down ∧ Opens (.server::live) ks up ∧
    Closes live (ks.reverse++[.server]) down

theorem abandons_close {srv : SbServer} (hsrv : srv.sockfd = invalidSocket) :
    Abandons live (sbCloseServer srv) := ⟨[],[],_,rfl,.nil,closes_server hsrv⟩

theorem Abandons.quiet {calls : List ServerCall} (h : Abandons live calls) {c : ServerCall}
    (hc : (actOfServer c).Quiet (.server::live)) : Abandons live (c::calls) := by
  obtain ⟨ks,up,down,hcalls,hup,hdown⟩ := h
  exact ⟨ks,_::up,down,by rw [serverActs_cons,hcalls]; rfl,.quiet hc hup,hdown⟩

theorem Abandons.unwinds {calls : List ServerCall} (h : Abandons live calls)
    (hfresh : .server ∉ live) : ∃ ks, Unwinds live ks (serverActs (.malloc true::calls)) := by
  obtain ⟨ks,up,down,hcalls,hup,hdown⟩ := h
  refine ⟨.server::ks,actOfServer (.malloc true)::up,down,?_,?_,?_⟩
  · rw [serverActs_cons,hcalls]
    rfl
  · exact .creates (creates_done (fun k hk => absurd hk List.not_mem_nil) rfl hfresh) hup
  · rwa [List.reverse_cons]

theorem readyServer_iff (port : ℤ) :
    (readyServer a port).1 = true ↔ a.bind = 0 ∧ a.listen = 0 ∧ a.mutexInit = 0 := by
  unfold readyServer
  split_ifs with hbind hlisten
  · exact ⟨False.elim,fun h => absurd h.1 hbind⟩
  · exact ⟨False.elim,fun h => absurd h.2.1 hlisten⟩
  · exact decide_eq_true_iff.trans
      ⟨fun h => ⟨not_not.mp hbind,not_not.mp hlisten,h⟩,fun h => h.2.2⟩

variable {srv : SbServer} (port : ℤ)

theorem creates_socket (hnet : .net ∈ live) (hfresh : .socket ∉ live)
    (hsocket : a.socket ≠ invalidSocket) :
    (actOfServer (.socket a.socket)).Creates (.server::live) .socket := by
  refine creates_done ?_ (decide_eq_true hsocket) ?_
  · simp [hnet]
  · simpa using hfresh

theorem openServer_listens (hnet : .net ∈ live) (hfresh : .socket ∉ live) (h : Listens a) :
    (openServer a srv port).1.isSome = true ∧
      Opens (.server::live) [.socket] (serverActs (openServer a srv port).2) := by
  have hready := (readyServer_iff a port).mpr ⟨h.bind,h.listen,h.mutexInit⟩
  have hopen : openServer a srv port =
      (some { srv with sockfd := a.socket },.socket a.socket::(readyServer a port).2) := by
    rw [openServer,if_neg h.socket]
    exact if_pos hready
  rw [hopen]
  exact ⟨rfl,.creates (creates_socket a hnet hfresh h.socket) (opens_ready a port)⟩

theorem openServer_abandons (hnet : .net ∈ live) (hfresh : .socket ∉ live)
    (hsrv : srv.sockfd = invalidSocket) (h : ¬ Listens a) :
    (openServer a srv port).1 = none ∧ Abandons live (openServer a srv port).2 := by
  by_cases hsocket : a.socket = invalidSocket
  · rw [openServer,if_pos hsocket]
    have hquiet : (actOfServer (.socket a.socket)).Quiet (.server::live) :=
      quiet_failing (by simp [hnet]) (by simp [hsocket])
    exact ⟨rfl,(abandons_close hsrv).quiet hquiet⟩
  · have hready : (readyServer a port).1 ≠ true := by
      intro hready
      obtain ⟨hbind,hlisten,hmutex⟩ := (readyServer_iff a port).mp hready
      exact h ⟨hsocket,hbind,hlisten,hmutex⟩
    have hopen : openServer a srv port = (none,.socket a.socket::((readyServer a port).2++
        sbCloseServer { srv with sockfd := a.socket })) := by
      rw [openServer,if_neg hsocket]
      exact if_neg hready
    have hcloses : Closes live [.socket,.server]
        (serverActs (sbCloseServer { srv with sockfd := a.socket })) := closes_socket hsocket
    rw [hopen]
    refine ⟨rfl,[.socket],_::serverActs (readyServer a port).2,_,?_,
      .creates (creates_socket a hnet hfresh hsocket) (opens_ready a port),hcloses⟩
    rw [serverActs_cons,serverActs_append]
    rfl

/-- What `sb_new_server` returns and calls for a port, behind its `malloc`. -/
structure Behind (live : List Resource) (P : Prop) (made : Option SbServer × List ServerCall) :
    Prop where
  serves : P → made.1.isSome = true ∧ Opens (.server::live) [.socket] (serverActs made.2)
  abandons : ¬ P → made.1 = none ∧ Abandons live made.2

theorem behind_openServer (hnet : .net ∈ live) (hfresh : .socket ∉ live)
    (hsrv : srv.sockfd = invalidSocket) : Behind live (Listens a) (openServer a srv port) :=
  ⟨openServer_listens a port hnet hfresh,openServer_abandons a port hnet hfresh hsrv⟩

theorem Behind.iff {P Q : Prop} {made : Option SbServer × List ServerCall} (h : Behind live P made)
    (hPQ : Q ↔ P) : Behind live Q made :=
  ⟨fun hQ => h.serves (hPQ.mp hQ),fun hQ => h.abandons fun hP => hQ (hPQ.mpr hP)⟩

theorem Behind.quiet {P : Prop} {made : Option SbServer × List ServerCall} (h : Behind live P made)
    {c : ServerCall} (hc : (actOfServer c).Quiet (.server::live)) :
    Behind live P (made.1,c::made.2) :=
  ⟨fun hP => ⟨(h.serves hP).1,.quiet hc (h.serves hP).2⟩,
    fun hP => ⟨(h.abandons hP).1,(h.abandons hP).2.quiet hc⟩⟩

theorem behind_fails {P : Prop} {calls : List ServerCall} (hP : ¬ P) (h : Abandons live calls) :
    Behind live P (none,calls) := ⟨fun h => absurd h hP,fun _ => ⟨rfl,h⟩⟩

/-- `sb_new_server` behind its `malloc`. -/
theorem sbNewServer_behind (hnet : .net ∈ live) (hfresh : .socket ∉ live)
    (hmalloc : a.malloc = true) (opt : SbOptions) :
    ∃ made, sbNewServer wide a opt = (made.1,.malloc true::made.2) ∧
      Behind live (Serves a opt) made := by
  have hpton : (actOfServer (.inetPton a.inetPton)).Quiet (.server::live) :=
    quiet_needing fun k hk => absurd hk List.not_mem_nil
  rw [sbNewServer,if_neg (by rw [hmalloc]; decide)]
  cases hport : opt.port.bind (portOf a) with
  | none =>
    refine ⟨_,rfl,behind_fails (fun h => ?_) (abandons_close rfl)⟩
    have hsome := h.port
    rw [hport] at hsome
    exact Bool.noConfusion hsome
  | some port =>
    have hsome : (opt.port.bind (portOf a)).isSome = true := by rw [hport]; rfl
    cases hhost : opt.host with
    | none =>
      refine ⟨_,rfl,(behind_openServer a port hnet hfresh rfl).iff ⟨Serves.listens,fun h => ?_⟩⟩
      exact ⟨hmalloc,hsome,fun h => by rw [hhost] at h; exact Bool.noConfusion h,h⟩
    | some host =>
      by_cases hret : a.inetPton = 1
      · simp only [if_neg (not_not.mpr hret)]
        refine ⟨_,rfl,((behind_openServer a port hnet hfresh rfl).quiet hpton).iff
          ⟨Serves.listens,fun h => ⟨hmalloc,hsome,fun _ => hret,h⟩⟩⟩
      · simp only [ne_eq,hret,not_false_eq_true,if_true]
        refine ⟨_,rfl,behind_fails (fun h => hret (h.host ?_)) ((abandons_close rfl).quiet hpton)⟩
        rw [hhost]
        rfl

/-- `sb_new_server` gives a server exactly when nothing stands in its way, and otherwise leaves
nothing of it behind. -/
theorem sbNewServer_life (hnet : .net ∈ live) (hsocket : .socket ∉ live) (hserver : .server ∉ live)
    (opt : SbOptions) :
    ((sbNewServer wide a opt).1.isSome = true ↔ Serves a opt) ∧
      (Serves a opt →
        Opens live [.server,.socket] (serverActs (sbNewServer wide a opt).2)) ∧
      (¬ Serves a opt → ∃ ks, Unwinds live ks (serverActs (sbNewServer wide a opt).2)) := by
  by_cases hmalloc : a.malloc = true
  · obtain ⟨made,hmade,hbehind⟩ := sbNewServer_behind wide a hnet hsocket hmalloc opt
    rw [hmade]
    refine ⟨⟨fun h => ?_,fun h => (hbehind.serves h).1⟩,fun h => ?_,fun h => ?_⟩
    · by_contra hnot
      rw [(hbehind.abandons hnot).1] at h
      exact Bool.noConfusion h
    · exact .creates (creates_done (fun k hk => absurd hk List.not_mem_nil) rfl hserver)
        (hbehind.serves h).2
    · exact (hbehind.abandons h).2.unwinds hserver
  · have hfalse : a.malloc = false := by rwa [← Bool.not_eq_true]
    rw [sbNewServer,if_pos hfalse]
    refine ⟨⟨fun h => Bool.noConfusion h,fun h => absurd h.malloc hmalloc⟩,
      fun h => absurd h.malloc hmalloc,fun _ => ⟨[],unwinds_quiet fun b hb => ?_⟩⟩
    rw [List.mem_singleton.mp hb]
    exact quiet_failing (fun k hk => absurd hk List.not_mem_nil) rfl

/-- The copy that `strdup` may have made. -/
def copyOf (c : Copy) (given : Bool) : List Resource := if given then [.copy c] else []

theorem mem_copyOf {c : Copy} {given : Bool} {k : Resource} (h : k ∈ copyOf c given) :
    k = .copy c := by
  unfold copyOf at h
  split_ifs at h
  · exact List.mem_singleton.mp h
  · cases h

theorem opens_strdup {c : Copy} (given : Bool) (hfresh : .copy c ∉ live) :
    Opens live (copyOf c given) (serverActs [.strdup c given]) := by
  have hnone : ∀ k ∈ ([] : List Resource), k ∈ live := fun k hk => absurd hk List.not_mem_nil
  cases given with
  | false => exact .quiet (quiet_failing hnone rfl) .nil
  | true => exact .creates (creates_done hnone rfl hfresh) .nil

theorem closes_freeCopy {c : Copy} (text : Bytes) (given : Bool) :
    Closes live (copyOf c given).reverse (serverActs (freeCopy c (strdup text given))) := by
  cases given with
  | false => exact .nil
  | true => exact .deletes deletes_deleting .nil

/-- Not in what a copy stands on, and no copy. -/
theorem not_mem_copyOf {c : Copy} {given : Bool} {k : Resource} (hk : k ∉ live) (hc : k ≠ .copy c) :
    k ∉ (copyOf c given).reverse++live := by
  intro h
  rcases List.mem_append.mp h with h | h
  · exact hc (mem_copyOf (List.mem_reverse.mp h))
  · exact hk h

/-- What is set up for a server that listens. -/
def serverKeeps : List Resource :=
  copyOf .ipAddress a.ipAddressCopied++(copyOf .workDir a.workDirCopied++[.server,.socket])

/-- What the server stands on, and what is not there yet. -/
structure Ready (live : List Resource) : Prop where
  net : .net ∈ live
  workDir : .copy .workDir ∉ live
  server : .server ∉ live
  socket : .socket ∉ live

theorem Ready.copied (h : Ready live) (given : Bool) :
    Ready ((copyOf .ipAddress given).reverse++live) where
  net := List.mem_append_right _ h.net
  workDir := not_mem_copyOf h.workDir (by simp)
  server := not_mem_copyOf h.server Resource.noConfusion
  socket := not_mem_copyOf h.socket Resource.noConfusion

/-- What `server_start` makes of a server behind its copy of the working directory. -/
theorem madeServer_life (h : Ready live) (opt : SbOptions) :
    (Serves a opt → Opens live (copyOf .workDir a.workDirCopied++[.server,.socket])
      (serverActs (.strdup .workDir a.workDirCopied::.cleanupTempFiles::
        (sbNewServer wide a opt).2))) ∧
    (¬ Serves a opt → ∀ workDir, ∃ ks, Unwinds live ks
      (serverActs (.strdup .workDir a.workDirCopied::.cleanupTempFiles::
        ((sbNewServer wide a opt).2++freeCopy .workDir (strdup workDir a.workDirCopied))))) := by
  have hopens := opens_strdup a.workDirCopied h.workDir
  have hnet : .net ∈ (copyOf .workDir a.workDirCopied).reverse++live :=
    List.mem_append_right _ h.net
  have hsocket : .socket ∉ (copyOf .workDir a.workDirCopied).reverse++live :=
    not_mem_copyOf h.socket Resource.noConfusion
  have hserver : .server ∉ (copyOf .workDir a.workDirCopied).reverse++live :=
    not_mem_copyOf h.server Resource.noConfusion
  have hcleanup : (actOfServer .cleanupTempFiles).Quiet
      ((copyOf .workDir a.workDirCopied).reverse++live) :=
    quiet_needing fun k hk => absurd hk List.not_mem_nil
  obtain ⟨_,hserves,hfails⟩ := sbNewServer_life wide a hnet hsocket hserver opt
  refine ⟨fun hS => hopens.append (.quiet hcleanup (hserves hS)),fun hS workDir => ?_⟩
  obtain ⟨ks,hunwinds⟩ := hfails hS
  have hbracket := (hunwinds.quiet hcleanup).bracket hopens
    (closes_freeCopy workDir a.workDirCopied)
  refine ⟨copyOf .workDir a.workDirCopied++ks,?_⟩
  rw [serverActs_cons,serverActs_cons,serverActs_append]
  exact hbracket

/-- `server_start` behind its copy of the IP address, which it gives back when it fails. -/
theorem startAt_life (h : Ready live) {st : Statics} (hstarted : st.started = false)
    (workDir : Bytes) :
    ((startAt wide a st workDir).succeeded = true ↔
      workDir ≠ [] ∧ Serves a (serverOptions st.port)) ∧
    (workDir ≠ [] ∧ Serves a (serverOptions st.port) →
      Opens live (copyOf .workDir a.workDirCopied++[.server,.socket])
        (serverActs (startAt wide a st workDir).calls)) ∧
    (¬ (workDir ≠ [] ∧ Serves a (serverOptions st.port)) →
      (startAt wide a st workDir).st.started = false ∧
      ∃ ks calls, (startAt wide a st workDir).calls = calls++freeCopy .ipAddress st.ipAddress ∧
        Unwinds live ks (serverActs calls)) := by
  by_cases hdir : workDir = []
  · rw [startAt,if_pos hdir]
    exact ⟨⟨fun h => Bool.noConfusion h,fun h => absurd hdir h.1⟩,fun h => absurd hdir h.1,
      fun _ => ⟨hstarted,[],[],rfl,unwinds_quiet fun b hb => absurd hb List.not_mem_nil⟩⟩
  · obtain ⟨hserves,hfails⟩ := madeServer_life wide a h (serverOptions st.port)
    have hmade := (@sbNewServer_life [.net] wide a (by simp) (by simp) (by simp)
      (serverOptions st.port)).1
    rw [startAt,if_neg hdir]
    cases hresult : (sbNewServer wide a (serverOptions st.port)).1 with
    | none =>
      rw [hresult] at hmade
      have hS : ¬ Serves a (serverOptions st.port) := fun h => Bool.noConfusion (hmade.mpr h)
      obtain ⟨ks,hunwinds⟩ := hfails hS workDir
      simp only [hresult]
      exact ⟨⟨fun h => Bool.noConfusion h,fun h => absurd h.2 hS⟩,fun h => absurd h.2 hS,
        fun _ => ⟨hstarted,ks,_,rfl,hunwinds⟩⟩
    | some srv =>
      rw [hresult] at hmade
      have hS : Serves a (serverOptions st.port) := hmade.mp rfl
      simp only [hresult]
      exact ⟨⟨fun _ => ⟨hdir,hS⟩,fun _ => trivial⟩,fun _ => hserves hS,fun h => absurd ⟨hdir,hS⟩ h⟩

theorem serverStart_starts (h : Ready live) (hfresh : .copy .ipAddress ∉ live) {st : Process}
    (hstarted : st.server.started = false)
    (ipAddress workDir : Bytes) (port : ℤ) :
    Starts live st (serverKeeps a) (ipAddress ≠ [] ∧ workDir ≠ [] ∧ Serves a (serverOptions port))
      (onServer st (serverStart wide a st.server ipAddress port workDir)) := by
  by_cases hip : ipAddress = []
  · have hleft : serverStart wide a st.server ipAddress port workDir = ⟨st.server,false,[]⟩ := by
      rw [serverStart,if_neg (by rw [hstarted]; decide),if_pos hip]
    rw [hleft]
    exact ⟨⟨fun h => Bool.noConfusion h,fun h => absurd hip h.1⟩,fun h => absurd hip h.1,
      fun _ => ⟨⟨[],unwinds_quiet fun b hb => absurd hb List.not_mem_nil⟩,rfl⟩⟩
  · let copied := { st.server with ipAddress := strdup ipAddress a.ipAddressCopied, port := port }
    have hleft : serverStart wide a st.server ipAddress port workDir =
        { startAt wide a copied workDir with
          calls := .strdup .ipAddress a.ipAddressCopied::
            (startAt wide a copied workDir).calls } := by
      rw [serverStart,if_neg (by rw [hstarted]; decide),if_neg hip]
    have hopens := opens_strdup a.ipAddressCopied hfresh
    have hcopied : copied.started = false := hstarted
    obtain ⟨hiff,hserves,hfails⟩ :=
      startAt_life wide a (h.copied a.ipAddressCopied) hcopied workDir
    rw [hleft]
    refine ⟨hiff.trans ⟨fun h => ⟨hip,h⟩,fun h => h.2⟩,fun hP => hopens.append (hserves hP.2),
      fun hP => ?_⟩
    obtain ⟨hdown,ks,calls,hcalls,hunwinds⟩ := hfails fun h => hP ⟨hip,h⟩
    have hbracket := hunwinds.bracket hopens (closes_freeCopy ipAddress a.ipAddressCopied)
    refine ⟨⟨copyOf .ipAddress a.ipAddressCopied++ks,?_⟩,?_⟩
    · rw [onServer,hcalls]
      rw [← serverActs_append] at hbracket
      exact hbracket
    · rw [flags,flags,onServer,hdown,hstarted]

end Server

end ServerLife
end RemotePkgInstaller
