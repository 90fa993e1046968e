import RemotePkgInstaller.LibraryRuns
import RemotePkgInstaller.ServerLife

/-! A run of the program from `main` to its exit, whatever call fails on the way: what has been
set up by then is taken down, the last first, and a run on which nothing fails serves. -/
namespace RemotePkgInstaller
namespace ProgramLife

open HttpState LibraryCalls Lifetimes ProgramStages ProgramStart ServerLife ServerStart

section Stages

variable (a : Answers) {live : List Resource} {st : Process}

theorem serverListen_started {statics : Statics} (h : statics.started = true) (polls : List ℤ) :
    (serverListen statics polls).ended = false ∧
      (serverListen statics polls).calls.map .server = rounds polls := by
  induction polls with
  | nil => exact ⟨by rw [serverListen,h]; rfl,rfl⟩
  | cons ret polls ih =>
    rw [serverListen,if_pos h]
    refine ⟨ih.1,?_⟩
    rw [List.map_cons,List.map_cons,ih.2]
    rfl

/-- The libraries that requests are served by, and the server. -/
def served : List Resource := [.server,.socket,.http,.bgft,.appInstUtil,.userService]

theorem opens_rounds (h : ∀ k ∈ served, k ∈ live) (polls : List ℤ) :
    Opens live [] (acts (rounds polls)) := by
  refine opens_quiet fun b hb => ?_
  obtain ⟨c,hc,rfl⟩ := List.mem_map.mp hb
  obtain ⟨ret,_,hret⟩ := List.mem_flatMap.mp hc
  rcases List.mem_pair.mp hret with rfl | rfl
  · exact quiet_needing h
  · exact quiet_needing fun k hk => absurd hk List.not_mem_nil

theorem listen_stage (h : ∀ k ∈ served, k ∈ live) (hstarted : st.server.started = true) :
    Stage a.polls live st [] True (listen a st) := by
  obtain ⟨hended,hcalls⟩ := serverListen_started hstarted a.polls
  refine ⟨fun h => ?_,fun _ => ⟨trivial,?_,?_⟩⟩
  · exact Bool.noConfusion (hended.symm.trans h)
  · rw [ProgramStart.listen,hcalls]
    exact opens_rounds h a.polls
  · exact ⟨[],hcalls.symm⟩

theorem startAt_started {wide : ℕ → UInt32} {b : StartAnswers} {statics : Statics}
    {workDir : Bytes} (h : (startAt wide b statics workDir).succeeded = true) :
    (startAt wide b statics workDir).st.started = true := by
  unfold startAt at h ⊢
  by_cases hdir : workDir = []
  · rw [if_pos hdir] at h
    exact Bool.noConfusion h
  · rw [if_neg hdir] at h ⊢
    cases hmade : (sbNewServer wide b (serverOptions statics.port)).1 with
    | none =>
      simp only [hmade] at h
      exact Bool.noConfusion h
    | some srv => simp only [hmade]

theorem serverStart_started {wide : ℕ → UInt32} {b : StartAnswers} {statics : Statics}
    {ipAddress : Bytes} {port : ℤ} {workDir : Bytes}
    (h : (serverStart wide b statics ipAddress port workDir).succeeded = true) :
    (serverStart wide b statics ipAddress port workDir).st.started = true := by
  unfold serverStart at h ⊢
  split_ifs at h ⊢ with hstarted hip
  · exact hstarted
  · exact startAt_started h

def jails (jailed : Bool) : List Resource := if jailed then [.jail] else []

/-- What is up behind `load_modules`. -/
def modulesUp (jailed : Bool) : List Resource :=
  (Module.inOrder.map Resource.module).reverse++jails jailed

/-- What is up behind `bgft_init`. -/
def librariesUp (jailed : Bool) : List Resource :=
  [.bgft,.appInstUtil,.userService]++modulesUp jailed

/-- What is up behind `net_init`. -/
def netUp (jailed : Bool) : List Resource := [.netPool,.net,.netCtl]++librariesUp jailed

/-- What is up behind `http_init`. -/
def httpUp (jailed : Bool) : List Resource := [.http,.ssl]++netUp jailed

variable (jailed : Bool)

theorem served_up : ∀ k ∈ served, k ∈ (serverKeeps a.server).reverse++httpUp jailed := by
  have hall : ∀ k ∈ served, k = .server ∨ k = .socket ∨ k ∈ httpUp jailed := by
    cases jailed <;> decide
  intro k hk
  rcases hall k hk with rfl | rfl | hup
  · simp [serverKeeps]
  · simp [serverKeeps]
  · exact List.mem_append_right _ hup

theorem ready_httpUp : Ready (httpUp jailed) := by
  cases jailed <;> exact ⟨by decide,by decide,by decide,by decide⟩

theorem withServer_stage (ipAddress : Bytes) (hstarted : st.server.started = false) :
    Stage a.polls (httpUp jailed) st (serverKeeps a.server++[])
      ((ipAddress ≠ [] ∧ bytes "/data" ≠ [] ∧ Serves a.server (serverOptions serverPort)) ∧ True)
      (withServer a st ipAddress) := by
  have hfresh : .copy .ipAddress ∉ httpUp jailed := by cases jailed <;> decide
  have hup : Starts _ _ _ _ (startServer a st ipAddress) :=
    serverStart_starts a.wide a.server (ready_httpUp jailed) hfresh hstarted ipAddress
      (bytes "/data") serverPort
  have hlisten : (startServer a st ipAddress).succeeded = true →
      Stage a.polls ((serverKeeps a.server).reverse++httpUp jailed) (startServer a st ipAddress).st
        [] True (listen a (startServer a st ipAddress).st) := fun h =>
    listen_stage a (served_up a jailed) (serverStart_started h)
  refine bracket_stage hup (fun hP => hlisten (hup.succeeds.mpr hP)) fun hP hended => ?_
  exact absurd trivial ((hlisten (hup.succeeds.mpr hP)).ended hended).1

/-- Operations of libhttp. -/
theorem quiet_operates {calls : List LibraryCall} (h : ∀ c ∈ calls, c.operates = some .http)
    (hlive : .http ∈ live) : ∀ b ∈ acts (calls.map .library), b.Quiet live := by
  intro b hb
  obtain ⟨c,hc,rfl⟩ := List.mem_map.mp hb
  obtain ⟨call,hcall,rfl⟩ := List.mem_map.mp hc
  have hact : actOfLibrary call = needing [.http] := by
    have hoperates := h call hcall
    cases call <;> first | (cases hoperates; done) | (simp only [actOfLibrary,hoperates]; rfl)
  rw [act,hact]
  exact quiet_needing fun k hk => (List.mem_singleton.mp hk) ▸ hlive

theorem issue_calls (st : Console) (calls : List LibraryCall) :
    (st.issue calls).map (fun i => SystemCall.library i.call) = calls.map .library := by
  rw [Console.issue,List.map_map]
  rfl

/-- The settings and the bundle are loaded with libhttp up. -/
theorem startHttp_quiet (console : Console) (ssl http : ℤ) (calls : InitCalls)
    (hlive : .http ∈ live) :
    ∀ b ∈ acts ((LibraryCalls.startHttp console ssl http calls).2.map fun i => .library i.call),
      b.Quiet live := by
  unfold LibraryCalls.startHttp
  rw [issue_calls]
  exact quiet_operates LibraryRuns.loadCalls_operates hlive

theorem initHttp_starts (hdown : st.console.http.initialized = false)
    (hnet : st.net.initialized = true) :
    Starts (netUp jailed) st [.ssl,.http] (0 ≤ a.http.sslInit ∧ 0 ≤ a.http.httpInit)
      (initHttp a st) := by
  have hsslUses : ∀ k ∈ [Resource.module .ssl], k ∈ netUp jailed := by cases jailed <;> decide
  have hhttpUses : ∀ k ∈ [Resource.module .http,.netPool,.ssl], k ∈ .ssl::netUp jailed := by
    cases jailed <;> decide
  have hsslFresh : Resource.ssl ∉ netUp jailed := by cases jailed <;> decide
  have hhttpFresh : Resource.http ∉ .ssl::netUp jailed := by cases jailed <;> decide
  have hdown' : ¬ st.console.http.initialized = true := by rw [hdown]; decide
  have hnet' : ¬ netIsInitialized st = false := by rw [netIsInitialized,hnet]; decide
  have hstart : initHttp a st = onConsole st (httpInit st.console
    { a.http with netInitialized := netIsInitialized st } a.sslTerm) := rfl
  rw [LibraryCalls.httpInit,if_neg hdown',if_neg hnet'] at hstart
  by_cases hssl : a.http.sslInit < 0
  · rw [if_pos hssl] at hstart
    rw [hstart]
    refine ⟨⟨fun h => Bool.noConfusion h,fun h => absurd h.1 (not_le.mpr hssl)⟩,
      fun h => absurd h.1 (not_le.mpr hssl),fun _ => ⟨⟨[],unwinds_quiet fun b hb => ?_⟩,rfl⟩⟩
    rw [List.mem_singleton.mp hb]
    exact quiet_failing hsslUses (decide_eq_false (not_le.mpr hssl))
  have hcreatesSsl := creates_done hsslUses (decide_eq_true (not_lt.mp hssl)) hsslFresh
  rw [if_neg hssl] at hstart
  by_cases hhttp : a.http.httpInit < 0
  · rw [if_pos hhttp] at hstart
    rw [hstart]
    refine ⟨⟨fun h => Bool.noConfusion h,fun h => absurd h.2 (not_le.mpr hhttp)⟩,
      fun h => absurd h.2 (not_le.mpr hhttp),fun _ => ⟨⟨[.ssl],?_⟩,rfl⟩⟩
    have hquiet : (creating [.module .http,.netPool,.ssl] .http (0 ≤ a.http.httpInit)).Quiet
        (.ssl::netUp jailed) := quiet_failing hhttpUses (decide_eq_false (not_le.mpr hhttp))
    exact ⟨[_,_],[_],rfl,.creates hcreatesSsl (.quiet hquiet .nil),.deletes deletes_deleting .nil⟩
  · rw [if_neg hhttp] at hstart
    rw [hstart]
    refine ⟨⟨fun _ => ⟨not_lt.mp hssl,not_lt.mp hhttp⟩,fun _ => rfl⟩,fun _ => ?_,
      fun h => absurd ⟨not_lt.mp hssl,not_lt.mp hhttp⟩ h⟩
    have hcreatesHttp := creates_done hhttpUses (decide_eq_true (not_lt.mp hhttp)) hhttpFresh
    exact .creates hcreatesSsl (.creates hcreatesHttp (opens_quiet
      (startHttp_quiet st.console _ _ _ List.mem_cons_self)))

theorem initHttp_flags (hdown : st.console.http.initialized = false)
    (hnet : st.net.initialized = true) (hssl : 0 ≤ a.http.sslInit) (hhttp : 0 ≤ a.http.httpInit) :
    flags (initHttp a st).st = { flags st with http := true } := by
  have hdown' : ¬ st.console.http.initialized = true := by rw [hdown]; decide
  have hnet' : ¬ netIsInitialized st = false := by rw [netIsInitialized,hnet]; decide
  have hinit : (LibraryCalls.startHttp st.console a.http.sslInit a.http.httpInit
      { a.http with netInitialized := netIsInitialized st }).1.http.initialized = true :=
    LibraryRuns.startHttp_initialized _ _ _ hdown' hnet' (not_lt.mpr hssl) (not_lt.mpr hhttp)
  rw [initHttp,LibraryCalls.httpInit,if_neg hdown',if_neg hnet',if_neg (not_lt.mpr hssl),
    if_neg (not_lt.mpr hhttp)]
  simp only [flags,onConsole,hinit]
  rfl

theorem finiHttp_closes (hup : st.console.http.initialized = true) :
    Closes live [.http,.ssl] (acts (finiHttp a st).2) ∧
      flags (finiHttp a st).1 = { flags st with http := false } := by
  have hup' : ¬ st.console.http.initialized = false := by rw [hup]; decide
  have hstop : finiHttp a st = (onConsole st (httpFini st.console a.httpsUnloadCert a.httpTerm
    a.sslTerm)).ended := rfl
  rw [LibraryCalls.httpFini,if_neg hup'] at hstop
  rw [hstop]
  have hunload : ∀ b ∈ acts ((unloadCalls st.console.http st.console.libhttpCtxId).map .library),
      b.Quiet ([.http,.ssl]++live) :=
    quiet_operates LibraryRuns.unloadCalls_operates (by simp)
  constructor
  · rw [Started.ended,onConsole,issue_calls,List.map_append,acts_append]
    exact closes_quiet hunload (.deletes deletes_deleting (.deletes deletes_deleting .nil))
  · simp only [flags,Started.ended,onConsole,BundleRuns.httpFini,if_neg hup']

/-- What `main` has from the server on. -/
def ServerAnswers (ipAddress : Bytes) : Prop :=
  (ipAddress ≠ [] ∧ bytes "/data" ≠ [] ∧ Serves a.server (serverOptions serverPort)) ∧ True

theorem withHttp_stage (ipAddress : Bytes) (hhttp : st.console.http.initialized = false)
    (hnet : st.net.initialized = true) (hserver : st.server.started = false) :
    Stage a.polls (netUp jailed) st ([.ssl,.http]++(serverKeeps a.server++[]))
      ((0 ≤ a.http.sslInit ∧ 0 ≤ a.http.httpInit) ∧ ServerAnswers a ipAddress)
      (withHttp a st ipAddress) := by
  refine bracket_stage (initHttp_starts a jailed hhttp hnet)
    (fun _ => withServer_stage a jailed ipAddress hserver) fun hP _ st' hst' => ?_
  rw [initHttp_flags a hhttp hnet hP.1 hP.2] at hst'
  obtain ⟨hcloses,hflags⟩ := finiHttp_closes a (congrArg Flags.http hst')
  refine ⟨hcloses,?_⟩
  rw [hflags,hst',← hhttp]
  rfl

theorem getIpv4_starts :
    Starts (netUp jailed) st [] (a.ipAddressSize ≤ 16 ∧ a.netCtlGetInfo = 0)
      ⟨st,(netGetIpv4 a 16).1 = 0,(netGetIpv4 a 16).2.2⟩ := by
  have hquiet : (needing [.netCtl]).Quiet (netUp jailed) :=
    quiet_needing (by cases jailed <;> decide)
  unfold netGetIpv4
  split_ifs with hsize hinfo
  · refine ⟨⟨fun h => ?_,fun h => absurd h.1 (not_le.mpr hsize)⟩,
      fun h => absurd h.1 (not_le.mpr hsize),fun _ => ⟨⟨[],unwinds_quiet ?_⟩,rfl⟩⟩
    · exact absurd (show decide ((0x80020016-2^32 : ℤ) = 0) = true from h) (by decide)
    · exact fun b hb => absurd hb List.not_mem_nil
  · refine ⟨⟨fun h => absurd (of_decide_eq_true h) hinfo,fun h => absurd h.2 hinfo⟩,
      fun h => absurd h.2 hinfo,fun _ => ⟨⟨[],unwinds_quiet fun b hb => ?_⟩,rfl⟩⟩
    rw [List.mem_singleton.mp hb]
    exact hquiet
  · have hP : a.ipAddressSize ≤ 16 ∧ a.netCtlGetInfo = 0 := ⟨not_lt.mp hsize,not_not.mp hinfo⟩
    exact ⟨⟨fun _ => hP,fun _ => rfl⟩,fun _ => .quiet hquiet .nil,fun h => absurd hP h⟩

/-- What `main` has from the address on. -/
def AddressAnswers : Prop :=
  (a.ipAddressSize ≤ 16 ∧ a.netCtlGetInfo = 0) ∧
    (0 ≤ a.http.sslInit ∧ 0 ≤ a.http.httpInit) ∧ ServerAnswers a (netGetIpv4 a 16).2.1

theorem withAddress_stage (hhttp : st.console.http.initialized = false)
    (hnet : st.net.initialized = true) (hserver : st.server.started = false) :
    Stage a.polls (netUp jailed) st ([]++([.ssl,.http]++(serverKeeps a.server++[])))
      (AddressAnswers a) (withAddress a st) := by
  unfold withAddress AddressAnswers
  exact bracket_stage (getIpv4_starts a jailed)
    (fun _ => withHttp_stage a jailed _ hhttp hnet hserver) fun _ _ _ hst' => ⟨.nil,hst'⟩

theorem netInit_starts (hdown : st.net.initialized = false) :
    Starts (librariesUp jailed) st [.netCtl,.net,.netPool]
      (a.netCtlInit = 0 ∧ a.netInit = 0 ∧ 0 ≤ a.netPoolCreate) (netInit a st) := by
  have hctlUses : ∀ k ∈ [Resource.module .netCtl], k ∈ librariesUp jailed := by
    cases jailed <;> decide
  have hnetUses : ∀ k ∈ [Resource.module .net], k ∈ .netCtl::librariesUp jailed := by
    cases jailed <;> decide
  have hpoolUses : ∀ k ∈ [Resource.net], k ∈ .net::.netCtl::librariesUp jailed := by
    cases jailed <;> decide
  have hctlFresh : Resource.netCtl ∉ librariesUp jailed := by cases jailed <;> decide
  have hnetFresh : Resource.net ∉ .netCtl::librariesUp jailed := by cases jailed <;> decide
  have hpoolFresh : Resource.netPool ∉ .net::.netCtl::librariesUp jailed := by
    cases jailed <;> decide
  rw [netInit,if_neg (by rw [hdown]; decide)]
  by_cases hctl : a.netCtlInit = 0
  swap
  · rw [if_pos hctl]
    refine ⟨⟨fun h => Bool.noConfusion h,fun h => absurd h.1 hctl⟩,fun h => absurd h.1 hctl,
      fun _ => ⟨⟨[],unwinds_quiet fun b hb => ?_⟩,rfl⟩⟩
    rw [List.mem_singleton.mp hb]
    exact quiet_failing hctlUses (decide_eq_false hctl)
  rw [if_neg (not_not.mpr hctl)]
  have hcreatesCtl := creates_done hctlUses (decide_eq_true hctl) hctlFresh
  by_cases hnet : a.netInit = 0
  swap
  · rw [if_pos hnet]
    refine ⟨⟨fun h => Bool.noConfusion h,fun h => absurd h.2.1 hnet⟩,fun h => absurd h.2.1 hnet,
      fun _ => ⟨⟨[.netCtl],[_,_],[_],rfl,?_,.deletes deletes_deleting .nil⟩,rfl⟩⟩
    exact .creates hcreatesCtl (.quiet (quiet_failing hnetUses (decide_eq_false hnet)) .nil)
  rw [if_neg (not_not.mpr hnet)]
  have hcreatesNet := creates_done hnetUses (decide_eq_true hnet) hnetFresh
  by_cases hpool : a.netPoolCreate < 0
  · rw [if_pos hpool]
    refine ⟨⟨fun h => Bool.noConfusion h,fun h => absurd h.2.2 (not_le.mpr hpool)⟩,
      fun h => absurd h.2.2 (not_le.mpr hpool),fun _ => ⟨⟨[.netCtl,.net],[_,_,_],[_,_],rfl,?_,
        .deletes deletes_deleting (.deletes deletes_deleting .nil)⟩,rfl⟩⟩
    exact .creates hcreatesCtl (.creates hcreatesNet
      (.quiet (quiet_failing hpoolUses (decide_eq_false (not_le.mpr hpool))) .nil))
  · rw [if_neg hpool]
    have hP : a.netCtlInit = 0 ∧ a.netInit = 0 ∧ 0 ≤ a.netPoolCreate := ⟨hctl,hnet,not_lt.mp hpool⟩
    refine ⟨⟨fun _ => hP,fun _ => rfl⟩,fun _ => ?_,fun h => absurd hP h⟩
    exact .creates hcreatesCtl (.creates hcreatesNet (.creates
      (creates_done hpoolUses (decide_eq_true (not_lt.mp hpool)) hpoolFresh) .nil))

theorem netInit_flags (hdown : st.net.initialized = false)
    (hP : a.netCtlInit = 0 ∧ a.netInit = 0 ∧ 0 ≤ a.netPoolCreate) :
    flags (netInit a st).st = { flags st with net := true } := by
  rw [netInit,if_neg (by rw [hdown]; decide),if_neg (not_not.mpr hP.1),if_neg (not_not.mpr hP.2.1),
    if_neg (not_lt.mpr hP.2.2)]
  rfl

theorem netFini_closes (hup : st.net.initialized = true) :
    Closes live [.netPool,.net,.netCtl] (acts (netFini a st).2) ∧
      flags (netFini a st).1 = { flags st with net := false } := by
  rw [netFini,if_neg (by rw [hup]; decide)]
  exact ⟨.deletes deletes_deleting (.deletes deletes_deleting (.deletes deletes_deleting .nil)),rfl⟩

/-- What `main` has from the network on. -/
def NetAnswers : Prop :=
  (a.netCtlInit = 0 ∧ a.netInit = 0 ∧ 0 ≤ a.netPoolCreate) ∧ AddressAnswers a

/-- What is set up from the network on. -/
def netKeeps : List Resource :=
  [.netCtl,.net,.netPool]++([]++([.ssl,.http]++(serverKeeps a.server++[])))

theorem withNet_stage (hnet : st.net.initialized = false)
    (hhttp : st.console.http.initialized = false) (hserver : st.server.started = false) :
    Stage a.polls (librariesUp jailed) st (netKeeps a) (NetAnswers a) (withNet a st) := by
  refine bracket_stage (netInit_starts a jailed hnet) (fun hP => ?_) fun hP _ st' hst' => ?_
  · have hflags := netInit_flags a hnet hP
    exact withAddress_stage a jailed ((congrArg Flags.http hflags).trans hhttp)
      (congrArg Flags.net hflags) ((congrArg Flags.server hflags).trans hserver)
  · rw [netInit_flags a hnet hP] at hst'
    obtain ⟨hcloses,hflags⟩ := netFini_closes a (congrArg Flags.net hst')
    refine ⟨hcloses,?_⟩
    rw [hflags,hst',← hnet]
    rfl

/-- One call that starts one thing. -/
theorem starts_one {up : Started} {c : SystemCall} {ks : List Resource} {k : Resource} {done : Bool}
    {P : Prop} (hcalls : up.calls = [c]) (hact : act c = creating ks k done)
    (huses : ∀ k ∈ ks, k ∈ live) (hfresh : k ∉ live) (hsucceeded : up.succeeded = done)
    (hP : done = true ↔ P) (hflags : done = false → flags up.st = flags st) :
    Starts live st [k] P up := by
  have hacts : acts up.calls = [creating ks k done] := by rw [hcalls,acts_cons,hact,acts_nil]
  refine ⟨by rw [hsucceeded,hP],fun h => ?_,fun h => ?_⟩
  · rw [hacts]
    exact .creates (creates_done huses (hP.mpr h) hfresh) .nil
  · have hfailed : done = false := by
      rw [← Bool.not_eq_true]
      exact fun hdone => h (hP.mp hdone)
    refine ⟨⟨[],unwinds_quiet fun b hb => ?_⟩,hflags hfailed⟩
    rw [hacts] at hb
    rw [List.mem_singleton.mp hb]
    exact quiet_failing huses hfailed

theorem initBgft_starts (hdown : st.console.bgftInitialized = false) :
    Starts (.appInstUtil::.userService::modulesUp jailed) st [.bgft]
      (a.bgftHeap ≠ none ∧ a.bgftServiceIntInit = 0) (initBgft a st) := by
  have huses : ∀ k ∈ [Resource.module .bgft], k ∈ .appInstUtil::.userService::modulesUp jailed := by
    cases jailed <;> decide
  have hfresh : Resource.bgft ∉ .appInstUtil::.userService::modulesUp jailed := by
    cases jailed <;> decide
  rw [initBgft,bgftInit,if_neg (by rw [hdown]; decide)]
  by_cases hheap : a.bgftHeap = none
  · rw [if_pos hheap]
    exact ⟨⟨fun h => Bool.noConfusion h,fun h => absurd hheap h.1⟩,fun h => absurd hheap h.1,
      fun _ => ⟨⟨[],unwinds_quiet fun b hb => absurd hb List.not_mem_nil⟩,by
        simp [flags,onConsole,hdown]⟩⟩
  · rw [if_neg hheap]
    by_cases hret : a.bgftServiceIntInit = 0
    · rw [if_neg (not_not.mpr hret)]
      exact starts_one rfl rfl huses hfresh (decide_eq_true hret).symm
        (decide_eq_true_iff.trans ⟨fun h => ⟨hheap,h⟩,fun h => h.2⟩)
        fun h => absurd (of_decide_eq_false h) (not_not.mpr hret)
    · rw [if_pos hret]
      exact starts_one rfl rfl huses hfresh (decide_eq_false hret).symm
        (decide_eq_true_iff.trans ⟨fun h => ⟨hheap,h⟩,fun h => h.2⟩)
        fun _ => by simp [flags,onConsole,hdown]

theorem initBgft_flags (hdown : st.console.bgftInitialized = false)
    (hP : a.bgftHeap ≠ none ∧ a.bgftServiceIntInit = 0) :
    flags (initBgft a st).st = { flags st with bgft := true } := by
  rw [initBgft,bgftInit,if_neg (by rw [hdown]; decide),if_neg hP.1,if_neg (not_not.mpr hP.2)]
  rfl

theorem finiBgft_closes (hup : st.console.bgftInitialized = true) :
    Closes live [.bgft] (acts (finiBgft a st).2) ∧
      flags (finiBgft a st).1 = { flags st with bgft := false } := by
  rw [finiBgft,bgftFini,if_neg (by rw [hup]; decide)]
  exact ⟨.deletes deletes_deleting .nil,rfl⟩

/-- What a part of `main` needs to be down. -/
structure Fresh (st : Process) : Prop where
  net : st.net.initialized = false
  http : st.console.http.initialized = false
  server : st.server.started = false

theorem withBgft_stage (hbgft : st.console.bgftInitialized = false) (h : Fresh st) :
    Stage a.polls (.appInstUtil::.userService::modulesUp jailed) st ([.bgft]++netKeeps a)
      ((a.bgftHeap ≠ none ∧ a.bgftServiceIntInit = 0) ∧ NetAnswers a) (withBgft a st) := by
  refine bracket_stage (initBgft_starts a jailed hbgft) (fun hP => ?_) fun hP _ st' hst' => ?_
  · have hflags := initBgft_flags a hbgft hP
    exact withNet_stage a jailed ((congrArg Flags.net hflags).trans h.net)
      ((congrArg Flags.http hflags).trans h.http) ((congrArg Flags.server hflags).trans h.server)
  · rw [initBgft_flags a hbgft hP] at hst'
    obtain ⟨hcloses,hflags⟩ := finiBgft_closes a (congrArg Flags.bgft hst')
    refine ⟨hcloses,?_⟩
    rw [hflags,hst',← hbgft]
    rfl

theorem initAppInstUtil_starts (hdown : st.console.appInstUtilInitialized = false) :
    Starts (.userService::modulesUp jailed) st [.appInstUtil] (a.appInstUtilInitialize = 0)
      (initAppInstUtil a st) := by
  have huses : ∀ k ∈ [Resource.module .appInstUtil], k ∈ .userService::modulesUp jailed := by
    cases jailed <;> decide
  have hfresh : Resource.appInstUtil ∉ .userService::modulesUp jailed := by
    cases jailed <;> decide
  rw [initAppInstUtil,appInstUtilInit,if_neg (by rw [hdown]; decide)]
  by_cases hret : a.appInstUtilInitialize = 0
  · rw [if_neg (not_not.mpr hret)]
    exact starts_one rfl rfl huses hfresh (decide_eq_true hret).symm decide_eq_true_iff
      fun h => absurd (of_decide_eq_false h) (not_not.mpr hret)
  · rw [if_pos hret]
    exact starts_one rfl rfl huses hfresh (decide_eq_false hret).symm decide_eq_true_iff
      fun _ => by simp [flags,onConsole,hdown]

theorem initAppInstUtil_flags (hdown : st.console.appInstUtilInitialized = false)
    (hret : a.appInstUtilInitialize = 0) :
    flags (initAppInstUtil a st).st = { flags st with appInstUtil := true } := by
  rw [initAppInstUtil,appInstUtilInit,if_neg (by rw [hdown]; decide),if_neg (not_not.mpr hret)]
  rfl

theorem finiAppInstUtil_closes (hup : st.console.appInstUtilInitialized = true) :
    Closes live [.appInstUtil] (acts (finiAppInstUtil a st).2) ∧
      flags (finiAppInstUtil a st).1 = { flags st with appInstUtil := false } := by
  rw [finiAppInstUtil,appInstUtilFini,if_neg (by rw [hup]; decide)]
  exact ⟨.deletes deletes_deleting .nil,rfl⟩

theorem withAppInstUtil_stage (hdown : st.console.appInstUtilInitialized = false)
    (hbgft : st.console.bgftInitialized = false) (h : Fresh st) :
    Stage a.polls (.userService::modulesUp jailed) st ([.appInstUtil]++([.bgft]++netKeeps a))
      (a.appInstUtilInitialize = 0 ∧ (a.bgftHeap ≠ none ∧ a.bgftServiceIntInit = 0) ∧ NetAnswers a)
      (withAppInstUtil a st) := by
  refine bracket_stage (initAppInstUtil_starts a jailed hdown) (fun hP => ?_)
    fun hP _ st' hst' => ?_
  · have hflags := initAppInstUtil_flags a hdown hP
    exact withBgft_stage a jailed ((congrArg Flags.bgft hflags).trans hbgft)
      ⟨(congrArg Flags.net hflags).trans h.net,(congrArg Flags.http hflags).trans h.http,
        (congrArg Flags.server hflags).trans h.server⟩
  · rw [initAppInstUtil_flags a hdown hP] at hst'
    obtain ⟨hcloses,hflags⟩ := finiAppInstUtil_closes a (congrArg Flags.appInstUtil hst')
    refine ⟨hcloses,?_⟩
    rw [hflags,hst',← hdown]
    rfl

theorem withUserService_stage (happ : st.console.appInstUtilInitialized = false)
    (hbgft : st.console.bgftInitialized = false) (h : Fresh st) :
    Stage a.polls (modulesUp jailed) st ([.userService]++([.appInstUtil]++([.bgft]++netKeeps a)))
      (a.userServiceInitialize = 0 ∧ a.appInstUtilInitialize = 0 ∧
        (a.bgftHeap ≠ none ∧ a.bgftServiceIntInit = 0) ∧ NetAnswers a) (withUserService a st) := by
  have huses : ∀ k ∈ [Resource.module .userService], k ∈ modulesUp jailed := by
    cases jailed <;> decide
  have hfresh : Resource.userService ∉ modulesUp jailed := by cases jailed <;> decide
  have hstarts : Starts (modulesUp jailed) st [.userService] (a.userServiceInitialize = 0)
      (userServiceInitialize a st) :=
    starts_one rfl rfl huses hfresh rfl decide_eq_true_iff fun _ => rfl
  exact bracket_stage hstarts (fun _ => withAppInstUtil_stage a jailed happ hbgft h)
    fun _ _ _ hst' => ⟨.deletes deletes_deleting .nil,hst'⟩

theorem closes_unload (modules : List Module) :
    Closes live (modules.map .module) (acts (unload a modules)) := by
  induction modules with
  | nil => exact .nil
  | cons m modules ih => exact .deletes deletes_deleting ih

theorem not_mem_loaded {m : Module} {loaded : List Module} (h : m ∉ loaded) :
    Resource.module m ∉ loaded.map .module++jails jailed := by
  intro hmem
  rcases List.mem_append.mp hmem with hmem | hmem
  · obtain ⟨m',hm',heq⟩ := List.mem_map.mp hmem
    injection heq with heq
    exact h (heq ▸ hm')
  · unfold jails at hmem
    split_ifs at hmem
    · exact Resource.noConfusion (List.mem_singleton.mp hmem)
    · cases hmem

/-- The rungs from some module on, with the modules before it loaded. -/
theorem loadFrom_life (modules loaded : List Module) (hnodup : (loaded.reverse++modules).Nodup) :
    ((loadFrom a loaded modules).1 = true ↔ ∀ m ∈ modules, a.loadModule m = 0) ∧
    ((∀ m ∈ modules, a.loadModule m = 0) →
      Opens (loaded.map .module++jails jailed) (modules.map .module)
        (acts (loadFrom a loaded modules).2)) ∧
    (¬ (∀ m ∈ modules, a.loadModule m = 0) →
      ∃ ks up down, acts (loadFrom a loaded modules).2 = up++down ∧
        Opens (loaded.map .module++jails jailed) ks up ∧
        Closes (jails jailed) (ks.reverse++loaded.map .module) down) := by
  induction modules generalizing loaded with
  | nil => exact ⟨by simp [loadFrom],fun _ => .nil,fun h => absurd (by simp) h⟩
  | cons m modules ih =>
    have hnone : ∀ k ∈ ([] : List Resource), k ∈ loaded.map Resource.module++jails jailed :=
      fun k hk => absurd hk List.not_mem_nil
    have hfresh : m ∉ loaded := by
      have hmiddle := (List.nodup_append.mp hnodup).2.2
      exact fun hmem => hmiddle m (List.mem_reverse.mpr hmem) m List.mem_cons_self rfl
    by_cases hret : a.loadModule m = 0
    · have hload : loadFrom a loaded (m::modules) = ((loadFrom a (m::loaded) modules).1,
          .loadModule m (a.loadModule m)::(loadFrom a (m::loaded) modules).2) := by
        rw [loadFrom,if_neg (not_not.mpr hret)]
      have hcreates := creates_done hnone (decide_eq_true hret) (not_mem_loaded jailed hfresh)
      obtain ⟨hiff,hopens,hunwinds⟩ := ih (m::loaded) (by simpa using hnodup)
      have hall : (∀ m' ∈ m::modules, a.loadModule m' = 0) ↔
          ∀ m' ∈ modules, a.loadModule m' = 0 := by
        rw [List.forall_mem_cons]
        exact and_iff_right hret
      rw [hload,hall]
      refine ⟨hiff,fun h => .creates hcreates (hopens h),fun h => ?_⟩
      obtain ⟨ks,up,down,hacts,hup,hdown⟩ := hunwinds h
      refine ⟨.module m::ks,_::up,down,congrArg (_::·) hacts,.creates hcreates hup,?_⟩
      rw [List.reverse_cons,List.append_assoc]
      exact hdown
    · have hload : loadFrom a loaded (m::modules) =
          (false,.loadModule m (a.loadModule m)::unload a loaded) := by
        rw [loadFrom,if_pos hret]
      have hnot : ¬ ∀ m' ∈ m::modules, a.loadModule m' = 0 := fun h => hret (h m List.mem_cons_self)
      rw [hload]
      refine ⟨⟨fun h => Bool.noConfusion h,fun h => absurd h hnot⟩,fun h => absurd h hnot,
        fun _ => ?_⟩
      exact ⟨[],[_],_,rfl,.quiet (quiet_failing hnone (decide_eq_false hret)) .nil,
        closes_unload a loaded⟩

theorem loadModules_starts (hdown : st.modulesLoaded = false) :
    Starts (jails jailed) st (Module.inOrder.map .module) (∀ m, a.loadModule m = 0)
      (loadModules a st) := by
  have hall : (∀ m ∈ Module.inOrder, a.loadModule m = 0) ↔ ∀ m, a.loadModule m = 0 := by
    have hmem : ∀ m, m ∈ Module.inOrder := fun m => by cases m <;> decide
    exact ⟨fun h m => h m (hmem m),fun h m _ => h m⟩
  obtain ⟨hiff,hopens,hunwinds⟩ := loadFrom_life a jailed Module.inOrder [] (by decide)
  rw [hall] at hiff hopens hunwinds
  rw [loadModules,if_neg (by rw [hdown]; decide)]
  refine ⟨hiff,hopens,fun h => ⟨?_,?_⟩⟩
  · obtain ⟨ks,up,down,hacts,hup,hcloses⟩ := hunwinds h
    rw [List.map_nil,List.append_nil] at hcloses
    exact ⟨ks,up,down,hacts,hup,hcloses⟩
  · have hfailed : (loadFrom a [] Module.inOrder).1 = false := by
      rw [← Bool.not_eq_true,hiff]
      exact h
    simp only [flags,hfailed,hdown]

theorem loadModules_flags (hdown : st.modulesLoaded = false) (h : ∀ m, a.loadModule m = 0) :
    flags (loadModules a st).st = { flags st with modulesLoaded := true } := by
  have hsucceeded := (loadModules_starts a false hdown).succeeds.mpr h
  rw [loadModules,if_neg (by rw [hdown]; decide)] at hsucceeded ⊢
  have hloaded : (loadFrom a [] Module.inOrder).1 = true := hsucceeded
  simp only [flags,hloaded]

theorem unloadModules_closes (hup : st.modulesLoaded = true) :
    Closes live (Module.inOrder.map .module).reverse (acts (unloadModules a st).2) ∧
      flags (unloadModules a st).1 = { flags st with modulesLoaded := false } := by
  rw [unloadModules,if_neg (by rw [hup]; decide),← List.map_reverse]
  exact ⟨closes_unload a _,rfl⟩

/-- A run in which the modules are unloaded where the credentials are still the others. -/
theorem withModules_stage (hmodules : st.modulesLoaded = false)
    (happ : st.console.appInstUtilInitialized = false)
    (hbgft : st.console.bgftInitialized = false) (h : Fresh st) :
    Stage a.polls (jails jailed) st (Module.inOrder.map .module++
        ([.userService]++([.appInstUtil]++([.bgft]++netKeeps a))))
      ((∀ m, a.loadModule m = 0) ∧ a.userServiceInitialize = 0 ∧ a.appInstUtilInitialize = 0 ∧
        (a.bgftHeap ≠ none ∧ a.bgftServiceIntInit = 0) ∧ NetAnswers a)
      (bracket (loadModules a st) (withUserService a) (unloadModules a)) := by
  refine bracket_stage (loadModules_starts a jailed hmodules) (fun hP => ?_) fun hP _ st' hst' => ?_
  · have hflags := loadModules_flags a hmodules hP
    exact withUserService_stage a jailed ((congrArg Flags.appInstUtil hflags).trans happ)
      ((congrArg Flags.bgft hflags).trans hbgft) ⟨(congrArg Flags.net hflags).trans h.net,
        (congrArg Flags.http hflags).trans h.http,(congrArg Flags.server hflags).trans h.server⟩
  · rw [loadModules_flags a hmodules hP] at hst'
    obtain ⟨hcloses,hflags⟩ := unloadModules_closes a (congrArg Flags.modulesLoaded hst')
    refine ⟨hcloses,?_⟩
    rw [hflags,hst',← hmodules]
    rfl

/-- `exit` unloads the modules, if they are loaded, before it gives back the credentials. -/
theorem cleanup_bracket (jailed : Ended) :
    bracket ⟨jailed.1,true,jailed.2⟩ (withModules a) (cleanup a) =
      bracket ⟨jailed.1,true,jailed.2⟩
        (fun st => bracket (loadModules a st) (withUserService a) (unloadModules a))
        unjailbreak := by
  obtain ⟨st,calls⟩ := jailed
  have hfailed : (loadModules a st).succeeded = false →
      (loadModules a st).st.modulesLoaded = false := by
    unfold loadModules
    split_ifs
    · exact False.elim
    · exact id
  cases hloaded : (loadModules a st).succeeded with
  | false => simp [bracket,withModules,hloaded,cleanup,unloadModules,hfailed hloaded]
  | true =>
    cases hended : (withUserService a (loadModules a st).st).ended with
    | false => simp [bracket,withModules,hloaded,hended]
    | true => simp [bracket,withModules,hloaded,hended,cleanup]

end Stages

section Runs

variable (a : Answers)

/-- `libjbc` is there, with its three functions. -/
def jailed : Bool :=
  decide (0 < a.libjbc) && (a.found .getCred && (a.found .jailbreakCred && a.found .setCred))

theorem jailbreak_life :
    Opens [] (jails (jailed a)) (acts (jailbreak a .fresh).2) ∧
      ∃ found, (jailbreak a .fresh).1 =
        { Process.fresh with jailbroken := jailed a, jbcSetCred := found } ∧
        (jailed a = true → found = true) := by
  have hquiet : (needing []).Quiet ([] : List Resource) :=
    quiet_needing fun k hk => absurd hk List.not_mem_nil
  have hjail : (creating [] .jail true).Creates ([] : List Resource) .jail :=
    creates_done (fun k hk => absurd hk List.not_mem_nil) rfl List.not_mem_nil
  unfold jailbreak
  split_ifs with hhandle hfound
  · have hjailed : jailed a = false := by simp [jailed,not_lt.mpr hhandle]
    rw [hjailed]
    exact ⟨.quiet hquiet (.quiet hquiet .nil),_,rfl,fun h => Bool.noConfusion h⟩
  · have hjailed : jailed a = false := by
      unfold jailed
      rcases hfound with h | h | h <;> simp [h]
    rw [hjailed]
    exact ⟨.quiet hquiet (.quiet hquiet (.quiet hquiet (.quiet hquiet (.quiet hquiet .nil)))),_,rfl,
      fun h => Bool.noConfusion h⟩
  · simp only [not_or,Bool.not_eq_false] at hfound
    have hjailed : jailed a = true := by simp [jailed,not_le.mp hhandle,hfound]
    rw [hjailed]
    exact ⟨.quiet hquiet (.quiet hquiet (.quiet hquiet (.quiet hquiet (.quiet hquiet
      (.quiet hquiet (.creates hjail .nil)))))),_,rfl,fun _ => hfound.2.2⟩

/-- No call that has to succeed fails, and none before has left `ERANGE` behind. -/
structure ComesUp : Prop where
  modules : ∀ m, a.loadModule m = 0
  userService : a.userServiceInitialize = 0
  appInstUtil : a.appInstUtilInitialize = 0
  bgft : a.bgftHeap ≠ none ∧ a.bgftServiceIntInit = 0
  net : a.netCtlInit = 0 ∧ a.netInit = 0 ∧ 0 ≤ a.netPoolCreate
  info : a.ipAddressSize ≤ 16 ∧ a.netCtlGetInfo = 0
  address : ∃ c rest, a.ipAddressField = c::rest ∧ c ≠ 0
  http : 0 ≤ a.http.sslInit ∧ 0 ≤ a.http.httpInit
  memory : a.server.malloc = true
  errno : a.server.staleErange = false
  listens : Listens a.server

/-- All that is set up in a run that serves. -/
def everything : List Resource :=
  jails (jailed a)++(Module.inOrder.map .module++
    ([.userService]++([.appInstUtil]++([.bgft]++netKeeps a))))

/-- Nothing is marked as up. -/
structure Down (st : Process) : Prop where
  jailbroken : st.jailbroken = false
  modulesLoaded : st.modulesLoaded = false
  net : st.net.initialized = false
  libraries : ∀ library, st.console.flag library = false
  server : st.server.started = false

theorem serves_iff : Serves a.server (serverOptions serverPort) ↔
    a.server.malloc = true ∧ a.server.staleErange = false ∧ Listens a.server := by
  have hport : ((serverOptions serverPort).port.bind (portOf a.server)).isSome = true ↔
      a.server.staleErange = false := by
    rw [serverOptions,Option.bind_some,portOf_intText (by decide) (by decide)]
    cases a.server.staleErange <;> decide
  constructor
  · exact fun h => ⟨h.malloc,hport.mp h.port,h.listens⟩
  · exact fun h => ⟨h.1,hport.mpr h.2.1,fun hhost => Bool.noConfusion hhost,h.2.2⟩

theorem address_iff (h : a.ipAddressSize ≤ 16 ∧ a.netCtlGetInfo = 0) :
    (netGetIpv4 a 16).2.1 ≠ [] ↔ ∃ c rest, a.ipAddressField = c::rest ∧ c ≠ 0 := by
  rw [netGetIpv4,if_neg (not_lt.mpr h.1),if_neg (not_not.mpr h.2)]
  cases a.ipAddressField with
  | nil => simp
  | cons c rest =>
    by_cases hc : c = 0
    · simp [hc]
    · simp [hc]

theorem comesUp_iff : ComesUp a ↔ (∀ m, a.loadModule m = 0) ∧ a.userServiceInitialize = 0 ∧
    a.appInstUtilInitialize = 0 ∧ (a.bgftHeap ≠ none ∧ a.bgftServiceIntInit = 0) ∧
    NetAnswers a := by
  constructor
  · intro h
    exact ⟨h.modules,h.userService,h.appInstUtil,h.bgft,h.net,h.info,h.http,
      ⟨(address_iff a h.info).mpr h.address,by decide,
        (serves_iff a).mpr ⟨h.memory,h.errno,h.listens⟩⟩,trivial⟩
  · rintro ⟨hmodules,huser,happ,hbgft,hnet,hinfo,hhttp,⟨haddress,_,hserves⟩,_⟩
    obtain ⟨hmemory,herrno,hlistens⟩ := (serves_iff a).mp hserves
    exact ⟨hmodules,huser,happ,hbgft,hnet,hinfo,(address_iff a hinfo).mp haddress,hhttp,hmemory,
      herrno,hlistens⟩

theorem unjailbreak_closes {st : Process} (hfound : st.jailbroken = true → st.jbcSetCred = true) :
    Closes [] (jails st.jailbroken).reverse (acts (unjailbreak st).2) ∧
      flags (unjailbreak st).1 = { flags st with jailbroken := false } := by
  cases hst : st.jailbroken with
  | false =>
    rw [unjailbreak,if_neg (by rw [hst]; exact fun h => Bool.noConfusion h.1)]
    refine ⟨.nil,?_⟩
    rw [← hst]
    rfl
  | true =>
    rw [unjailbreak,if_pos ⟨hst,hfound hst⟩]
    exact ⟨.deletes deletes_deleting .nil,rfl⟩

theorem main_stage : ∃ found, Stage a.polls [] { Process.fresh with jbcSetCred := found }
    (everything a) (ComesUp a) (main a) := by
  obtain ⟨hopens,found,hst,hfound⟩ := jailbreak_life a
  refine ⟨found,?_⟩
  have hstarts : Starts [] { Process.fresh with jbcSetCred := found } (jails (jailed a)) True
      ⟨(jailbreak a .fresh).1,true,(jailbreak a .fresh).2⟩ :=
    ⟨⟨fun _ => trivial,fun _ => rfl⟩,fun _ => hopens,fun h => absurd trivial h⟩
  have hlive : (jails (jailed a)).reverse++[] = jails (jailed a) := by cases jailed a <;> rfl
  have hmodules : Stage a.polls (jails (jailed a))
      { Process.fresh with jailbroken := jailed a, jbcSetCred := found } _ _ _ :=
    withModules_stage a (jailed a) rfl rfl rfl ⟨rfl,rfl,rfl⟩
  rw [← hst,← hlive] at hmodules
  have hdown : ∀ st', flags st' = flags (jailbreak a .fresh).1 →
      Closes [] (jails (jailed a)).reverse (acts (unjailbreak st').2) ∧
        flags (unjailbreak st').1 = flags { Process.fresh with jbcSetCred := found } := by
    intro st' hst'
    rw [hst] at hst'
    have hjailed : st'.jailbroken = jailed a := congrArg Flags.jailbroken hst'
    have hset : st'.jbcSetCred = found := congrArg Flags.jbcSetCred hst'
    obtain ⟨hcloses,hflags⟩ :=
      unjailbreak_closes (show st'.jailbroken = true → _ by rw [hjailed,hset]; exact hfound)
    rw [hjailed] at hcloses
    exact ⟨hcloses,by rw [hflags,hst']; rfl⟩
  have hstage := bracket_stage hstarts
    (f := fun st => bracket (loadModules a st) (withUserService a) (unloadModules a))
    (fun _ => hmodules) fun _ _ st' hst' => hdown st' hst'
  rw [main,cleanup_bracket]
  refine ⟨fun h => ?_,fun h => ?_⟩
  · obtain ⟨hP,hrest⟩ := hstage.ended h
    exact ⟨fun hup => hP ⟨trivial,(comesUp_iff a).mp hup⟩,hrest⟩
  · obtain ⟨hP,hrest⟩ := hstage.running h
    exact ⟨(comesUp_iff a).mpr hP.2,hrest⟩

theorem down_of_flags {st : Process} {found : Bool}
    (h : flags st = flags { Process.fresh with jbcSetCred := found }) : Down st where
  jailbroken := congrArg Flags.jailbroken h
  modulesLoaded := congrArg Flags.modulesLoaded h
  net := congrArg Flags.net h
  libraries library := by
    cases library with
    | appInstUtil => exact congrArg Flags.appInstUtil h
    | bgft => exact congrArg Flags.bgft h
    | http => exact congrArg Flags.http h
  server := congrArg Flags.server h

end Runs

end ProgramLife
end RemotePkgInstaller
