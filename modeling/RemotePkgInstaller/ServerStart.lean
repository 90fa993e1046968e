import RemotePkgInstaller.ReceivedRequests

/-! How the server is started, listens and is stopped, call by call: `server_start` and its
siblings, and `sb_new_server` and `sb_close_server` below them. -/
namespace RemotePkgInstaller
namespace ServerStart

open Decimal ReceivedRequests Responses Settings

/-- What `strtol` returns, whether it has converted anything, and whether the number was out of
the range of a `long`. -/
structure Converted where
  value : ℤ
  converted : Bool
  outOfRange : Bool
  deriving DecidableEq

/-- What a byte counts as a digit; what is none counts more than any base has. -/
def digitOf (c : UInt8) : ℕ :=
  if isdigit c then digit c
  else if 0x61 ≤ toLower c ∧ toLower c ≤ 0x7a then (toLower c).toNat-0x61+10
  else 36

/-- The base that a numeral announces for itself, and its digits. -/
def announcedBase : Bytes → ℕ × Bytes
  | 0x30::x::c::s =>
    if toLower x = 0x78 ∧ digitOf c < 16 then (16,c::s) else (8,0x30::x::c::s)
  | 0x30::s => (8,0x30::s)
  | s => (10,s)

/-- `strtol` with base zero. -/
def strtol (s : Bytes) : Converted :=
  let s := s.dropWhile isspace
  let signed := if s.head? = some 0x2d ∨ s.head? = some 0x2b then s.tail else s
  let announced := announcedBase signed
  let digits := announced.2.takeWhile fun c => digitOf c < announced.1
  let magnitude : ℕ := Nat.ofDigits announced.1 (digits.reverse.map digitOf)
  let number : ℤ := if s.head? = some 0x2d then -magnitude else magnitude
  if digits = [] then ⟨0,false,false⟩
  else if number < -2^63 then ⟨-2^63,true,true⟩
  else if 2^63 ≤ number then ⟨2^63-1,true,true⟩
  else ⟨number,true,false⟩

/-- The texts that `server.c` keeps copies of. -/
inductive Copy
  | ipAddress | workDir
  deriving DecidableEq

/-- A call that starts, runs or stops the server, with what it returns where that decides
anything. -/
inductive ServerCall
  | strdup (copy : Copy) (given : Bool)
  | cleanupTempFiles
  | malloc (given : Bool)
  | inetPton (ret : ℤ)
  | socket (fd : ℤ)
  | setSocketBlocking
  | setsockopt
  | bind (port : ℤ) (ret : ℤ)
  | listen (ret : ℤ)
  | mutexInit (ret : ℤ)
  | mutexLock
  | mutexUnlock
  | shutdown
  | close
  | mutexDestroy
  | free
  | freeCopy (copy : Copy)
  | sbPollServer (ret : ℤ)
  | usleep
  deriving DecidableEq

/-- What the calls of `server_start` give.  `staleErange` says that an earlier call has left
`ERANGE` in `errno`. -/
structure StartAnswers where
  ipAddressCopied : Bool
  workDirCopied : Bool
  malloc : Bool
  staleErange : Bool
  inetPton : ℤ
  socket : ℤ
  bind : ℤ
  listen : ℤ
  mutexInit : ℤ

structure SbOptions where
  host : Option Bytes
  port : Option Bytes
  timeout : Option Bytes
  maxLifetime : Option Bytes
  maxRequestSize : Option Bytes

structure SbServer where
  sockfd : ℤ
  timeout : UInt32
  maxLifetime : UInt32
  maxRequestSize : UInt32

/-- `INVALID_SOCKET` -/
def invalidSocket : ℤ := -1

section Server

variable (wide : ℕ → UInt32) (a : StartAnswers)

/-- A null pointer reads as zero. -/
def optionToUint (str : Option Bytes) : UInt32 := (str.map (strToUint wide)).getD 0

/-- On a server without streams, as `sb_new_server` leaves it. -/
def sbCloseServer (srv : SbServer) : List ServerCall :=
  [.mutexLock,.mutexUnlock]++(if srv.sockfd ≠ invalidSocket then [.shutdown,.close] else [])++
    [.mutexDestroy,.free]

/-- The port that the options name, if it is one. -/
def portOf (text : Bytes) : Option ℤ :=
  let port := strtol text
  if port.converted = false ∨ a.staleErange = true ∨ port.outOfRange = true ∨
      ¬ (0 < port.value ∧ port.value ≤ 0xffff) then none
  else some port.value

/-- `sb_new_server` from the call that makes its socket blocking or not; whether the server is
ready. -/
def readyServer (port : ℤ) : Bool × List ServerCall :=
  if a.bind ≠ 0 then (false,[.setSocketBlocking,.setsockopt,.bind port a.bind])
  else if a.listen ≠ 0 then
    (false,[.setSocketBlocking,.setsockopt,.bind port a.bind,.listen a.listen])
  else
    (a.mutexInit = 0,[.setSocketBlocking,.setsockopt,.bind port a.bind,.listen a.listen,
      .mutexInit a.mutexInit])

/-- `sb_new_server` from its call of `sceNetSocket` on. -/
def openServer (srv : SbServer) (port : ℤ) : Option SbServer × List ServerCall :=
  if a.socket = invalidSocket then (none,.socket a.socket::sbCloseServer srv)
  else
    let srv := { srv with sockfd := a.socket }
    let ready := readyServer a port
    if ready.1 then (some srv,.socket a.socket::ready.2)
    else (none,.socket a.socket::(ready.2++sbCloseServer srv))

def sbNewServer (opt : SbOptions) : Option SbServer × List ServerCall :=
  if a.malloc = false then (none,[.malloc false])
  else
    let timeout := (opt.timeout.map (strToUint wide)).getD 30000
    let srv : SbServer :=
      ⟨invalidSocket,timeout,optionToUint wide opt.maxLifetime,optionToUint wide opt.maxRequestSize⟩
    match opt.port.bind (portOf a) with
    | none => (none,.malloc true::sbCloseServer srv)
    | some port =>
      match opt.host with
      | none =>
        let opened := openServer a srv port
        (opened.1,.malloc true::opened.2)
      | some _ =>
        if a.inetPton ≠ 1 then (none,.malloc true::.inetPton a.inetPton::sbCloseServer srv)
        else
          let opened := openServer a srv port
          (opened.1,.malloc true::.inetPton a.inetPton::opened.2)

/-- The static variables of `server.c`. -/
structure Statics where
  server : Option SbServer
  ipAddress : Option Bytes
  port : ℤ
  workDir : Option Bytes
  started : Bool

def Statics.fresh : Statics := ⟨none,none,0,none,false⟩

/-- What a function of `server.c` leaves. -/
structure Left where
  st : Statics
  succeeded : Bool
  calls : List ServerCall

/-- `free`, to which a null pointer is nothing. -/
def freeCopy (copy : Copy) : Option Bytes → List ServerCall
  | none => []
  | some _ => [.freeCopy copy]

/-- What `strdup` gives. -/
def strdup (text : Bytes) (given : Bool) : Option Bytes := if given then some text else none

def serverOptions (port : ℤ) : SbOptions :=
  ⟨none,some (intText port),some (bytes "0"),some (bytes "0"),some (bytes "0")⟩

/-- `server_start` once it has its copy of the IP address. -/
def startAt (st : Statics) (workDir : Bytes) : Left :=
  if workDir = [] then ⟨{ st with ipAddress := none },false,freeCopy .ipAddress st.ipAddress⟩
  else
    let st := { st with workDir := strdup workDir a.workDirCopied }
    let made := sbNewServer wide a (serverOptions st.port)
    let calls := .strdup .workDir a.workDirCopied::.cleanupTempFiles::made.2
    match made.1 with
    | none =>
      ⟨{ st with server := none, workDir := none, ipAddress := none },false,
        calls++freeCopy .workDir st.workDir++freeCopy .ipAddress st.ipAddress⟩
    | some srv => ⟨{ st with server := some srv, started := true },true,calls⟩

/-- A null pointer is an empty text here. -/
def serverStart (st : Statics) (ipAddress : Bytes) (port : ℤ) (workDir : Bytes) : Left :=
  if st.started then ⟨st,true,[]⟩
  else if ipAddress = [] then ⟨st,false,[]⟩
  else
    let st := { st with ipAddress := strdup ipAddress a.ipAddressCopied, port := port }
    let left := startAt wide a st workDir
    { left with calls := .strdup .ipAddress a.ipAddressCopied::left.calls }

end Server

/-- The calls of a loop, and whether it has come to its end. -/
structure Looped where
  ended : Bool
  calls : List ServerCall

/-- The loop of `server_listen` after as many rounds as there are results of `sb_poll_server`.
Nothing in it clears the flag. -/
def serverListen (st : Statics) : List ℤ → Looped
  | [] => ⟨!st.started,[]⟩
  | ret::polls =>
    if st.started then
      let rest := serverListen st polls
      ⟨rest.ended,.sbPollServer ret::.usleep::rest.calls⟩
    else ⟨true,[]⟩

def serverStop (st : Statics) : Statics × List ServerCall :=
  if st.started = false then (st,[])
  else
    (⟨none,none,0,none,false⟩,(st.server.map sbCloseServer).getD []++freeCopy .workDir st.workDir++
      freeCopy .ipAddress st.ipAddress)

theorem digitOf_eq_digit {c : UInt8} (h : isdigit c = true) : digitOf c = digit c := if_pos h

theorem announcedBase_of_head {s : Bytes} (h : s.head? ≠ some 0x30) : announcedBase s = (10,s) := by
  unfold announcedBase
  split
  · exact absurd rfl h
  · exact absurd rfl h
  · rfl

/-- Digits that no base is announced with are read as a decimal number. -/
theorem digits_decimal {ds : Bytes} (h : ∀ c ∈ ds, isdigit c = true) :
    ds.takeWhile (fun c => digitOf c < 10) = ds ∧
      Nat.ofDigits 10 (ds.reverse.map digitOf) = value ds := by
  constructor
  · refine List.takeWhile_eq_self_iff.mpr fun c hc => ?_
    rw [decide_eq_true_eq,digitOf_eq_digit (h c hc)]
    exact digit_lt (h c hc)
  · rw [value]
    congr 1
    exact List.map_congr_left fun c hc => digitOf_eq_digit (h c (List.mem_reverse.mp hc))

theorem announcedBase_text (n : ℕ) :
    announcedBase (text n) = ((if n = 0 then 8 else 10),text n) := by
  by_cases hn : n = 0
  · rw [hn,text_zero]
    rfl
  · have hhead := text_head_ne_zero hn []
    rw [List.append_nil] at hhead
    rw [if_neg hn]
    exact announcedBase_of_head hhead

theorem digits_text (n : ℕ) :
    (text n).takeWhile (fun c => digitOf c < if n = 0 then 8 else 10) = text n ∧
      Nat.ofDigits (if n = 0 then 8 else 10) ((text n).reverse.map digitOf) = n := by
  by_cases hn : n = 0
  · rw [hn]
    decide
  · rw [if_neg hn]
    have hdecimal := digits_decimal (text_isdigit n)
    rw [value_text] at hdecimal
    exact hdecimal

theorem isspace_of_isdigit {c : UInt8} (h : isdigit c = true) : isspace c = false := by
  simp only [isdigit,Bool.and_eq_true,decide_eq_true_eq,UInt8.le_iff_toNat_le] at h
  have h1 : (0x30 : UInt8).toNat = 0x30 := rfl
  have h2 : (0x0d : UInt8).toNat = 0x0d := rfl
  unfold isspace
  rw [Bool.or_eq_false_iff]
  constructor
  · refine decide_eq_false fun heq => ?_
    rw [heq] at h
    exact absurd h.1 (by decide)
  · rw [Bool.and_eq_false_iff]
    refine Or.inr (decide_eq_false fun hle => ?_)
    rw [UInt8.le_iff_toNat_le] at hle
    omega

/-- The magnitude of a number is read back from its text behind a sign. -/
theorem strtol_signed {s : Bytes} {n : ℕ} (hspace : s.dropWhile isspace = s)
    (hsigned : (if s.head? = some 0x2d ∨ s.head? = some 0x2b then s.tail else s) = text n)
    (hn : n < 2^63) :
    strtol s = ⟨if s.head? = some 0x2d then -n else n,true,false⟩ := by
  have hdigits := digits_text n
  simp only [strtol,hspace,hsigned,announcedBase_text,hdigits.1,hdigits.2,if_neg (text_ne_nil n)]
  by_cases hminus : s.head? = some 0x2d
  · rw [if_pos hminus,if_neg (by omega),if_neg (by omega)]
  · rw [if_neg hminus,if_neg (by omega),if_neg (by omega)]

/-- What `snprintf` writes for an `int` is read back as that number. -/
theorem strtol_intText {n : ℤ} (hlow : -2^31 ≤ n) (hhigh : n < 2^31) :
    strtol (intText n) = ⟨n,true,false⟩ := by
  unfold intText
  by_cases hneg : n < 0
  · rw [if_pos hneg,strtol_signed (n := n.natAbs) rfl rfl (by omega)]
    simp only [List.head?_cons,if_true]
    congr 1
    omega
  · rw [if_neg hneg]
    obtain ⟨c,ds,hcons,hc,_⟩ := text_cons n.natAbs
    have hhead : ∀ sign : UInt8, isdigit sign = false → (text n.natAbs).head? ≠ some sign := by
      intro sign hsign heq
      rw [hcons,List.head?_cons,Option.some.injEq] at heq
      exact head_ne_of_isdigit hc hsign heq
    have hspace : (text n.natAbs).dropWhile isspace = text n.natAbs := by
      rw [hcons,List.dropWhile_cons_of_neg (by rw [isspace_of_isdigit hc]; decide)]
    rw [strtol_signed hspace (if_neg (not_or.mpr ⟨hhead 0x2d (by decide),hhead 0x2b (by decide)⟩))
      (by omega),if_neg (hhead 0x2d (by decide))]
    congr 1
    omega

/-- Only an `ERANGE` left by an earlier call keeps `sb_new_server` from the port it is given. -/
theorem portOf_intText {a : StartAnswers} {port : ℤ} (hlow : 0 < port) (hhigh : port ≤ 0xffff) :
    portOf a (intText port) = if a.staleErange then none else some port := by
  rw [portOf,strtol_intText (by omega) (by omega)]
  cases a.staleErange <;> simp [hlow,hhigh]

end ServerStart
end RemotePkgInstaller
