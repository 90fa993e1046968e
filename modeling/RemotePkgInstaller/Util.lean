import RemotePkgInstaller.TransferLoop
import RemotePkgInstaller.UrlComponents

/-! `util.c`: percent-encoding, prefix tests, and whole-file reads and writes. -/
namespace RemotePkgInstaller
namespace Util

open TransferLoop UrlComponents

def hexDigits : Bytes := bytes "0123456789abcdef"

def toHex (code : UInt8) : UInt8 := hexDigits.getD (code &&& 15).toNat 0

/-- `isalnum` in the C locale. -/
def isalnum (c : UInt8) : Bool :=
  (0x30 ≤ c && c ≤ 0x39) || (0x41 ≤ c && c ≤ 0x5a) || (0x61 ≤ c && c ≤ 0x7a)

/-- The bytes `url_encode` copies: letters, digits and `-_.~+:/@`. -/
def urlKeeps (c : UInt8) : Bool :=
  isalnum c || c == 0x2d || c == 0x5f || c == 0x2e || c == 0x7e ||
    c == 0x2b || c == 0x3a || c == 0x2f || c == 0x40

def urlEncode : Bytes → Bytes
  | [] => []
  | c::s =>
    if c = 0 then []
    else if urlKeeps c then c::urlEncode s
    else 0x25::toHex (c >>> 4)::toHex (c &&& 15)::urlEncode s

theorem toHex_eq_hexDigit : ∀ n < 16, toHex (UInt8.ofNat n) = hexDigit n := by decide

theorem toHex_high (c : UInt8) : toHex (c >>> 4) = hexDigit (c.toNat/16) := by
  have hc := c.toNat_lt
  have h : c >>> 4 = UInt8.ofNat (c.toNat/16) := by
    apply UInt8.toNat_inj.mp
    simp [UInt8.toNat_shiftRight,Nat.shiftRight_eq_div_pow]
    omega
  rw [h,toHex_eq_hexDigit _ (by omega)]

theorem toHex_low (c : UInt8) : toHex (c &&& 15) = hexDigit (c.toNat%16) := by
  have h : c &&& 15 = UInt8.ofNat (c.toNat%16) := by
    apply UInt8.toNat_inj.mp
    have := Nat.and_two_pow_sub_one_eq_mod c.toNat 4
    simp at this
    simp [this]
    omega
  rw [h,toHex_eq_hexDigit _ (by omega)]

theorem urlKeeps_ne_percent {c : UInt8} (h : urlKeeps c = true) : c ≠ 0x25 := by
  rintro rfl
  simp [urlKeeps,isalnum] at h

/-- The encoder is the general one with its own keep list, up to the first NUL. -/
theorem urlEncode_eq (s : Bytes) : urlEncode s = encode urlKeeps (cstr s) := by
  induction s with
  | nil => rfl
  | cons c s ih =>
    rw [urlEncode]
    split_ifs with h0 hk
    · simp [cstr,h0,encode]
    · have hc := urlKeeps_ne_percent hk
      have hs : cstr (c::s) = c::cstr s := by simp [cstr,h0]
      rw [hs,ih]
      simp [encode,encodeToken,hk,hc,PercentCoding.Token.text]
    · have hs : cstr (c::s) = c::cstr s := by simp [cstr,h0]
      rw [hs,ih]
      simp [encode,encodeToken,hk,PercentCoding.Token.text,toHex_high,toHex_low]

/-- `starts_with` on two C strings. -/
def startsWith : Bytes → Bytes → Bool
  | _, [] => true
  | [], _::_ => false
  | h::hs, n::ns => if h = n then startsWith hs ns else false

theorem startsWith_iff (h n : Bytes) : startsWith h n = true ↔ n <+: h := by
  induction h generalizing n with
  | nil => cases n <;> simp [startsWith]
  | cons x h ih =>
    cases n with
    | nil => simp [startsWith]
    | cons y n =>
      simp only [startsWith,List.cons_prefix_cons]
      split_ifs with hxy <;> simp [hxy,ih,eq_comm]

/-- The system calls behind a whole-file read: `open`, `fstat`, `malloc` and
the results of the successive `read` calls. -/
structure ReadCalls where
  opened : Bool
  statSize : Option ℕ
  allocated : Bool
  reads : ℕ → ℤ

/-- Every call succeeds and every `read` delivers something until the file ends. -/
def ReadCalls.whole (content : Bytes) : ReadCalls where
  opened := true
  statSize := some content.length
  allocated := true
  reads := fun _ => content.length+1

/-- `read_text_file`: the bytes put before the terminating NUL, whose number is
`*size`; `none` is failure, with `*data` null.  `content` is what the file holds. -/
def readTextFile (content : Bytes) (io : ReadCalls) (maxSize : ℕ) : Option Bytes :=
  if io.opened = false then none
  else
    match io.statSize with
    | none => none
    | some fileSize =>
      if maxSize > 0 ∧ fileSize > maxSize then none
      else if io.allocated = false then none
      else some (readLoop io.reads fileSize fileSize 0 fileSize content).1

/-- The system calls behind a whole-file write. -/
structure WriteCalls where
  opened : Bool
  writes : ℕ → ℤ

/-- How many bytes the successive `write` calls of `write_file` accept. -/
def WriteCalls.accepted (io : WriteCalls) (size : ℕ) : ℕ := writeLoop io.writes size 0 size

/-- What `write_file` reports and leaves behind. -/
structure Written where
  status : Bool
  nwritten : ℕ
  file : Option Bytes
  deriving DecidableEq

/-- `write_file`; `trunc` is the `O_TRUNC` flag and `file` what the path names before. -/
def writeFile (file : Option Bytes) (data : Bytes) (io : WriteCalls) (trunc : Bool) : Written :=
  if io.opened = false then ⟨false,0,file⟩
  else
    let total := io.accepted data.length
    let old := if trunc then [] else file.getD []
    ⟨total == data.length,total,some (data.take total++old.drop total)⟩

def writeFileTrunc (file : Option Bytes) (data : Bytes) (io : WriteCalls) : Written :=
  writeFile file data io true

theorem writeFileTrunc_status (file : Option Bytes) (data : Bytes) (io : WriteCalls) :
    (writeFileTrunc file data io).status = true ↔
      io.opened = true ∧ io.accepted data.length = data.length := by
  unfold writeFileTrunc writeFile
  cases h : io.opened <;> simp

theorem writeFileTrunc_file (file : Option Bytes) (data : Bytes) (io : WriteCalls) :
    (writeFileTrunc file data io).file =
      if io.opened then some (data.take (io.accepted data.length)) else file := by
  unfold writeFileTrunc writeFile
  cases h : io.opened <;> simp

/-- A write that is reported as done leaves exactly the data. -/
theorem writeFileTrunc_complete {file : Option Bytes} {data : Bytes} {io : WriteCalls}
    (h : (writeFileTrunc file data io).status = true) :
    (writeFileTrunc file data io).file = some data := by
  obtain ⟨ho,ha⟩ := (writeFileTrunc_status file data io).mp h
  simp [writeFileTrunc_file,ho,ha]

end Util
end RemotePkgInstaller
