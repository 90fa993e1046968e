import RemotePkgInstaller.HttpText
import RemotePkgInstaller.Decimal

/-! How the server answers: the calls a handler makes on the stream of its client. -/
namespace RemotePkgInstaller
namespace Responses

open HttpText

inductive SbCall
  | sendStatus (code : ℕ) (title : Bytes)
  | sendHeader (name value : Bytes)
  | write (text : Bytes)
  deriving DecidableEq

/-- Upper-case hexadecimal digits, as `%X` writes them. -/
def hexText (n : ℕ) : Bytes :=
  (Nat.toDigits 16 n).map fun c => UInt8.ofNat c.toUpper.toNat

/-- `%08X` of an `int`. -/
def hex8Text (code : ℤ) : Bytes :=
  let digits := hexText (code % 2^32).toNat
  List.replicate (8-digits.length) 0x30++digits

/-- `%d` of an `int`. -/
def intText (n : ℤ) : Bytes :=
  if n < 0 then 0x2d::Decimal.text n.natAbs else Decimal.text n.natAbs

def setCorsHeader : List SbCall :=
  [.sendHeader (bytes "Content-Type") (bytes "application/json"),
   .sendHeader (bytes "Access-Control-Allow-Origin") (bytes "*"),
   .sendHeader (bytes "Access-Control-Allow-Methods") (bytes "*"),
   .sendHeader (bytes "Access-Control-Allow-Headers") (bytes "*")]

def connectionClose : SbCall := .sendHeader (bytes "Connection") (bytes "close")

def kickError (sdk : TextSdk) (code : ℕ) (title error : Bytes) : List SbCall :=
  let escaped := (httpEscapeJsonString sdk 1024 error).getD
    (bytes "Unable to escape error string.")
  .sendStatus code title::setCorsHeader++[connectionClose,
    .write (bytes "\x7b \"status\": \"fail\", \"error\": \""++escaped++bytes "\" \x7d\n")]

/-- The formatted text goes through a buffer of 512 bytes. -/
def kickErrorf (sdk : TextSdk) (code : ℕ) (title text : Bytes) : List SbCall :=
  kickError sdk code title (strlcpy text 512)

def kickResultHeaderJson : List SbCall :=
  .sendStatus 200 (bytes "OK")::setCorsHeader++[connectionClose]

def kickErrorJson (code : ℤ) : List SbCall :=
  kickResultHeaderJson++
    [.write (bytes "\x7b \"status\": \"fail\", \"error_code\": 0x"++hex8Text code++bytes " \x7d\n")]

def statusSuccess : Bytes := bytes "\x7b \"status\": \"success\" \x7d\n"

end Responses
end RemotePkgInstaller
