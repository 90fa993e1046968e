import RemotePkgInstaller.PercentCoding
import RemotePkgInstaller.JsonText

/-! The text conversions of `http.c`, on top of the console's own. -/
namespace RemotePkgInstaller
namespace HttpText

open PercentCoding

/-- The text conversions of `http.c` and the SDK calls behind them.  `uriUnescape`
is `none` when either `sceHttpUriUnescape` call fails or there is no memory for
its result; `jsonEscape` takes the size of the output buffer. -/
structure TextSdk where
  initialized : Bool
  uriUnescape : Bytes → Option Bytes
  jsonEscape : ℕ → Bytes → Option Bytes

def httpUnescapeUri (sdk : TextSdk) (s : Bytes) : Option Bytes :=
  if sdk.initialized = false then none else sdk.uriUnescape s

def httpEscapeJsonString (sdk : TextSdk) (maxOutSize : ℕ) (s : Bytes) : Option Bytes :=
  if sdk.initialized = false then none else sdk.jsonEscape maxOutSize s

/-- Plain percent-decoding on every text whose escapes are well formed. -/
def TextSdk.PlainUnescape (sdk : TextSdk) : Prop :=
  ∀ s, (tokens? s).isSome → sdk.uriUnescape s = some (percentDecode s)

/-- Standard escaping of every text that fits into the buffer with its NUL. -/
def TextSdk.StandardEscape (sdk : TextSdk) : Prop :=
  ∀ n s, (∀ c ∈ s, JsonText.isTextByte c = true) → (JsonText.escape s).length < n →
    sdk.jsonEscape n s = some (JsonText.escape s)

/-- Plain decoding, and the standard escapes as far as the buffer goes. -/
def plainSdk : TextSdk where
  initialized := true
  uriUnescape := fun s => some (percentDecode s)
  jsonEscape := fun n s => if (JsonText.escape s).length < n then some (JsonText.escape s) else none

theorem plainSdk_plainUnescape : plainSdk.PlainUnescape := fun _ _ => rfl

theorem plainSdk_standardEscape : plainSdk.StandardEscape := fun _ _ _ hn => if_pos hn

end HttpText
end RemotePkgInstaller
