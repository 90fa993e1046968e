import RemotePkgInstaller.ByteString

/-! Content ids and their parts. -/
namespace RemotePkgInstaller
namespace ContentId

def pkgTitleIdSize : ℕ := 0x9
def pkgServiceIdSize : ℕ := 0x13
def pkgContentIdSize : ℕ := 0x24
def pkgLabelSize : ℕ := 0x10

/-- The string from the first `c` on. -/
def strchr (s : Bytes) (c : UInt8) : Option Bytes :=
  if c ∈ s then some (s.dropWhile (· ≠ c)) else none

/-- The string from the last `c` on. -/
def strrchr (s : Bytes) (c : UInt8) : Option Bytes :=
  if c ∈ s then some (c::(s.reverse.takeWhile (· ≠ c)).reverse) else none

structure PkgContentInfo where
  contentId : Bytes
  serviceId : Bytes
  titleId : Bytes
  label : Bytes
  deriving DecidableEq

def pkgParseContentId (contentId : Bytes) : Option PkgContentInfo := do
  guard (contentId.length = pkgContentIdSize)
  let p1 ← strchr contentId 0x2d
  let p1 := p1.tail
  let p2 ← strchr p1 0x2d
  guard (contentId.length-p2.length = pkgServiceIdSize)
  let serviceId := strlcpy contentId (pkgServiceIdSize+1)
  guard (serviceId.length = pkgServiceIdSize)
  guard (strchr p1 0x5f).isSome
  let titleId := strlcpy p1 (pkgTitleIdSize+1)
  guard (titleId.length = pkgTitleIdSize)
  let p1 ← strrchr contentId 0x2d
  let label := strlcpy p1.tail (pkgLabelSize+1)
  guard (label.length = pkgLabelSize)
  pure ⟨strlcpy contentId (pkgContentIdSize+1),serviceId,titleId,label⟩

end ContentId
end RemotePkgInstaller
