import PackageAudit.Text.Utf8

/-!
# Digest.Endian — numbers as bytes, least significant byte first

* `Endian.number` — the number that bytes spell;
* `Endian.bytes` — the bytes of a number;
* `Endian.hex` — bytes in base sixteen.
-/

namespace PackageAudit

namespace Endian

/-- The number whose least significant byte comes first. -/
def number (bs : Bytes) : Nat :=
  bs.foldr (fun b n => b.toNat + 256 * n) 0

/-- The `width` least significant bytes of a number. -/
def bytes : Nat → Nat → Bytes
  | 0, _ => []
  | width + 1, n => .ofNat (n % 256) :: bytes width (n / 256)

def word32 (bs : Bytes) : UInt32 := .ofNat (number bs)

def word64 (bs : Bytes) : UInt64 := .ofNat (number bs)

/-- Two lower-case digits per byte. -/
def hex (bs : Bytes) : String :=
  .ofList (bs.flatMap fun b => [Nat.digitChar (b.toNat / 16), Nat.digitChar (b.toNat % 16)])

end Endian

end PackageAudit
