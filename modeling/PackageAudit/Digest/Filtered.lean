import PackageAudit.Digest.Xxh64

/-!
# Digest.Filtered — digests that line endings do not change

Carriage returns and line feeds are left out, and the rest is padded with zeros to whole blocks of
32 bytes before it is hashed.

* `FilteredDigest.Hasher` — a digest under way, fed piece by piece;
* `FilteredDigest.of` — the digest of a content;
* `FilteredDigest.ofStart` — the digest of its first 1024 bytes.
-/

namespace PackageAudit

/-- A hash, and the number of bytes that were not left out. -/
structure FilteredDigest where
  hash : UInt64
  length : Nat
  deriving DecidableEq

namespace FilteredDigest

/-- Contents are padded to multiples of this length. -/
def blockLength : Nat := 32

/-- How much of a content `ofStart` looks at. -/
def startLength : Nat := 1024

/-- Bytes that belong to line endings. -/
def isLineBreak (b : UInt8) : Bool :=
  b == 0x0D || b == 0x0A

/-- A digest under way. -/
structure Hasher where
  state : Xxh64
  length : Nat

namespace Hasher

def start : Hasher := ⟨.start, 0⟩

/-- Feed another piece. -/
def update (h : Hasher) (piece : Bytes) : Hasher :=
  let kept := piece.filter (!isLineBreak ·)
  ⟨h.state.pushAll kept, h.length + kept.length⟩

/-- The digest of the pieces so far. -/
def finish (h : Hasher) : FilteredDigest :=
  let excess := h.length % blockLength
  let padding := if excess = 0 then [] else List.replicate (blockLength - excess) 0
  ⟨(h.state.pushAll padding).finish, h.length⟩

end Hasher

/-- The digest of a content that arrives in pieces. -/
def ofPieces (pieces : List Bytes) : FilteredDigest :=
  (pieces.foldl Hasher.update .start).finish

/-- The digest of a content. -/
def of (content : Bytes) : FilteredDigest :=
  (Hasher.start.update content).finish

/-- The digest of the start of a content. -/
def ofStart (content : Bytes) : FilteredDigest :=
  of (content.take startLength)

end FilteredDigest

end PackageAudit
