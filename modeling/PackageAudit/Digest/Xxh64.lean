import PackageAudit.Digest.Endian

/-!
# Digest.Xxh64 — the 64-bit hash of the XXH family, with seed zero

* `Xxh64` — the state after a number of bytes;
* `Xxh64.push` — one byte more;
* `Xxh64.finish` — the hash of the bytes so far.
-/

namespace PackageAudit

/-- Four accumulators, and what was absorbed since they last changed. -/
structure Xxh64 where
  a : UInt64
  b : UInt64
  c : UInt64
  d : UInt64
  /-- The bytes that do not fill a stripe of 32 yet, last first. -/
  held : Bytes
  /-- How many bytes were absorbed in all. -/
  total : Nat

namespace Xxh64

def prime₁ : UInt64 := 0x9E3779B185EBCA87
def prime₂ : UInt64 := 0xC2B2AE3D27D4EB4F
def prime₃ : UInt64 := 0x165667B19E3779F9
def prime₄ : UInt64 := 0x85EBCA77C2B2AE63
def prime₅ : UInt64 := 0x27D4EB2F165667C5

def rotateLeft (x n : UInt64) : UInt64 :=
  (x <<< n) ||| (x >>> (64 - n))

/-- An accumulator after a word of eight bytes. -/
def round (acc word : UInt64) : UInt64 :=
  rotateLeft (acc + word * prime₂) 31 * prime₁

def start : Xxh64 where
  a := prime₁ + prime₂
  b := prime₂
  c := 0
  d := 0 - prime₁
  held := []
  total := 0

/-- The word of the eight bytes from `i` on. -/
def wordAt (i : Nat) (bs : Bytes) : UInt64 :=
  Endian.word64 ((bs.drop i).take 8)

/-- Absorb one byte; every 32nd completes a stripe. -/
def push (h : Xxh64) (byte : UInt8) : Xxh64 :=
  let held := byte :: h.held
  if h.total % 32 = 31 then
    let stripe := held.reverse
    { a := round h.a (wordAt 0 stripe)
      b := round h.b (wordAt 8 stripe)
      c := round h.c (wordAt 16 stripe)
      d := round h.d (wordAt 24 stripe)
      held := []
      total := h.total + 1 }
  else { h with held := held, total := h.total + 1 }

def pushAll (h : Xxh64) (bs : Bytes) : Xxh64 :=
  bs.foldl push h

/-! ## Finishing -/

/-- The accumulators as one word. -/
def merged (h : Xxh64) : UInt64 :=
  let merge (acc word : UInt64) := (acc ^^^ round 0 word) * prime₁ + prime₄
  let sum := rotateLeft h.a 1 + rotateLeft h.b 7 + rotateLeft h.c 12 + rotateLeft h.d 18
  merge (merge (merge (merge sum h.a) h.b) h.c) h.d

def mixByte (acc : UInt64) (byte : UInt8) : UInt64 :=
  rotateLeft (acc ^^^ (byte.toUInt64 * prime₅)) 11 * prime₁

def mixWord32 (acc : UInt64) (bs : Bytes) : UInt64 :=
  rotateLeft (acc ^^^ ((Endian.word32 bs).toUInt64 * prime₁)) 23 * prime₂ + prime₃

def mixWord64 (acc : UInt64) (bs : Bytes) : UInt64 :=
  rotateLeft (acc ^^^ round 0 (Endian.word64 bs)) 27 * prime₁ + prime₄

/-- Mix in what fills no stripe: whole words, at most one half word, then single bytes. -/
def mixRest (acc : UInt64) (rest : Bytes) : UInt64 :=
  match rest with
  | b₀ :: b₁ :: b₂ :: b₃ :: b₄ :: b₅ :: b₆ :: b₇ :: more =>
    mixRest (mixWord64 acc [b₀, b₁, b₂, b₃, b₄, b₅, b₆, b₇]) more
  | b₀ :: b₁ :: b₂ :: b₃ :: more => more.foldl mixByte (mixWord32 acc [b₀, b₁, b₂, b₃])
  | few => few.foldl mixByte acc

def avalanche (x : UInt64) : UInt64 :=
  let x := (x ^^^ (x >>> 33)) * prime₂
  let x := (x ^^^ (x >>> 29)) * prime₃
  x ^^^ (x >>> 32)

/-- The hash of the bytes absorbed so far. -/
def finish (h : Xxh64) : UInt64 :=
  let acc := if h.total < 32 then prime₅ else h.merged
  avalanche (mixRest (acc + .ofNat h.total) h.held.reverse)

end Xxh64

end PackageAudit
