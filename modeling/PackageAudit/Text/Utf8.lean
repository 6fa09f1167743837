/-!
# UTF-8

Well-formed byte sequences for Unicode scalar values, read and written one character at a time.

* `Utf8.decodeChar` reads the character at the head of a byte list, if one stands there;
* `Utf8.split` reads the longest well-formed front of a byte list and keeps the rest;
* `Utf8.decode` reads a list that is well formed as a whole;
* `Utf8.decodeLossy` reads any list, with U+FFFD for every maximal ill-formed part;
* `Utf8.encode` writes characters.
-/

namespace PackageAudit

/-- The content of a file, byte by byte. -/
abbrev Bytes := List UInt8

namespace Utf8

/-! ## Writing -/

/-- The one to four bytes of a character. -/
def encodeChar (c : Char) : Bytes :=
  let n := c.toNat
  if n < 0x80 then [.ofNat n]
  else if n < 0x800 then [.ofNat (0xC0 + n / 64), .ofNat (0x80 + n % 64)]
  else if n < 0x10000 then
    [.ofNat (0xE0 + n / 4096), .ofNat (0x80 + n / 64 % 64), .ofNat (0x80 + n % 64)]
  else
    [.ofNat (0xF0 + n / 262144), .ofNat (0x80 + n / 4096 % 64), .ofNat (0x80 + n / 64 % 64),
      .ofNat (0x80 + n % 64)]

/-- The bytes of a text. -/
def encode (cs : List Char) : Bytes :=
  cs.flatMap encodeChar

/-! ## Reading one character -/

/-- The scalar value `n`, unless it is a surrogate or too large. -/
def scalar? (n : Nat) : Option Char :=
  if h : n.isValidChar then some (Char.ofNatAux n h) else none

/-- Bytes that may follow the first byte of a character. -/
def isTail (b : UInt8) : Bool :=
  0x80 ≤ b && b ≤ 0xBF

/-- The payload of a byte that follows the first one. -/
def tailValue (b : UInt8) : Nat :=
  b.toNat - 0x80

/--
The character at the head and what follows it. Overlong forms, surrogates and values past
U+10FFFF are no characters.
-/
def decodeChar : Bytes → Option (Char × Bytes)
  | [] => none
  | a :: rest =>
    if a < 0x80 then (scalar? a.toNat).map (·, rest)
    else if a < 0xC2 then none
    else if a < 0xE0 then
      match rest with
      | b :: rest =>
        if isTail b then (scalar? ((a.toNat - 0xC0) * 64 + tailValue b)).map (·, rest) else none
      | [] => none
    else if a < 0xF0 then
      match rest with
      | b :: c :: rest =>
        let n := ((a.toNat - 0xE0) * 64 + tailValue b) * 64 + tailValue c
        if isTail b && isTail c && 0x800 ≤ n then (scalar? n).map (·, rest) else none
      | _ => none
    else if a < 0xF5 then
      match rest with
      | b :: c :: d :: rest =>
        let n := (((a.toNat - 0xF0) * 64 + tailValue b) * 64 + tailValue c) * 64 + tailValue d
        if isTail b && isTail c && isTail d && 0x10000 ≤ n then (scalar? n).map (·, rest) else none
      | _ => none
    else none

/-- A character takes at least one byte. -/
theorem length_lt_of_decodeChar {s : Bytes} {c : Char} {r : Bytes}
    (h : decodeChar s = some (c, r)) : r.length < s.length := by
  unfold decodeChar at h
  grind [Option.map_eq_some_iff]

/-! ## Reading a whole text -/

/-- The longest well-formed front of the input, decoded behind `front`, and the rest. -/
def splitFrom (front : List Char) (s : Bytes) : List Char × Bytes :=
  match h : decodeChar s with
  | some (c, r) =>
    have := length_lt_of_decodeChar h
    splitFrom (c :: front) r
  | none => (front.reverse, s)
  termination_by s.length

/-- The longest well-formed front of the input, decoded, and the rest. -/
def split (s : Bytes) : List Char × Bytes :=
  splitFrom [] s

/-- The text of an input that is well formed throughout. -/
def decode (s : Bytes) : Option (List Char) :=
  match split s with
  | (text, []) => some text
  | (_, _ :: _) => none

/-! ## Reading any input -/

/-- The least and greatest byte that may stand behind the first byte `a`, and how many follow. -/
def followers (a : UInt8) : Option (UInt8 × UInt8 × Nat) :=
  if a < 0xC2 then none
  else if a < 0xE0 then some (0x80, 0xBF, 1)
  else if a == 0xE0 then some (0xA0, 0xBF, 2)
  else if a == 0xED then some (0x80, 0x9F, 2)
  else if a < 0xF0 then some (0x80, 0xBF, 2)
  else if a == 0xF0 then some (0x90, 0xBF, 3)
  else if a < 0xF4 then some (0x80, 0xBF, 3)
  else if a == 0xF4 then some (0x80, 0x8F, 3)
  else none

/--
What is left after the maximal part of `rest` that could still belong to a character starting
with `a`.
-/
def skipBroken (a : UInt8) (rest : Bytes) : Bytes :=
  match followers a, rest with
  | some (low, high, n), b :: more =>
    if low ≤ b && b ≤ high then more.drop ((more.take (n - 1)).takeWhile isTail).length else rest
  | _, _ => rest

theorem length_skipBroken_le (a : UInt8) (rest : Bytes) :
    (skipBroken a rest).length ≤ rest.length := by
  unfold skipBroken
  grind

/-- The decoding loop of `decodeLossy`, with what is already read in `front`. -/
def lossyFrom (front : List Char) (s : Bytes) : List Char :=
  match h : decodeChar s with
  | some (c, r) =>
    have := length_lt_of_decodeChar h
    lossyFrom (c :: front) r
  | none =>
    match s with
    | [] => front.reverse
    | a :: rest =>
      have := length_skipBroken_le a rest
      lossyFrom ('\uFFFD' :: front) (skipBroken a rest)
  termination_by s.length

/-- The text of any input: each maximal part of a character that breaks off reads as U+FFFD. -/
def decodeLossy (s : Bytes) : List Char :=
  lossyFrom [] s

end Utf8

/-- The bytes of a text. -/
def textBytes (s : String) : Bytes :=
  Utf8.encode s.toList

end PackageAudit
