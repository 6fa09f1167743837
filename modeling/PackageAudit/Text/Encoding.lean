import PackageAudit.Text.Utf8

/-!
# Text.Encoding — texts in files

A file is text in UTF-8, with or without a byte order mark, or in UTF-16 of the byte order that its
mark says.

* `Utf16.decode` — the text of UTF-16 units;
* `Encoding.decode` — the text of a file, if it is one.
-/

namespace PackageAudit

namespace Utf16

/-- The character of a pair of surrogates. -/
def pair? (high low : Nat) : Option Char :=
  if 0xD800 ≤ high ∧ high < 0xDC00 ∧ 0xDC00 ≤ low ∧ low < 0xE000 then
    Utf8.scalar? (0x10000 + (high - 0xD800) * 1024 + (low - 0xDC00))
  else none

/-- The text of UTF-16 units behind `front`, which is given backwards; surrogates come in pairs. -/
def decodeFrom (front : List Char) : List Nat → Option (List Char)
  | [] => some front.reverse
  | [unit] => (Utf8.scalar? unit).map fun c => (c :: front).reverse
  | unit :: next :: rest =>
    match Utf8.scalar? unit with
    | some c => decodeFrom (c :: front) (next :: rest)
    | none =>
      match pair? unit next with
      | some c => decodeFrom (c :: front) rest
      | none => none

/-- The text of UTF-16 units. -/
def decode (units : List Nat) : Option (List Char) :=
  decodeFrom [] units

/-- The units of bytes, behind `front`, which is given backwards; none if a byte is left over. -/
def unitsFrom (bigEndian : Bool) (front : List Nat) : Bytes → Option (List Nat)
  | [] => some front.reverse
  | [_] => none
  | a :: b :: rest =>
    let unit := if bigEndian then a.toNat * 256 + b.toNat else b.toNat * 256 + a.toNat
    unitsFrom bigEndian (unit :: front) rest

/-- The units of bytes. -/
def units (bigEndian : Bool) (s : Bytes) : Option (List Nat) :=
  unitsFrom bigEndian [] s

end Utf16

namespace Encoding

/-- The text of a file; a byte order mark at its start says how it is encoded. -/
def decode (s : Bytes) : Option (List Char) :=
  match s with
  | 0xEF :: 0xBB :: 0xBF :: rest => Utf8.decode rest
  | 0xFF :: 0xFE :: rest => (Utf16.units false rest).bind Utf16.decode
  | 0xFE :: 0xFF :: rest => (Utf16.units true rest).bind Utf16.decode
  | s => Utf8.decode s

end Encoding

end PackageAudit
