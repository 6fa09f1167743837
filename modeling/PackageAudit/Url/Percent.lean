import PackageAudit.Text.Utf8

/-!
# Url.Percent — characters by the numbers of their bytes

A character that may not stand in a part of an address is written as its bytes, each behind a
percent sign.

* `Percent.encode` — a text with the characters of a set written so;
* `Percent.decode` — the bytes of a text;
* `PercentSet` — the sets for the parts of an address.
-/

namespace PackageAudit

/-- ASCII characters that may not stand in a part of an address; no others may, either. -/
abbrev PercentSet := Char → Bool

namespace PercentSet

def controls : PercentSet := fun c => c.toNat < 0x20 || c.toNat == 0x7F

def fragment : PercentSet := fun c => controls c || [' ', '"', '<', '>', '\x60'].contains c

def query : PercentSet := fun c => controls c || [' ', '"', '#', '<', '>'].contains c

def specialQuery : PercentSet := fun c => query c || c == '\''

def path : PercentSet := fun c => fragment c || ['#', '?', '\x7b', '\x7d'].contains c

def credentials : PercentSet := fun c =>
  path c || ['/', ':', ';', '=', '@', '[', '\\', ']', '^', '|'].contains c

/-- A name that is put into a path, whatever it holds. -/
def segment : PercentSet := fun c => path c || c == '/' || c == '%'

/-- The same where a backslash means a slash. -/
def specialSegment : PercentSet := fun c => segment c || c == '\\'

end PercentSet

namespace Percent

def digit (n : Nat) : Char :=
  if n < 10 then Char.ofNat (48 + n) else Char.ofNat (55 + n)

/-- A byte by its number. -/
def numbered (b : UInt8) : List Char :=
  ['%', digit (b.toNat / 16), digit (b.toNat % 16)]

def encodeChar (set : PercentSet) (c : Char) : List Char :=
  if c.toNat < 0x80 ∧ ¬ set c then [c] else (Utf8.encodeChar c).flatMap numbered

/-- A text with the characters of a set by the numbers of their bytes. -/
def encode (set : PercentSet) (s : List Char) : List Char :=
  s.flatMap (encodeChar set)

/-- The value of a digit of base sixteen. -/
def digitValue? (c : Char) : Option Nat :=
  if c.isDigit then some (c.toNat - 48)
  else if 'a' ≤ c.toLower ∧ c.toLower ≤ 'f' then some (c.toLower.toNat - 87)
  else none

/-- The byte that two digits stand for. -/
def byte? (a b : Char) : Option UInt8 := do
  pure (.ofNat (16 * (← digitValue? a) + (← digitValue? b)))

/-- The bytes of a text; a percent sign without two digits stands for itself. -/
def decode : List Char → Bytes
  | '%' :: a :: b :: rest =>
    match byte? a b with
    | some byte => byte :: decode rest
    | none => Utf8.encodeChar '%' ++ decode (a :: b :: rest)
  | c :: rest => Utf8.encodeChar c ++ decode rest
  | [] => []

end Percent

end PackageAudit
