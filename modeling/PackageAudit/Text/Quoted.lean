import PackageAudit.Unicode.Property

/-!
# Text.Quoted — text shown in messages

Messages show text of a package between quotes, so that nothing in it can be mistaken for the
message itself: quotes and backslashes get a backslash, and every character that is not plainly
visible is written by its number.

* `Quoted.text` — a text between double quotes;
* `Quoted.char` — a character between single quotes.
-/

namespace PackageAudit

namespace Quoted

/-- Characters that are shown as they are: visible ones that do not attach to the one before. -/
def isPlain (c : Char) : Bool :=
  if c.toNat < 0x80 then 0x20 ≤ c.toNat && c.toNat < 0x7F
  else Property.shown.has c && !Property.graphemeExtend.has c

/-- A character by its number. -/
def numbered (c : Char) : List Char :=
  ['\\', 'u', '\x7b'] ++ Nat.toDigits 16 c.toNat ++ ['\x7d']

/-- One character between quotes of the kind `quote`. -/
def escape (quote : Char) (c : Char) : List Char :=
  match c with
  | '\x00' => ['\\', '0']
  | '\t' => ['\\', 't']
  | '\r' => ['\\', 'r']
  | '\n' => ['\\', 'n']
  | '\\' => ['\\', '\\']
  | c => if c = quote then ['\\', c] else if isPlain c then [c] else numbered c

/-- A text between double quotes. -/
def text (s : String) : String :=
  .ofList ('"' :: (s.toList.flatMap (escape '"') ++ ['"']))

/-- A character between single quotes. -/
def char (c : Char) : String :=
  .ofList ('\'' :: (escape '\'' c ++ ['\'']))

end Quoted

end PackageAudit
