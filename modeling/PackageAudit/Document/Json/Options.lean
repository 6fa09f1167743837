import PackageAudit.Document.Error
import PackageAudit.Document.Reading
import PackageAudit.Text.Utf8

/-!
# Document.Json.Options — the rules of the JSON reader, and how it stops

* `JsonOptions` — the rules that can be relaxed one by one;
* `JsonOptions.strict`, `JsonOptions.legacy` — all enforced, all relaxed;
* `Json.Stop` — a fault, and the part of the input at which it was found.
-/

namespace PackageAudit

/-- Rules that may be relaxed; each flag allows what its name says. -/
structure JsonOptions where
  leadingZeros : Bool
  malformedDecimals : Bool
  controlCharacters : Bool
  invalidUnicode : Bool
  duplicateKeys : Bool
  byteOrderMark : Bool
  deriving DecidableEq

namespace JsonOptions

/-- Every rule holds. -/
def strict : JsonOptions := ⟨false, false, false, false, false, false⟩

/-- No rule holds: broken characters read as U+FFFD, and the last of equal keys counts. -/
def legacy : JsonOptions := ⟨true, true, true, true, true, true⟩

end JsonOptions

namespace Json

/-- Arrays and objects may lie this deep in each other. -/
def maxDepth : Nat := 512

/-- A fault and the rest of the input from the place of the fault on. -/
structure Stop where
  fault : JsonFault
  path : List Key
  place : Bytes

/-- Read without a path: the text of a string or of a number has no parts of its own. -/
abbrev Leaf (α : Type) := Except (JsonFault × Bytes) α

/-- A byte as messages name it. -/
def describe (b : UInt8) : String :=
  if 0x20 < b && b < 0x7F then "character '" ++ String.singleton (Char.ofUInt8 b) ++ "'"
  else "byte 0x" ++ hexNumber 2 b.toNat

/-- The fault of finding something else than expected at `place`. -/
def unexpected (expected : String) (place : Bytes) : JsonFault :=
  match place with
  | [] => .unexpectedEnd
  | b :: _ => .unexpected (describe b) expected

/-- What follows a given ASCII character. -/
def after? (c : Char) : Bytes → Option Bytes
  | b :: rest => if b.toNat = c.toNat then some rest else none
  | [] => none

theorem length_of_after? {c : Char} {s r : Bytes} (h : after? c s = some r) :
    s.length = r.length + 1 := by
  cases s <;> simp_all [after?]

theorem lt_of_after? {c : Char} {s r : Bytes} (h : after? c s = some r) : r.length < s.length :=
  length_of_after? h ▸ Nat.lt_succ_self _

/-- The blanks between the tokens of a JSON text. -/
def isBlank (b : UInt8) : Bool :=
  b == 0x20 || b == 0x09 || b == 0x0A || b == 0x0D

def skipBlanks (s : Bytes) : Bytes :=
  s.dropWhile isBlank

theorem length_skipBlanks_le (s : Bytes) : (skipBlanks s).length ≤ s.length :=
  (List.dropWhile_sublist _).length_le

/-- The part of `s` before `rest`, as text. -/
def excerpt (s rest : Bytes) : String :=
  .ofList (Utf8.decodeLossy (s.take (s.length - rest.length)))

end Json

end PackageAudit
