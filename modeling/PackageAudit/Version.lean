import PackageAudit.Text.Digits
import PackageAudit.Text.Quoted

/-!
# Version — semantic versions

* `Version` — three numbers, a pre-release identifier and build metadata;
* `Version.parse` — the version that a text spells, or the part at which it goes wrong;
* `Version.text` — the spelling of a version.
-/

namespace PackageAudit

/-- A version; `pre` and `build` are empty when the version has none. -/
structure Version where
  major : Nat
  minor : Nat
  patch : Nat
  pre : String
  build : String
  deriving DecidableEq

namespace Version

/-- The parts of a version. -/
inductive Part where
  | major
  | minor
  | patch
  | pre
  | build
  deriving DecidableEq

def Part.name : Part → String
  | major => "major version number"
  | minor => "minor version number"
  | patch => "patch version number"
  | pre => "pre-release identifier"
  | build => "build metadata"

/-- Why a text spells no version. -/
inductive Fault where
  | empty
  | unexpectedEnd (part : Part)
  | unexpectedChar (part : Part) (c : Char)
  | unexpectedCharAfter (part : Part) (c : Char)
  | leadingZero (part : Part)
  | tooLarge (part : Part)
  | emptySegment (part : Part)
  deriving DecidableEq

def Fault.message : Fault → String
  | empty => "empty string, expected a semver version"
  | unexpectedEnd part => "unexpected end of input while parsing " ++ part.name
  | unexpectedChar part c =>
    "unexpected character " ++ Quoted.char c ++ " while parsing " ++ part.name
  | unexpectedCharAfter part c => "unexpected character " ++ Quoted.char c ++ " after " ++ part.name
  | leadingZero part => "invalid leading zero in " ++ part.name
  | tooLarge part => "value of " ++ part.name ++ " exceeds u64::MAX"
  | emptySegment part => "empty identifier segment in " ++ part.name

/-! ## Numbers -/

/-- The number at the head, of 64 bits and without zeros in front, and what follows. -/
def readNumber (part : Part) (cs : List Char) : Except Fault (Nat × List Char) :=
  let digits := cs.takeWhile Char.isDigit
  match digits, cs with
  | [], [] => .error (.unexpectedEnd part)
  | [], c :: _ => .error (.unexpectedChar part c)
  | '0' :: _ :: _, _ => .error (.leadingZero part)
  | digits, cs =>
    if 0x10000000000000000 ≤ Digits.value digits then .error (.tooLarge part)
    else .ok (Digits.value digits, cs.dropWhile Char.isDigit)

/-- What follows the dot behind a number. -/
def afterDot (part : Part) : List Char → Except Fault (List Char)
  | '.' :: rest => .ok rest
  | c :: _ => .error (.unexpectedCharAfter part c)
  | [] => .error (.unexpectedEnd part)

/-! ## Identifiers -/

def isIdentifierChar (c : Char) : Bool :=
  c.isAlphanum || c == '-'

/-- A segment of an identifier is not empty; a number in a pre-release has no zeros in front. -/
def checkSegment (part : Part) (segment : List Char) : Except Fault Unit :=
  if segment.isEmpty then .error (.emptySegment part)
  else if part = .pre ∧ segment.all Char.isDigit ∧ 1 < segment.length ∧
      segment.head? = some '0' then
    .error (.leadingZero part)
  else .ok ()

/-- The segments between the dots of the identifier at the head, and what follows it. -/
def readIdentifier (part : Part) (cs : List Char) : Except Fault (String × List Char) := do
  let isPart (c : Char) := isIdentifierChar c || c == '.'
  let identifier := cs.takeWhile isPart
  (identifier.splitOn '.').forM (checkSegment part)
  pure (.ofList identifier, cs.dropWhile isPart)

/-- The identifier behind a mark, if the mark stands at the head; else nothing is read. -/
def readMarked (mark : Char) (part before : Part) (cs : List Char) :
    Except Fault (String × List Char × Part) :=
  match cs with
  | c :: rest =>
    if c = mark then
      (readIdentifier part rest).map fun (identifier, rest) => (identifier, rest, part)
    else .ok ("", cs, before)
  | [] => .ok ("", [], before)

/-! ## Versions -/

/-- The version that a text spells. -/
def parse (s : String) : Except Fault Version := do
  if s.isEmpty then throw .empty
  let (major, rest) ← readNumber .major s.toList
  let rest ← afterDot .major rest
  let (minor, rest) ← readNumber .minor rest
  let rest ← afterDot .minor rest
  let (patch, rest) ← readNumber .patch rest
  let (pre, rest, part) ← readMarked '-' .pre .patch rest
  let (build, rest, part) ← readMarked '+' .build part rest
  match rest with
  | [] => pure ⟨major, minor, patch, pre, build⟩
  | c :: _ => throw (.unexpectedCharAfter part c)

def text (v : Version) : String :=
  toString v.major ++ "." ++ toString v.minor ++ "." ++ toString v.patch ++
    (if v.pre.isEmpty then "" else "-" ++ v.pre) ++ if v.build.isEmpty then "" else "+" ++ v.build

end Version

end PackageAudit
