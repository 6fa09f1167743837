import PackageAudit.Text.Digits

/-!
# Platform — releases of the platform that packages are made for

* `Platform` — a release, ordered by year and then by minor number;
* `Platform.parse` — the release that a text such as `2021.2` names;
* `Target` — the oldest release a package declares to support.
-/

namespace PackageAudit

/-- A release of the platform. -/
structure Platform where
  year : Nat
  minor : Nat
  deriving DecidableEq

namespace Platform

/-- Why a text names no release. -/
inductive Fault where
  | noMinor
  | year
  | minorDigits
  | minorRange
  deriving DecidableEq

def Fault.message : Fault → String
  | noMinor => "expected YEAR.MINOR"
  | year => "year must be four digits"
  | minorDigits => "minor version must be numeric"
  | minorRange => "minor version out of range"

/-- Four digits of a year, a point, and the digits of a number of sixteen bits. -/
def parse (s : String) : Except Fault Platform :=
  let cs := s.toList
  match cs.dropWhile (· != '.') with
  | [] => .error .noMinor
  | _ :: minor =>
    let year := cs.takeWhile (· != '.')
    if ¬ (year.length = 4 ∧ year.all Char.isDigit) then .error .year
    else if minor.isEmpty ∨ ¬ minor.all Char.isDigit then .error .minorDigits
    else if 0x10000 ≤ Digits.value minor then .error .minorRange
    else .ok ⟨Digits.value year, Digits.value minor⟩

def text (p : Platform) : String :=
  toString p.year ++ "." ++ toString p.minor

/-- Whether `p` is `q` or a later release. -/
def atLeast (p q : Platform) : Bool :=
  q.year < p.year || (p.year == q.year && q.minor ≤ p.minor)

/-- The release from which contents of plugin directories need no companions. -/
def companionsOptional : Platform := ⟨2021, 2⟩

end Platform

/-- What a package declares about its platform; without a minimum any release may be meant. -/
structure Target where
  minimum : Option Platform

/-- Whether every release that the package is made for is `p` or later. -/
def Target.reaches (t : Target) (p : Platform) : Bool :=
  t.minimum.any (·.atLeast p)

end PackageAudit
