/-!
# Unicode.CodePoints — sets of code points

A set is a list of closed ranges, sorted and apart from each other.

* `CodePoints.mem` — membership;
* `CodePoints.ofRanges` — any list of ranges, brought into order;
* `CodePoints.union`, `CodePoints.complement`, `CodePoints.inter`, `CodePoints.diff` — the algebra;
* `CodePoints.read` — the compact notation in which the tables of this folder are written.
-/

namespace PackageAudit

/-- A set of code points as sorted closed ranges that neither overlap nor touch. -/
structure CodePoints where
  ranges : List (Nat × Nat)
  deriving DecidableEq

namespace CodePoints

/-- The greatest code point. -/
def last : Nat := 0x10FFFF

/-! ## Membership -/

/-- Search in sorted ranges. -/
def memRanges : List (Nat × Nat) → Nat → Bool
  | [], _ => false
  | (low, high) :: rest, n => if n < low then false else n ≤ high || memRanges rest n

def mem (s : CodePoints) (n : Nat) : Bool :=
  memRanges s.ranges n

/-- Whether a set holds a character. -/
def has (s : CodePoints) (c : Char) : Bool :=
  s.mem c.toNat

/-! ## Building -/

/-- Join the next range, none starting below the last one, to those already joined. -/
def joinNext (joined : List (Nat × Nat)) (next : Nat × Nat) : List (Nat × Nat) :=
  match joined with
  | (low, high) :: rest =>
    if next.1 ≤ high + 1 then (low, max high next.2) :: rest else next :: joined
  | [] => [next]

/-- The set of all code points in any of the ranges. -/
def ofRanges (ranges : List (Nat × Nat)) : CodePoints :=
  let sorted := (ranges.filter fun r => r.1 ≤ r.2).mergeSort fun a b => a.1 ≤ b.1
  ⟨(sorted.foldl joinNext []).reverse⟩

def empty : CodePoints := ⟨[]⟩

def all : CodePoints := ⟨[(0, last)]⟩

/-- One code point. -/
def singleton (n : Nat) : CodePoints := ⟨[(n, n)]⟩

/-! ## Algebra -/

def union (s t : CodePoints) : CodePoints :=
  ofRanges (s.ranges ++ t.ranges)

/-- The union of several sets. -/
def unions (sets : List CodePoints) : CodePoints :=
  ofRanges (sets.flatMap ranges)

/-- The gaps of sorted ranges from `start` up, with those already found in `found`. -/
def gaps (found : List (Nat × Nat)) (start : Nat) : List (Nat × Nat) → List (Nat × Nat)
  | [] => (if start ≤ last then (start, last) :: found else found).reverse
  | (low, high) :: rest =>
    gaps (if start < low then (start, low - 1) :: found else found) (high + 1) rest

def complement (s : CodePoints) : CodePoints :=
  ⟨gaps [] 0 s.ranges⟩

def inter (s t : CodePoints) : CodePoints :=
  (s.complement.union t.complement).complement

def diff (s t : CodePoints) : CodePoints :=
  s.inter t.complement

/-- The code points in exactly one of two sets. -/
def symmDiff (s t : CodePoints) : CodePoints :=
  (s.union t).diff (s.inter t)

/-! ## Compact notation -/

/-- The value of a digit of base 36. -/
def digitValue (c : Char) : Nat :=
  if c.toNat ≤ '9'.toNat then c.toNat - '0'.toNat else c.toNat - 'a'.toNat + 10

/-- One more character of a text of numbers: those read, and the one that may go on. -/
def readDigit (state : List Nat × Option Nat) (c : Char) : List Nat × Option Nat :=
  if c == ' ' || c == '\n' then (state.2.toList ++ state.1, none)
  else (state.1, some (state.2.getD 0 * 36 + digitValue c))

/-- The numbers of a text in base 36, set apart by blanks. -/
def readNumbers (text : List Char) : List Nat :=
  let (done, pending) := text.foldl readDigit ([], none)
  (pending.toList ++ done).reverse

/-- Ranges from alternating gaps and extents, each counted from the end of the range before. -/
def ofSteps (found : List (Nat × Nat)) (start : Nat) : List Nat → List (Nat × Nat)
  | gap :: extent :: rest =>
    ofSteps ((start + gap, start + gap + extent) :: found) (start + gap + extent + 1) rest
  | _ => found.reverse

/--
A set in compact notation: in base 36, by turns how many code points are left out and how many
follow after the next one.
-/
def read (text : String) : CodePoints :=
  ⟨ofSteps [] 0 (readNumbers text.toList)⟩

end CodePoints

end PackageAudit
