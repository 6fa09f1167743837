/-!
# Binary64 — IEEE 754 double-precision values

The finite non-negative doubles form an increasing grid; a finite value is kept as its sign and its
index on that grid, so neighbours differ by one.

* `Binary64.finite`, `Binary64.infinite`, `Binary64.nan` — the values;
* `Binary64.significand`, `Binary64.scale` — a grid point is `significand * 2 ^ scale`;
* `Binary64.same` — IEEE comparison for equality;
* `Binary64.ofRatio` — the grid point nearest to a rational number, a tie going to the even index.
-/

namespace PackageAudit

/-- The number of grid points between two powers of two that follow each other: `2 ^ 52`. -/
abbrev Binary64.binade : Nat :=
  0x10000000000000

/-- One more than the index of the greatest finite double. -/
abbrev Binary64.overflow : Nat :=
  2047 * Binary64.binade

/-- A double; `index` counts the finite doubles of one sign from zero up. -/
inductive Binary64 where
  | finite (negative : Bool) (index : Fin Binary64.overflow)
  | infinite (negative : Bool)
  | nan
  deriving DecidableEq

namespace Binary64

/-! ## The grid -/

/-- The integer that the power of two at `index` is multiplied by. -/
def significand (index : Nat) : Nat :=
  if index < binade then index else index % binade + binade

/-- The exponent of the power of two at `index`. -/
def scale (index : Nat) : Int :=
  (index / binade - 1 : Nat) - 1074

def isFinite : Binary64 → Bool
  | finite _ _ => true
  | _ => false

def isNaN : Binary64 → Bool
  | nan => true
  | _ => false

/-- Equality of values: a NaN equals nothing, and the two zeros are equal. -/
def same : Binary64 → Binary64 → Bool
  | finite a i, finite b j => i == j && (a == b || i.val == 0)
  | infinite a, infinite b => a == b
  | _, _ => false

/-! ## Rounding -/

/-- `num / den` to the nearest integer, a half going to the even one. -/
def roundHalfEven (num den : Nat) : Nat :=
  let quotient := num / den
  let twice := 2 * (num % den)
  if twice < den then quotient
  else if den < twice then quotient + 1
  else if quotient % 2 = 0 then quotient
  else quotient + 1

/-- The value at `index`, or infinity past the end of the grid. -/
def ofIndex (negative : Bool) (index : Nat) : Binary64 :=
  if h : index < overflow then finite negative ⟨index, h⟩ else infinite negative

/-- The exponent of the grid around the positive number `num / den`. -/
def scaleOfRatio (num den : Nat) : Int :=
  let guess : Int := (num.log2 : Int) - den.log2 - 52
  let fits :=
    if guess < 0 then den * binade ≤ num * Nat.pow 2 (-guess).toNat
    else den * Nat.pow 2 guess.toNat * binade ≤ num
  max (if fits then guess else guess - 1) (-1074)

/-- The grid point nearest to `num / den`, with the given sign. -/
def ofRatio (negative : Bool) (num den : Nat) : Binary64 :=
  if num = 0 then ofIndex negative 0
  else
    let q := scaleOfRatio num den
    let rounded :=
      if q < 0 then roundHalfEven (num * Nat.pow 2 (-q).toNat) den
      else roundHalfEven num (den * Nat.pow 2 q.toNat)
    ofIndex negative ((q + 1074).toNat * binade + rounded)

/-- The double nearest to an integer. -/
def ofInt (n : Int) : Binary64 :=
  ofRatio (decide (n < 0)) n.natAbs 1

end Binary64

end PackageAudit
