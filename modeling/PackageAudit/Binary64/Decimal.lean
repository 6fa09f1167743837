import PackageAudit.Binary64.Basic

/-!
# Binary64.Decimal — doubles and decimal numerals

* `Binary64.ofDecimal` — the double nearest to `digits * 10 ^ exponent`;
* `Binary64.shortest` — the numeral with the fewest digits that reads back as a given double, and
  among those the one nearest to it.
-/

namespace PackageAudit

/-- The number `digits * 10 ^ exponent`. -/
structure Decimal where
  digits : Nat
  exponent : Int
  deriving DecidableEq

namespace Decimal

/-- The same number without trailing zeros among its digits; `fuel` bounds how many are dropped. -/
def trimFor : Nat → Decimal → Decimal
  | 0, d => d
  | fuel + 1, d =>
    if d.digits ≠ 0 ∧ d.digits % 10 = 0 then trimFor fuel ⟨d.digits / 10, d.exponent + 1⟩ else d

/-- The same number without trailing zeros among its digits. -/
def trim (d : Decimal) : Decimal :=
  trimFor d.digits.log2 d

end Decimal

namespace Binary64

/-! ## Reading -/

/--
The double nearest to `digits * 10 ^ exponent`. Numbers far outside the grid are settled by their
order of magnitude, so the exponent may be of any size.
-/
def ofDecimal (negative : Bool) (d : Decimal) : Binary64 :=
  if d.digits = 0 then ofIndex negative 0
  else if 400 < (d.digits.log2 * 3 / 10 : Nat) + d.exponent then infinite negative
  else if (d.digits.log2 / 3 + 1 : Nat) + d.exponent < -400 then ofIndex negative 0
  else if d.exponent < 0 then ofRatio negative d.digits (Nat.pow 10 (-d.exponent).toNat)
  else ofRatio negative (d.digits * Nat.pow 10 d.exponent.toNat) 1

/-! ## Writing -/

/-- The grid point at `index` as a fraction. -/
def fraction (index : Nat) : Nat × Nat :=
  let q := scale index
  if q < 0 then (significand index, Nat.pow 2 (-q).toNat)
  else (significand index * Nat.pow 2 q.toNat, 1)

/--
`num / den` counted in units of `10 ^ unit`: the whole units, and the rest of a unit as a fraction.
-/
def inUnits (num den : Nat) (unit : Int) : Nat × Nat × Nat :=
  let (num, den) :=
    if unit < 0 then (num * Nat.pow 10 (-unit).toNat, den) else (num, den * Nat.pow 10 unit.toNat)
  (num / den, num % den, den)

/-- The exponent of the first digit of the positive number `num / den`. -/
def leadingExponent (num den : Nat) : Int :=
  let guess := ((num.log2 : Int) - den.log2 - 1) * 30103 / 100000
  let reaches (e : Int) : Bool := (inUnits num den e).1 != 0
  if reaches (guess + 2) then guess + 2
  else if reaches (guess + 1) then guess + 1
  else guess

/--
The numeral of the given unit nearest to the grid point, if one of its two neighbours reads back;
halfway between two that do, the greater one.
-/
def numeral? (index : Fin overflow) (unit : Int) : Option Decimal :=
  let (num, den) := fraction index
  let (below, rest, den) := inUnits num den unit
  let readsBack (digits : Nat) : Bool := ofDecimal false ⟨digits, unit⟩ == finite false index
  let above := below + 1
  match readsBack below, readsBack above with
  | true, true => some ⟨if 2 * rest < den then below else above, unit⟩
  | true, false => some ⟨below, unit⟩
  | false, true => some ⟨above, unit⟩
  | false, false => none

/-- Every digit of the grid point. -/
def exactNumeral (index : Nat) : Decimal :=
  let q := scale index
  if q < 0 then ⟨significand index * Nat.pow 5 (-q).toNat, q⟩
  else ⟨significand index * Nat.pow 2 q.toNat, 0⟩

/--
The numeral with the fewest digits that reads back as the positive grid point, the nearest among
several. Seventeen digits always suffice; the exact numeral stands behind them.
-/
def shortest (index : Fin overflow) : Decimal :=
  let (num, den) := fraction index
  let first := leadingExponent num den
  let found := (List.range 17).findSome? fun (n : Nat) => numeral? index (first - n)
  (found.getD (exactNumeral index)).trim

end Binary64

end PackageAudit
