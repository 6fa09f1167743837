import PackageAudit.Binary64.Decimal

/-!
# Binary64.Layout — the text of a double

* `Binary64.Layout` — the choices a number format leaves open;
* `Binary64.plain` — the choices of this library's documents and reports;
* `Binary64.text` — a double under a format.
-/

namespace PackageAudit

namespace Binary64

/-- How a number is laid out: positional between two powers of ten, with an exponent outside. -/
structure Layout where
  /-- The least exponent of a leading digit that is written positionally. -/
  leastPositional : Int
  /-- The first exponent of a leading digit that is no longer written positionally. -/
  firstScientific : Int
  /-- What ends a positional integer. -/
  integerMark : String
  infinity : String
  notANumber : String

/--
Positional from 0.0001 up to below 10^16, always with a fraction; otherwise digit, point, digits
and a bare exponent.
-/
def plain : Layout where
  leastPositional := -4
  firstScientific := 16
  integerMark := ".0"
  infinity := "inf"
  notANumber := "NaN"

/-- Digits placed around the point, `exponent` being that of the last digit. -/
def positional (format : Layout) (digits : List Char) (exponent : Int) : List Char :=
  if 0 ≤ exponent then
    digits ++ List.replicate exponent.toNat '0' ++ format.integerMark.toList
  else
    let places := (-exponent).toNat
    let padded := List.replicate (places + 1 - digits.length) '0' ++ digits
    padded.take (padded.length - places) ++ '.' :: padded.drop (padded.length - places)

/-- One digit before the point, the rest behind it; `leading` is the first digit's exponent. -/
def scientific (digits : List Char) (leading : Int) : List Char :=
  let tail := (toString leading).toList
  match digits with
  | d :: [] => d :: 'e' :: tail
  | d :: ds => d :: '.' :: ds ++ 'e' :: tail
  | [] => tail

/-- The text of a decimal numeral. -/
def decimalText (format : Layout) (d : Decimal) : List Char :=
  let digits := (toString d.digits).toList
  let leading : Int := d.exponent + (digits.length - 1 : Nat)
  if d.digits = 0 ∨ (format.leastPositional ≤ leading ∧ leading < format.firstScientific) then
    positional format digits d.exponent
  else scientific digits leading

/-- The text of a double: the fewest digits that read back, laid out by the format. -/
def text (format : Layout) : Binary64 → List Char
  | nan => format.notANumber.toList
  | infinite negative => (if negative then ['-'] else []) ++ format.infinity.toList
  | finite negative index =>
    (if negative then ['-'] else []) ++
      decimalText format (if index.val = 0 then ⟨0, 0⟩ else shortest index)

end Binary64

end PackageAudit
