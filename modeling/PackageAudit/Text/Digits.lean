/-!
# Text.Digits — numbers in decimal digits

* `Digits.value` — the number that a run of digits stands for.
-/

namespace PackageAudit

/-- The number that a run of decimal digits stands for; zero for none. -/
def Digits.value (digits : List Char) : Nat :=
  digits.foldl (fun n c => 10 * n + (c.toNat - '0'.toNat)) 0

end PackageAudit
