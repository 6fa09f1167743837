/-!
# CheckId — names of rules

* `CheckId` — a name such as `PVP-101-1`: area, number of the rule, version of its meaning;
* `CheckId.isWellFormed` — whether a name has that form.
-/

namespace PackageAudit

/-- The name of a rule. -/
structure CheckId where
  text : String
  deriving DecidableEq

/-- Capital letters, three digits, and a positive number without zeros in front. -/
def CheckId.isWellFormed (id : CheckId) : Bool :=
  match id.text.toList.splitOn '-' with
  | [area, number, version] =>
    !area.isEmpty && area.all Char.isUpper &&
      number.length == 3 && number.all Char.isDigit &&
      !version.isEmpty && version.all Char.isDigit && version.head? != some '0'
  | _ => false

end PackageAudit
