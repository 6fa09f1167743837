import PackageAudit.Document.Value

/-!
# Document.Record — values of a known form

* `Value.fields?` — the values of named fields of an object, or of an array in the order of the
  names;
* `Value.list?`, `Value.strings?` — arrays of values of one form.
-/

namespace PackageAudit

namespace Value

/-- An array of values of one form. -/
def list? {α : Type} (f : Value → Option α) : Value → Option (List α)
  | array items => items.mapM f
  | _ => none

def string? : Value → Option String
  | string s => some s
  | _ => none

/-- An array of strings. -/
def strings? : Value → Option (List String) :=
  list? string?

/--
The values of named fields, of an object that has none of them twice, or of an array in the order of
the names. Fields that are not there have no value; other members do not matter.
-/
def fields? (names : List String) : Value → Option (List (Option Value))
  | object members replaced =>
    if replaced.any fun member => names.contains member.1 then none
    else some (names.map fun name => members.lookup name)
  | array items =>
    if names.length < items.length then none
    else some ((List.range names.length).map fun (i : Nat) => items[i]?)
  | _ => none

end Value

end PackageAudit
