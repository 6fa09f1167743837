/-!
# Text.Sorted — texts in ascending order, each once

* `Sorted.distinct` — an ascending list without its repetitions;
* `Sorted.ofList` — the texts of any list.
-/

namespace PackageAudit

namespace Sorted

/-- The elements of an ascending list, each once. -/
def distinct : List String → List String
  | [] => []
  | [a] => [a]
  | a :: b :: rest => if a = b then distinct (b :: rest) else a :: distinct (b :: rest)

/-- The elements of a list in ascending order, each once. -/
def ofList (texts : List String) : List String :=
  distinct (texts.mergeSort fun a b => decide (a ≤ b))

end Sorted

end PackageAudit
