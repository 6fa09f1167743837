import PackageAudit.Document.Printer

/-!
# Document.Path — where a value stands in its document

* `Key` — one step from a value to a part of it;
* `Key.text` — `.name`, `."any text"` or `[index]`;
* `formatPath` — the steps from the root, in order; the root itself is `.`.
-/

namespace PackageAudit

/-- One step down: to a member of an object or to an element of an array. -/
inductive Key where
  | member (name : String)
  | index (i : Nat)
  deriving DecidableEq

namespace Key

/-- Names that a path shows without quotes: ASCII letters, digits and `_`, no digit first. -/
def isIdentifier (cs : List Char) : Bool :=
  match cs with
  | [] => false
  | c :: rest => (c.isAlpha || c == '_') && rest.all fun d => d.isAlphanum || d == '_'

/-- The text of one step. -/
def text : Key → List Char
  | index i => '[' :: ((toString i).toList ++ [']'])
  | member name =>
    '.' :: if isIdentifier name.toList then name.toList else Json.quoteChars name.toList

end Key

/-- The steps from the root to a value as one text. -/
def formatPath (keys : List Key) : String :=
  if keys.isEmpty then "." else .ofList (keys.flatMap Key.text)

end PackageAudit
