import PackageAudit.Document.Json.Form
import PackageAudit.Document.Record
import PackageAudit.Pattern.Glob
import PackageAudit.Pattern.Regex.Meaning

/-!
# Confidential.Rules — the rules at the end of an index of confidential content

* `PathRules` — file name patterns, for names or for whole paths;
* `ContentRule` — a regular expression for the files that some patterns select;
* `Keywords.expr` — the pattern of any of several words;
* `RuleText.ofText?` — the rules as they are written, a JSON object or an array of its members.
-/

namespace PackageAudit

namespace Confidential

/-! ## Path patterns -/

/-- Patterns that name a file, and patterns that name a path. -/
structure PathRules where
  names : List Pattern.Glob
  paths : List Pattern.Glob

namespace PathRules

/-- Add the pattern of a text; one with a slash is for whole paths. Letters match in any case. -/
def add (r : PathRules) (text : String) : Except String PathRules :=
  match Pattern.Glob.ofText (Case.lower text.toList) with
  | .error _ => .error text
  | .ok glob =>
    .ok (if text.contains '/' then { r with paths := r.paths ++ [glob] }
      else { r with names := r.names ++ [glob] })

/-- The rules of a list of texts, or the first text that is no pattern. -/
def ofTexts (texts : List String) : Except String PathRules :=
  texts.foldlM add ⟨[], []⟩

def isEmpty (r : PathRules) : Bool :=
  r.names.isEmpty && r.paths.isEmpty

/-- Whether a path in lower case is selected, or the file name that it ends with. -/
def selects (r : PathRules) (path : List Char) : Bool :=
  let name := (path.reverse.takeWhile (· != '/')).reverse
  r.names.any (·.accepts name) || r.paths.any (·.accepts path)

end PathRules

/-! ## Content rules -/

/-- A regular expression, and the files it applies to. -/
structure ContentRule where
  paths : PathRules
  regex : Pattern.Regex

/-! ## Keywords -/

namespace Keywords

open Pattern (Expr)

/-- The letters of a word in any case. -/
def wordExpr (word : List Char) : Expr :=
  .seqs (word.map fun c => .set 0 (Case.close (.singleton c.toNat)))

/-- Any of several words, with an edge of a word on both sides; none if all are empty. -/
def expr? (words : List String) : Option Expr :=
  match words.filter (!·.isEmpty) with
  | [] => none
  | words =>
    let edge : Expr := .look (.wordEdge false)
    some (Expr.seqs [edge, .choice (words.map fun w => wordExpr w.toList), edge]).numbered

end Keywords

/-! ## Written form -/

/-- The rules before their patterns are read. -/
structure RuleText where
  pathPatterns : List String
  contentIgnore : List String
  contentRules : List (List String × String)
  keywords : List String

namespace RuleText

/-- No rules. -/
def none : RuleText := ⟨[], [], [], []⟩

/-- A content rule, which needs both of its fields. -/
def contentRule? (v : Value) : Option (List String × String) := do
  match ← v.fields? ["paths", "regex"] with
  | [some paths, some (.string regex)] => pure (← paths.strings?, regex)
  | _ => Option.none

/-- A field that may be left out. -/
def optional {α : Type} (f : Value → Option (List α)) : Option Value → Option (List α)
  | some v => f v
  | Option.none => some []

/-- The rules that a JSON value spells. -/
def ofValue? (v : Value) : Option RuleText := do
  let names := ["path_patterns", "content_ignore_patterns", "content_rules", "keywords"]
  match ← v.fields? names with
  | [paths, ignored, rules, words] =>
    pure ⟨← optional Value.strings? paths, ← optional Value.strings? ignored,
      ← optional (Value.list? contentRule?) rules, ← optional Value.strings? words⟩
  | _ => Option.none

/-- The form of written rules. -/
def form : Json.Form :=
  let rule : Json.Form := .record [("paths", .list .text), ("regex", .text)]
  .record [("path_patterns", .list .text), ("content_ignore_patterns", .list .text),
    ("content_rules", .list rule), ("keywords", .list .text)]

/-- The rules that a text spells; a blank one spells none. Unknown fields do not matter. -/
def ofText? (s : Bytes) : Option RuleText := do
  let text ← Utf8.decode s
  if text.all (Property.whiteSpace.has ·) then pure .none
  else ofValue? (← Json.ofForm? form s)

end RuleText

end Confidential

end PackageAudit
