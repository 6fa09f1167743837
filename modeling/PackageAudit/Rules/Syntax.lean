import PackageAudit.Audit.Check
import PackageAudit.Document.Yaml.Reader

/-!
# Rules.Syntax — documents that can be read

* `PVP-020-1` — files named as JSON are strict JSON;
* `PVP-021-1` — companion files are restricted YAML.

Hidden files are no exception, since the platform reads them too.
-/

namespace PackageAudit

/-- The greatest length of a file that is read as a document. -/
def maxDocumentLength : Nat := 16 * 1024 * 1024

namespace SyntaxRules

def jsonRule : CheckId := ⟨"PVP-020-1"⟩
def companionRule : CheckId := ⟨"PVP-021-1"⟩

/-- The rule that a file is under. -/
def rule? (e : Entry) : Option CheckId :=
  if e.isCompanion then some companionRule
  else if e.extension = "json" then some jsonRule
  else none

/-- What keeps a content from being a document. -/
def problem? (rule : CheckId) (content : Bytes) : Option String :=
  if rule = jsonRule then
    match Json.parse content with
    | .ok _ => none
    | .error e => some e.message
  else
    match Yaml.parse content with
    | .ok _ => none
    | .error e => some e.message

/-- Look at a file under a rule. -/
def inspect (source : Source) (path : String) (rule : CheckId) : Check Unit := do
  let size ← Check.ofFile (source.size path)
  if maxDocumentLength < size then
    .finding rule s!"file too large: {path} ({size} bytes)"
  else
    let content ← Check.ofFile (source.read path)
    match problem? rule content with
    | some problem => .finding rule s!"{path}: {problem}"
    | none => pure ()

/-- Look at a file. -/
def visit (s : Subject) (e : Entry) : Check Unit :=
  match rule? e with
  | some rule => inspect s.source e.path rule
  | none => pure ()

def checker : Checker where
  name := "syntax"
  checks := [jsonRule, companionRule]
  State := Unit
  build _ := pure (some ())
  passes _ := 1
  visit s e _ _ := visit s e
  finish _ := pure

end SyntaxRules

end PackageAudit
