import PackageAudit.Confidential.Index
import PackageAudit.Digest.Filtered
import PackageAudit.Rules.Baseline
import PackageAudit.Text.Encoding
import PackageAudit.Unicode.Case

/-!
# Rules.Confidential — content that must not be shipped

Files are compared with a published index of confidential content.

* `PVP-110-1` — the path of a file is not confidential;
* `PVP-111-1` — no file has a confidential content, line endings aside;
* `PVP-112-1` — the text of a file matches no rule for such files, and holds no keyword.
-/

namespace PackageAudit

namespace ConfidentialRules

open Confidential (Index ContentRule)

def pathRule : CheckId := ⟨"PVP-110-1"⟩
def hashRule : CheckId := ⟨"PVP-111-1"⟩
def contentRule : CheckId := ⟨"PVP-112-1"⟩

/-- The name under which the index is noted. -/
def indexName : String := "confidential-index"

def invalidIndexReason : String := "invalid baseline"

/-- The greatest length of a file that is hashed. -/
def maxHashedLength : Nat := 512 * 1024 * 1024

/-- The greatest length of a file that is read as text. -/
def maxTextLength : Nat := 16 * 1024 * 1024

/-- Get the index, without which nothing can be said. -/
def build (s : Subject) : Check (Option Index) :=
  match s.baselines.index with
  | .error _ => do
    .leaveOutRest unreachedReason
    pure none
  | .ok content => do
    .relyOn indexName content
    match Index.parse content with
    | .ok index => pure (some index)
    | .error _ =>
      .leaveOutRest invalidIndexReason
      pure none

/-! ## Paths -/

/-- The path of an entry as patterns see it. -/
def lowerPath (e : Entry) : List Char := e.lower.toList

/-- Compare the path with the patterns. -/
def checkPath (index : Index) (e : Entry) : Check Unit :=
  if index.pathPatterns.selects (lowerPath e) then
    .finding pathRule s!"confidential path: {e.path}"
  else pure ()

/-! ## Contents -/

/-- The digest of a whole file, which is read unless the digest is known already. -/
def digestOf (source : Source) (path : String) : Option FilteredDigest → Check FilteredDigest
  | some digest => pure digest
  | none => do
    let stream ← Check.ofFile (source.openFile path)
    let content ← Check.orStop (fun message => .precondition s!"failed to read {path}: {message}")
      stream.readAll
    pure (.of content)

/--
Compare a file with entries, one after the other, until one matches. Entries that are longer than
the file are passed over; the first other one makes it necessary to read the file.
-/
def search (source : Source) (path : String) (size : Nat) :
    Option FilteredDigest → List Confidential.Secret → Check Unit
  | _, [] => pure ()
  | known, s :: rest =>
    if size < s.length.toNat then search source path size known rest
    else do
      let digest ← digestOf source path known
      if digest.length = s.length.toNat ∧ digest.hash = s.full then
        .finding hashRule s!"confidential content hash match: {path}"
      else search source path size (some digest) rest

/-- Compare the content with those entries of the index that share the digest of its start. -/
def checkHash (index : Index) (source : Source) (path : String) (size : Nat) : Check Unit :=
  if index.size = 0 ∨ maxHashedLength < size then pure ()
  else do
    let start ← Check.ofFile (source.readStart path FilteredDigest.startLength)
    search source path size none (index.candidates (FilteredDigest.ofStart start).hash)

/-! ## Texts -/

/-- The findings in a text. -/
def textProblems (index : Index) (rules : List ContentRule) (path : String) (text : List Char) :
    List String :=
  (rules.filter fun rule => rule.regex.expr.isMatch text).map
      (fun rule =>
        "confidential content matching " ++ Quoted.text rule.regex.text ++ ": " ++ path) ++
    ((index.keywords.bind (·.find? text)).toList.map fun word =>
      "confidential keyword " ++ Quoted.text (.ofList (Case.lower word)) ++ ": " ++ path)

/-- The text of a file, unless it is too long or no text. -/
def readText (source : Source) (path : String) (size : Nat) : Check (Option (List Char)) :=
  if maxTextLength < size then pure none
  else do
    let content ← Check.ofFile (source.read path)
    pure (Encoding.decode content)

/-- Compare the text with the rules for the file, if there are any. -/
def checkContent (index : Index) (source : Source) (e : Entry) (size : Nat) : Check Unit := do
  let path := lowerPath e
  let rules := index.contentRules.filter (·.paths.selects path)
  if index.contentIgnore.selects path || rules.isEmpty then pure ()
  else
    match ← readText source e.path size with
    | none => .finding contentRule s!"content inconclusive: {e.path}"
    | some text =>
      (textProblems index rules e.path text).forM fun problem => .finding contentRule problem

/-! ## The checker -/

/-- Look at a file. -/
def visit (s : Subject) (e : Entry) (index : Index) : Check Index := do
  checkPath index e
  let size ← Check.ofFile (s.source.size e.path)
  checkHash index s.source e.path size
  checkContent index s.source e size
  pure index

def checker : Checker where
  name := "confidential"
  checks := [pathRule, hashRule, contentRule]
  State := Index
  build := build
  passes _ := 1
  visit s e _ := visit s e
  finish _ _ := pure ()

end ConfidentialRules

end PackageAudit
