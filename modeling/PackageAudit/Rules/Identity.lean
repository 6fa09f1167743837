import PackageAudit.Rules.Syntax

/-!
# Rules.Identity — identifiers in companion files

A companion file gives its asset an identifier for the whole project.

* `PVP-022-1` — a companion file declares an identifier of 32 digits of base sixteen;
* `PVP-023-1` — no two companion files of a package declare the same.

Companion files that cannot be read as documents are left to the syntax rules.
-/

namespace PackageAudit

namespace IdentityRules

def formatRule : CheckId := ⟨"PVP-022-1"⟩
def uniqueRule : CheckId := ⟨"PVP-023-1"⟩

/-- Whether a text is an identifier: 32 digits of base sixteen, letters in lower case. -/
def isIdentifier (s : String) : Bool :=
  let cs := s.toList
  cs.length == 32 && cs.all fun c => c.isDigit || ('a' ≤ c && c ≤ 'f')

/-- The identifier that a document declares at a path, or what is wrong with it. -/
def identifier (document : Document) (path : String) : Except String String :=
  let node := document.rootNode.get "guid"
  if node.isAbsent then .error s!"missing guid: {path}"
  else
    match node.string with
    | .error e => .error s!"{path}: {e.message}"
    | .ok value =>
      if isIdentifier value then .ok value
      else .error ("invalid guid " ++ Quoted.text value ++ ": " ++ path)

/-- Identifiers with the paths that declare them, the last one first. -/
abbrev Owners := List (String × String)

/-- Look at a companion file. -/
def inspect (source : Source) (path : String) (owners : Owners) : Check Owners := do
  let size ← Check.ofFile (source.size path)
  if maxDocumentLength < size then pure owners
  else
    let content ← Check.ofFile (source.read path)
    match Yaml.parse content with
    | .error _ => pure owners
    | .ok document =>
      match identifier document path with
      | .ok value => pure ((value, path) :: owners)
      | .error problem =>
        Check.finding formatRule problem
        pure owners

/-- Look at a file; only visible companion files matter. -/
def visit (s : Subject) (e : Entry) (owners : Owners) : Check Owners :=
  if e.isCompanion && !e.isHidden then inspect s.source e.path owners else pure owners

/-- The paths that declare an identifier, in the order in which they were seen. -/
def pathsOf (owners : Owners) (value : String) : List String :=
  (owners.reverse.filter (·.1 == value)).map Prod.snd

/-- Identifiers that are declared more than once, in ascending order, with their paths. -/
def shared (owners : Owners) : List (String × List String) :=
  ((Sorted.ofList (owners.map Prod.fst)).map fun value => (value, pathsOf owners value)).filter
    fun (_, paths) => 1 < paths.length

/-- Report identifiers that are declared more than once. -/
def finish (owners : Owners) : Check Unit :=
  (shared owners).forM fun (value, paths) =>
    .finding uniqueRule (s!"duplicate guid {value}: " ++ ", ".intercalate paths)

def checker : Checker where
  name := "identity"
  checks := [formatRule, uniqueRule]
  State := Owners
  build _ := pure (some [])
  passes _ := 1
  visit s e _ := visit s e
  finish _ := finish

end IdentityRules

end PackageAudit
