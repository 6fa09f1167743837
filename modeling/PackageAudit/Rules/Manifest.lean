import PackageAudit.Audit.Check
import PackageAudit.Unicode.Category

/-!
# Rules.Manifest — rules on the package manifest

* `PVP-001-1` — the manifest is a strict JSON object;
* `PVP-002-1` — the name is a reverse domain name in lower case;
* `PVP-003-1` — the version is a semantic version;
* `PVP-004-1` — the minimum release of the platform, and its refinement, are well formed;
* `PVP-005-1` — dependencies give semantic versions to names.
-/

namespace PackageAudit

namespace ManifestRules

def syntaxRule : CheckId := ⟨"PVP-001-1"⟩
def nameRule : CheckId := ⟨"PVP-002-1"⟩
def versionRule : CheckId := ⟨"PVP-003-1"⟩
def platformRule : CheckId := ⟨"PVP-004-1"⟩
def dependencyRule : CheckId := ⟨"PVP-005-1"⟩

/-! ## Texts -/

/-- Characters of a part of a name. -/
def isNameChar (c : Char) : Bool :=
  c.isLower || c.isDigit || c == '-' || c == '_'

/-- At least two parts, with points between them. -/
def isDomainName (name : String) : Bool :=
  let parts := name.toList.splitOn '.'
  2 ≤ parts.length && parts.all fun part => !part.isEmpty && part.all isNameChar

/-- Decimal digits of any script. -/
def digits : CodePoints := Category.members .decimalNumber

/-- Digits, a letter for the stage of the release, and digits. -/
def isRelease (release : String) : Bool :=
  let cs := release.toList
  match cs.dropWhile digits.has with
  | stage :: number =>
    digits.has (cs.headD ' ') && ['a', 'b', 'f', 'p'].contains stage &&
      !number.isEmpty && number.all digits.has
  | [] => false

/-! ## Members -/

/-- What is wrong with the name. -/
def nameProblem? (name : Node) : Option String :=
  match name.string with
  | .error e => some e.message
  | .ok value =>
    if isDomainName value then none
    else some (name.path ++ ": " ++ Quoted.text value ++ " is not a lowercase reverse-domain name")

/-- What is wrong with a version. -/
def versionProblem? (version : Node) : Option String :=
  match version.string with
  | .error e => some e.message
  | .ok value =>
    match Version.parse value with
    | .ok _ => none
    | .error fault =>
      some (version.path ++ ": " ++ Quoted.text value ++ " is not a SemVer 2.0 version: " ++
        fault.message)

/-- What is wrong with the minimum release. -/
def platformProblem? (platform : Node) : Option String :=
  if platform.isAbsent then none
  else
    match platform.string with
    | .error e => some e.message
    | .ok value =>
      match Platform.ofText value with
      | .ok _ => none
      | .error e => some (platform.path ++ ": " ++ e.message)

/-- What is wrong with the refinement of the minimum release, which makes no sense without one. -/
def releaseProblem? (release platform : Node) : Option String :=
  if release.isAbsent then none
  else
    match release.string with
    | .error e => some e.message
    | .ok value =>
      if platform.isAbsent then some (release.path ++ ": requires " ++ platform.path)
      else if isRelease value then none
      else some (release.path ++ ": " ++ Quoted.text value ++ " is not a release such as \"0f1\"")

/-- What is wrong with the dependencies. -/
def dependencyProblems (dependencies : Node) : List String :=
  if dependencies.isAbsent then []
  else
    match dependencies.members with
    | .error e => [e.message]
    | .ok members => members.filterMap fun (_, version) => versionProblem? version

/-! ## The checker -/

/-- What is wrong with the members of a manifest, rule by rule. -/
def problems (root : Node) : List (CheckId × String) :=
  let platform := root.get "unity"
  let release := root.get "unityRelease"
  ((nameProblem? (root.get "name")).toList.map (nameRule, ·)) ++
    ((versionProblem? (root.get "version")).toList.map (versionRule, ·)) ++
    ((platformProblem? platform).toList.map (platformRule, ·)) ++
    ((releaseProblem? release platform).toList.map (platformRule, ·)) ++
    ((dependencyProblems (root.get "dependencies")).map (dependencyRule, ·))

/-- Look at the manifest. -/
def work (s : Subject) : Check Unit :=
  match s.manifest with
  | .ok manifest => (problems manifest.root).forM fun (rule, problem) => .finding rule problem
  | .error (.invalid e) => do
    .finding syntaxRule e.message
    .leaveOutRest "package manifest is invalid"
  | .error e => .stop (.ofManifest e)

def checker : Checker :=
  .single "manifest" [syntaxRule, nameRule, versionRule, platformRule, dependencyRule] work

end ManifestRules

end PackageAudit
