import PackageAudit.Document.Json.Reader
import PackageAudit.Platform
import PackageAudit.Version

/-!
# Manifest — the manifest of a package

* `ManifestError` — what is wrong with a manifest;
* `Manifest.parse` — a strict JSON text that is an object;
* `Manifest.name`, `Manifest.version`, … — the members that rules look at.
-/

namespace PackageAudit

/-- Why a manifest, or a member of it, cannot be used. -/
inductive ManifestError where
  | missing
  | unreadable (message : String)
  | invalid (error : DocumentError)
  | invalidPlatform (value reason : String)
  | invalidVersion (value reason : String)
  deriving DecidableEq

namespace ManifestError

def message : ManifestError → String
  | missing => "package manifest package.json not found"
  | unreadable message => s!"package manifest package.json could not be read: {message}"
  | invalid error => s!"package manifest package.json is invalid: {error.message}"
  | invalidPlatform value reason =>
    "invalid platform version " ++ Quoted.text value ++ ": " ++ reason
  | invalidVersion value reason => "invalid package version " ++ Quoted.text value ++ ": " ++ reason

/-- What the user can do about it. -/
def hint? : ManifestError → Option String
  | missing => some "Add a package.json manifest at the package root."
  | unreadable _ => none
  | _ => some "Fix the manifest at the reported location and re-run the checks."

end ManifestError

/-- The release that a text names, for a manifest. -/
def Platform.ofText (s : String) : Except ManifestError Platform :=
  (Platform.parse s).mapError fun fault => .invalidPlatform s fault.message

/-- A document whose root is an object. -/
structure Manifest where
  document : Document

namespace Manifest

/-- Where the manifest lies in its package. -/
def path : String := "package.json"

def root (m : Manifest) : Node :=
  m.document.rootNode

/-- The manifest of a strict JSON text. -/
def parse (s : Bytes) : Except ManifestError Manifest :=
  match Json.parse s with
  | .error e => .error (.invalid (.json e))
  | .ok document =>
    if document.root.kind = .object then .ok ⟨document⟩
    else .error (.invalid (document.rootNode.mismatch .object))

def name (m : Manifest) : Except ManifestError String :=
  (m.root.get "name").string.mapError .invalid

def version (m : Manifest) : Except ManifestError Version := do
  let raw ← (m.root.get "version").string.mapError .invalid
  (Version.parse raw).mapError fun fault => .invalidVersion raw fault.message

/-- The declared minimum release of the platform. -/
def platform (m : Manifest) : Except ManifestError (Option Platform) := do
  match ← (m.root.optionalString "unity").mapError .invalid with
  | none => pure none
  | some raw => (Platform.ofText raw).map some

/-- The refinement of the minimum release. -/
def platformRelease (m : Manifest) : Except ManifestError (Option String) :=
  (m.root.optionalString "unityRelease").mapError .invalid

/-- The declared dependencies; none if nothing is declared. -/
def dependencies (m : Manifest) : Except ManifestError (List (String × Node)) :=
  let node := m.root.get "dependencies"
  if node.isAbsent then .ok [] else node.members.mapError .invalid

/-- The platform that rules go by; an unusable declaration counts as none. -/
def target (m : Manifest) : Target :=
  ⟨m.platform.toOption.join⟩

end Manifest

end PackageAudit
