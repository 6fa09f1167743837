import PackageAudit.Document.Node
import PackageAudit.Network.Error
import PackageAudit.Platform
import PackageAudit.Text.Sorted
import PackageAudit.Text.Utf8

/-!
# Baseline.Service — what was published before

Some rules compare a package with what was published before.

* `Baselines` — a service that answers such questions, or says why it cannot;
* `Baselines.offline` — a service that answers none;
* `KnownBaselines` — answers that are known in advance.
-/

namespace PackageAudit

/-- A service that knows what was published before. -/
structure Baselines where
  /-- The manifest published under a name and a version. -/
  published : String → String → Except NetworkError (Option Document)
  /-- The names of the packages built into a release, in ascending order. -/
  builtins : Platform → Except NetworkError (List String)
  /-- The index of confidential content. -/
  index : Except NetworkError Bytes

/-- A service that is never reached. -/
def Baselines.offline : Baselines :=
  ⟨fun _ _ => .error .unavailable, fun _ => .error .unavailable, .error .unavailable⟩

/-- Answers that are known in advance; what is not among them cannot be reached. -/
structure KnownBaselines where
  /-- Whether versions that are not listed are known not to be published. -/
  registry : Bool
  published : List ((String × String) × Document)
  builtins : List (Platform × List String)
  index : Option Bytes

namespace KnownBaselines

/-- Nothing is known. -/
def none : KnownBaselines := ⟨false, [], [], Option.none⟩

/-- Add a published manifest, in place of one under the same name and version. -/
def publish (k : KnownBaselines) (name version : String) (manifest : Document) : KnownBaselines :=
  { k with registry := true, published := ((name, version), manifest) :: k.published }

/-- Add the packages of a release, in place of those given before. -/
def build (k : KnownBaselines) (platform : Platform) (names : List String) : KnownBaselines :=
  { k with builtins := (platform, Sorted.ofList names) :: k.builtins }

/-- The answer of a service that may not be reached. -/
def reached {α : Type} : Option α → Except NetworkError α
  | some a => .ok a
  | Option.none => .error .unavailable

/-- The service that gives the known answers. -/
def service (k : KnownBaselines) : Baselines where
  published name version :=
    if k.registry then .ok (k.published.lookup (name, version)) else .error .unavailable
  builtins platform := reached (k.builtins.lookup platform)
  index := reached k.index

end KnownBaselines

end PackageAudit
