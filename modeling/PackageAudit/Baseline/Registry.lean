import PackageAudit.Baseline.Service
import PackageAudit.Document.Json.Form
import PackageAudit.Document.Record
import PackageAudit.Network.Request
import PackageAudit.Network.Settings
import PackageAudit.Url.Reader

/-!
# Baseline.Registry — what was published before, asked over the network

* `Registry` — the addresses of the services;
* `Registry.ofTexts`, `Registry.ofConfig` — the addresses that texts spell;
* `Registry.service` — the answers of the services, over a network.
-/

namespace PackageAudit

/-- The address that a text spells. -/
def readAddress (text : String) : Except NetworkError Url :=
  (Url.parse text.toList).mapError fun fault => .invalidUrl s!"{text}: {fault.message}"

/-- The addresses of services. -/
structure Registry where
  /-- Where published manifests are, by name and version. -/
  manifests : Url
  /-- Where the lists of built in packages are, by release. -/
  builtins : Option Url
  /-- Where the index of confidential content is. -/
  index : Option Url

namespace Registry

/-- The addresses that texts spell. -/
def ofTexts (manifests : String) (builtins index : Option String) :
    Except NetworkError Registry := do
  pure ⟨← readAddress manifests, ← builtins.mapM readAddress, ← index.mapM readAddress⟩

def ofConfig (c : Config) : Except NetworkError Registry :=
  ofTexts c.registryUrl c.builtinsUrl c.indexUrl

/-- The address of names below an address. -/
def endpoint (base : Url) (names : List String) : Except NetworkError String :=
  match base.below? names with
  | some url => .ok url.text
  | none => .error (.invalidUrl base.text)

/-- Ask for the manifest of a version; there is none where there is nothing at its address. -/
def published (r : Registry) (get : String → Except NetworkError Answer) (name version : String) :
    Except NetworkError (Option Document) := do
  let url ← endpoint r.manifests [name, version]
  let answer ← get url
  if answer.status = Status.notFound then pure none
  else
    match Json.read .legacy (← Request.body answer) with
    | .ok document => pure (some document)
    | .error e => .error (.downloadFailed s!"{url}: {e.message}")

/-- The names that a list of built in packages has. -/
def builtinNames? (body : Bytes) : Option (List String) :=
  match (Json.ofForm? (.record [("packages", .list .text)]) body).bind (·.fields? ["packages"]) with
  | some [some names] => names.strings?
  | _ => none

/-- Ask for the packages that are built into a release. -/
def builtinsOf (r : Registry) (get : String → Except NetworkError Answer) (platform : Platform) :
    Except NetworkError (List String) :=
  match r.builtins with
  | none => .error .unavailable
  | some base => do
    let url ← endpoint base [platform.text ++ ".json"]
    match builtinNames? (← Request.body (← get url)) with
    | some names => pure (Sorted.ofList names)
    | none => .error (.downloadFailed s!"{url}: no list of packages")

/-- Ask for the index of confidential content. -/
def indexOf (r : Registry) (get : String → Except NetworkError Answer) :
    Except NetworkError Bytes :=
  match r.index with
  | none => .error .unavailable
  | some url => do Request.body (← get url.text)

/-- The answers of the services, over a network. -/
def service (r : Registry) (transport : Transport) (delays : List Nat) : Baselines :=
  let get := Request.get transport delays
  ⟨r.published get, r.builtinsOf get, r.indexOf get⟩

end Registry

/-- The service that settings ask for: none if they say so. -/
def Baselines.ofConfig (c : Config) (transport : Transport) : Except NetworkError Baselines :=
  if c.offline then .ok .offline
  else do
    let registry ← Registry.ofConfig c
    pure (registry.service transport (RequestSettings.ofConfig c).delays)

end PackageAudit
