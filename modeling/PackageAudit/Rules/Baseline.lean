import PackageAudit.Audit.Check

/-!
# Rules.Baseline — what the registry already knows

* `PVP-050-1` — the version of the manifest is not published yet;
* `PVP-051-1` — the package does not have the name of one that is built into its minimum release.
-/

namespace PackageAudit

/-- Why rules are left out that need a service which does not answer. -/
def unreachedReason : String := "network unavailable"

namespace BaselineRules

def unpublishedRule : CheckId := ⟨"PVP-050-1"⟩
def notBuiltinRule : CheckId := ⟨"PVP-051-1"⟩

def noPlatformReason : String := "no minimum platform version declared"
def invalidPlatformReason : String := "invalid minimum platform version"

/-- Ask whether the version is published. -/
def checkPublished (baselines : Baselines) (name version : String) : Check Unit :=
  match baselines.published name version with
  | .ok (some manifest) => do
    .relyOn s!"registry:{name}@{version}" (textBytes manifest.render)
    .finding unpublishedRule s!"{name}@{version} is already published"
  | .ok none => pure ()
  | .error _ => .leaveOut unpublishedRule unreachedReason

/-- Ask whether the name is built into a release. -/
def checkBuiltin (baselines : Baselines) (name : String) (platform : Platform) : Check Unit :=
  match baselines.builtins platform with
  | .ok names => do
    .relyOn s!"builtins:{platform.text}" (textBytes ("\n".intercalate names))
    if names.contains name then
      .finding notBuiltinRule s!"{name} is built into platform release {platform.text}"
  | .error _ => .leaveOut notBuiltinRule unreachedReason

/-- Compare the manifest with what is published. -/
def work (s : Subject) : Check Unit := do
  let manifest ← Check.ofManifest s.manifest
  let name ← Check.ofManifest manifest.name
  let version ← Check.ofManifest manifest.version
  checkPublished s.baselines name version.text
  match manifest.platform with
  | .ok (some platform) => checkBuiltin s.baselines name platform
  | .ok none => .leaveOut notBuiltinRule noPlatformReason
  | .error _ => .leaveOut notBuiltinRule invalidPlatformReason

def checker : Checker :=
  .single "baseline" [unpublishedRule, notBuiltinRule] work

end BaselineRules

end PackageAudit
