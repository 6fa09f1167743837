import PackageAudit.Audit.Check

/-!
# Rules.Consistency — assets and their companion files

* `PVP-101-1` — a companion file belongs to a visible asset;
* `PVP-102-1` — a visible asset has a companion file.

Contents of plugin directories need none if the platform handles such directories as a whole.
-/

namespace PackageAudit

namespace ConsistencyRules

def orphanRule : CheckId := ⟨"PVP-101-1"⟩
def missingRule : CheckId := ⟨"PVP-102-1"⟩

/-- What companion files are named by, behind the name of their asset. -/
def companionSuffix : String := ".meta"

/-- The path of the asset that a companion belongs to. -/
def assetPath (path : String) : String :=
  .ofList (path.toList.take (path.toList.length - companionSuffix.length))

/-- What is wrong with a companion. -/
def companionProblem? (entries : EntrySet) (e : Entry) : Option String :=
  if e.isDirectory then some "directory with companion-file extension"
  else
    match entries.get? (assetPath e.path) with
    | none => some "companion file without target"
    | some asset =>
      if asset.isHidden then some "companion file for hidden target"
      else if asset.isCompanion then some "companion file for a companion file"
      else none

/-- Whether an entry needs no companion where plugin directories are handled as a whole. -/
def isExempt (target : Target) (e : Entry) : Bool :=
  target.reaches Platform.companionsOptional && e.inPlugin

/-- What is wrong with a visible entry, and by which rule. -/
def problem? (target : Target) (entries : EntrySet) (e : Entry) : Option (CheckId × String) :=
  if e.isCompanion then
    (companionProblem? entries e).map fun problem => (orphanRule, s!"{problem}: {e.path}")
  else if isExempt target e || entries.contains (e.path ++ companionSuffix) then none
  else some (missingRule, s!"missing companion file: {e.path}")

/-- What is wrong with the visible entries of a package, in the order of their paths. -/
def problems (target : Target) (entries : EntrySet) : List (CheckId × String) :=
  (entries.entries.filter fun e => !e.isHidden).filterMap (problem? target entries)

/-- Look at all entries. -/
def work (s : Subject) : Check Unit :=
  (problems s.target s.entries).forM fun (rule, problem) => .finding rule problem

def checker : Checker :=
  .single "consistency" [orphanRule, missingRule] work

end ConsistencyRules

end PackageAudit
