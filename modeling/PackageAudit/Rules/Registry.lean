import PackageAudit.Audit.Run
import PackageAudit.Rules.Confidential
import PackageAudit.Rules.Consistency
import PackageAudit.Rules.Identity
import PackageAudit.Rules.Manifest

/-!
# Rules.Registry — all rules

* `Rules.checkers` — every checker, in the order in which they work: rules on the manifest and on
  documents first, then what the registry knows, then rules on files and their contents;
* `Rules.named` — those with the given names.
-/

namespace PackageAudit

namespace Rules

/-- Every checker, in the order in which they work. -/
def checkers : List Checker :=
  [ManifestRules.checker, SyntaxRules.checker, IdentityRules.checker, BaselineRules.checker,
    ConsistencyRules.checker, ConfidentialRules.checker]

/-- The checkers with the given names, in the order in which they work; without names, all. -/
def named (names : List String) : List Checker :=
  if names.isEmpty then checkers else checkers.filter fun c => names.contains c.name

/-- The name of the checker that declares a rule. -/
def owner? (check : String) : Option String :=
  (checkers.find? fun c => c.checks.any (·.text == check)).map (·.name)

end Rules

end PackageAudit
