import PackageAudit.Audit.Batch

/-!
# Audit.Run — all checkers over one package

* `Audit` — checkers whose rules have one owner each, and the rules to leave out;
* `Audit.ofCheckers`, `Audit.exclude` — an audit, or what is wrong with it;
* `Audit.run` — the report on a package.
-/

namespace PackageAudit

/-- Checkers in the order in which they work, and rules that are left out. -/
structure Audit where
  checkers : List Checker
  excluded : List CheckId

namespace Audit

/-! ## Registries -/

/-- Give rules to an owner, after those that have one. -/
def assign (owner : String) (owners : List (CheckId × String)) :
    List CheckId → Except AuditError (List (CheckId × String))
  | [] => .ok owners
  | check :: rest =>
    if !check.isWellFormed then .error (.invalidCheckId check.text)
    else
      match owners.lookup check with
      | some other =>
        .error (.invalidRegistry s!"check {check.text} is declared by both {other} and {owner}")
      | none => assign owner ((check, owner) :: owners) rest

/-- Give every checker its rules. -/
def assignAll (owners : List (CheckId × String)) :
    List Checker → Except AuditError (List (CheckId × String))
  | [] => .ok owners
  | c :: rest =>
    if c.checks.isEmpty then .error (.invalidRegistry s!"checker {c.name} declares no checks")
    else
      match assign c.name owners c.checks with
      | .ok owners => assignAll owners rest
      | .error e => .error e

/-- The audit by some checkers, each of which has rules, and no rule has two owners. -/
def ofCheckers (checkers : List Checker) : Except AuditError Audit :=
  match assignAll [] checkers with
  | .ok _ => .ok ⟨checkers, []⟩
  | .error e => .error e

/-- Every rule, in the order of the checkers. -/
def checks (a : Audit) : List CheckId :=
  a.checkers.flatMap (·.checks)

/-- The rule with a name. -/
def find? (a : Audit) (name : String) : Option CheckId :=
  a.checks.find? (·.text == name)

/-- Leave out the rule with a name. -/
def excludeOne (a : Audit) (name : String) : Except AuditError Audit :=
  match a.find? name with
  | some check => .ok { a with excluded := a.excluded ++ [check] }
  | none => .error (.invalidCheckId name)

/-- Leave out the rules with the given names. -/
def exclude (a : Audit) (names : List String) : Except AuditError Audit :=
  names.foldlM excludeOne a

/-! ## Reports -/

/-- Why a rule is left out that an audit was told to leave out. -/
def excludedReason : String := "excluded by configuration"

def isExcluded (a : Audit) (check : CheckId) : Bool :=
  a.excluded.contains check

/-- A result without what lies under excluded rules, which are left out instead. -/
def restrict (a : Audit) (c : Checker) (r : BatchResult) : BatchResult where
  findings := r.findings.filter fun f => !a.isExcluded f.check
  skips := r.skips.filter (fun s => !a.isExcluded s.check) ++
    (c.checks.filter a.isExcluded).map (⟨·, excludedReason⟩)
  records := r.records

/-- The result of one checker. One that has no rule left does not work at all. -/
def batch (a : Audit) (s : Subject) (c : Checker) : Except AuditError BatchResult :=
  if c.checks.all a.isExcluded then .ok (a.restrict c ⟨[], [], []⟩)
  else (c.audit s).map (a.restrict c)

/-- What becomes of a rule. -/
def outcomeOf (findings : List Finding) (skips : List Skip) (check : CheckId) : Outcome :=
  if findings.any (·.check == check) then .fail
  else if skips.any (·.check == check) then .skip
  else .pass

/-- The report on the results of all checkers. A repeated finding or record counts once. -/
def report (a : Audit) (results : List BatchResult) : Report :=
  let findings := (results.flatMap (·.findings)).eraseDups
  let skips := results.flatMap (·.skips)
  { checks := a.checkers.flatMap fun c =>
      c.checks.map fun check => ⟨check, c.name, outcomeOf findings skips check⟩
    findings
    skips
    baselines := (results.flatMap (·.records)).eraseDups }

/-- The report on a package; the first checker that breaks the rules of reporting prevents it. -/
def run (a : Audit) (source : Source) (baselines : Baselines) : Except AuditError Report :=
  let subject := Subject.of source baselines
  (a.checkers.mapM (a.batch subject)).map a.report

end Audit

end PackageAudit
