import PackageAudit.CheckId
import PackageAudit.Text.Quoted

/-!
# Audit.Error — audits that come to no report

A package never keeps an audit from its report: what is wrong with it becomes findings. Only
checkers do, by a registry that makes no sense or by reports against the rules of reporting.

* `Breach` — a report against the rules;
* `AuditError` — why there is no report.
-/

namespace PackageAudit

/-- A report that a checker may not make. -/
inductive Breach where
  | undeclaredFinding (check : CheckId)
  | findingAfterSkip (check : CheckId)
  | undeclaredSkip (check : CheckId)
  | secondSkip (check : CheckId)
  | skipAfterFinding (check : CheckId)
  deriving DecidableEq

def Breach.message : Breach → String
  | undeclaredFinding check => s!"reported a finding under undeclared check {check.text}"
  | findingAfterSkip check => s!"reported a finding under skipped check {check.text}"
  | undeclaredSkip check => s!"skipped undeclared check {check.text}"
  | secondSkip check => s!"skipped check {check.text} twice"
  | skipAfterFinding check => s!"skipped check {check.text} after reporting a finding"

/-- Why an audit comes to no report. -/
inductive AuditError where
  | contractViolation (checker message : String)
  | invalidRegistry (message : String)
  | invalidCheckId (id : String)
  deriving DecidableEq

namespace AuditError

def message : AuditError → String
  | contractViolation checker message =>
    s!"checker {checker} violated the reporting contract: {message}"
  | invalidRegistry message => s!"invalid checker registry: {message}"
  | invalidCheckId id =>
    "invalid check identifier " ++ Quoted.text id ++ ": expected PREFIX-NNN-V"

/-- The error of a checker that made a report against the rules. -/
def ofBreach (checker : String) (breach : Breach) : AuditError :=
  .contractViolation checker breach.message

end AuditError

end PackageAudit
