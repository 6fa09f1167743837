import PackageAudit.CheckId
import PackageAudit.Digest.Blake3
import PackageAudit.Digest.Endian
import PackageAudit.Document.Printer

/-!
# Audit.Report — what an audit found

* `Finding`, `Skip`, `BaselineRecord` — what rules report;
* `Report` — everything that an audit found, with one outcome for each rule;
* `Report.render` — the report as text, `Report.value` as a tree.
-/

namespace PackageAudit

/-- A rule that a package breaks, and where. -/
structure Finding where
  check : CheckId
  message : String
  deriving DecidableEq

def Finding.line (f : Finding) : String :=
  f.check.text ++ ": " ++ f.message

/-- A rule that was not applied, and why. -/
structure Skip where
  check : CheckId
  reason : String
  deriving DecidableEq

/-- Outside knowledge that a rule relied on, by its digest. -/
structure BaselineRecord where
  name : String
  hash : Bytes
  deriving DecidableEq

/-- The record of a content under a name. -/
def BaselineRecord.of (name : String) (content : Bytes) : BaselineRecord :=
  ⟨name, Blake3.hash content⟩

/-- What became of a rule. -/
inductive Outcome where
  | pass
  | fail
  | skip
  deriving DecidableEq

def Outcome.word : Outcome → String
  | pass => "pass"
  | fail => "fail"
  | skip => "skip"

/-- The outcome of a rule, with the checker that owns it. -/
structure Summary where
  check : CheckId
  checker : String
  outcome : Outcome
  deriving DecidableEq

/-- Everything that an audit found. -/
structure Report where
  checks : List Summary
  findings : List Finding
  skips : List Skip
  baselines : List BaselineRecord
  deriving DecidableEq

namespace Report

/-! ## Questions -/

/-- Whether no rule is broken. -/
def passed (r : Report) : Bool :=
  r.checks.all (·.outcome != .fail)

def outcome? (r : Report) (check : CheckId) : Option Outcome :=
  (r.checks.find? (·.check == check)).map (·.outcome)

def findingsFor (r : Report) (check : CheckId) : List Finding :=
  r.findings.filter (·.check == check)

def skipReason? (r : Report) (check : CheckId) : Option String :=
  (r.skips.find? (·.check == check)).map (·.reason)

def count (r : Report) (outcome : Outcome) : Nat :=
  r.checks.countP (·.outcome == outcome)

/-! ## Text -/

/-- The lines on one rule: its outcome, then its findings. -/
def checkLines (r : Report) (s : Summary) : List String :=
  let reason := match r.skipReason? s.check with
    | some reason => " (" ++ reason ++ ")"
    | none => ""
  (s.outcome.word ++ " " ++ s.check.text ++ reason) ::
    (r.findingsFor s.check).map fun f => "       " ++ f.message

def recordLine (b : BaselineRecord) : String :=
  "baseline " ++ b.name ++ " " ++ Endian.hex b.hash

/-- The counts of all outcomes. -/
def countLine (r : Report) : String :=
  s!"{r.count .pass} passed, {r.count .fail} failed, {r.count .skip} skipped"

/-- The lines of the report: the rules, what they relied on, and the counts. -/
def lines (r : Report) : List String :=
  r.checks.flatMap r.checkLines ++ r.baselines.map recordLine ++ [r.countLine]

/-- The report as text, every line ended. -/
def render (r : Report) : String :=
  String.join (r.lines.map (· ++ "\n"))

/-! ## Tree -/

/-- An object of strings. -/
def record (members : List (String × String)) : Value :=
  .object (members.map fun (name, text) => (name, .string text)) []

/-- The report as a tree. -/
def value (r : Report) : Value :=
  .object
    [("checks", .array (r.checks.map fun s =>
        record [("check", s.check.text), ("checker", s.checker), ("outcome", s.outcome.word)])),
      ("findings", .array (r.findings.map fun f =>
        record [("check", f.check.text), ("message", f.message)])),
      ("skips", .array (r.skips.map fun s =>
        record [("check", s.check.text), ("reason", s.reason)])),
      ("baselines", .array (r.baselines.map fun b =>
        record [("name", b.name), ("hash", Endian.hex b.hash)]))]
    []

end Report

end PackageAudit
