import PackageAudit.Audit.Check
import PackageAudit.Audit.Report

/-!
# Audit.Batch — the work of one checker

* `Batch` — what a checker has reported so far;
* `Check.perform` — do the work of a tree of calls;
* `Checker.calls` — what a checker is asked to do after it is built, in order;
* `Checker.audit` — the result of all of its work.

A report against the rules of reporting leaves nothing behind but itself: it is answered with an
error, and whatever the checker makes of that, the work ends after the call in which it happened.
-/

namespace PackageAudit

/-- What a checker has reported so far. -/
structure Batch where
  /-- Findings, the last one first, repeated ones included. -/
  findings : List Finding
  /-- Rules with a finding. -/
  failed : List CheckId
  skips : List Skip
  /-- Records, the last one first, repeated ones included. -/
  records : List BaselineRecord
  /-- The first report against the rules. -/
  breach : Option Breach

namespace Batch

def empty : Batch := ⟨[], [], [], [], none⟩

/-- Whether a rule is left out. -/
def isSkipped (b : Batch) (check : CheckId) : Bool :=
  b.skips.any (·.check == check)

def hasFailed (b : Batch) (check : CheckId) : Bool :=
  b.failed.contains check

/-- What is wrong with a finding under a rule. -/
def findingBreach? (b : Batch) (declared : List CheckId) (check : CheckId) : Option Breach :=
  if !declared.contains check then some (.undeclaredFinding check)
  else if b.isSkipped check then some (.findingAfterSkip check)
  else none

/-- What is wrong with leaving out a rule. -/
def skipBreach? (b : Batch) (declared : List CheckId) (check : CheckId) : Option Breach :=
  if !declared.contains check then some (.undeclaredSkip check)
  else if b.isSkipped check then some (.secondSkip check)
  else if b.hasFailed check then some (.skipAfterFinding check)
  else none

/-- Keep a finding. -/
def addFinding (b : Batch) (check : CheckId) (message : String) : Batch :=
  { b with
    findings := ⟨check, message⟩ :: b.findings
    failed := if b.hasFailed check then b.failed else check :: b.failed }

/-- Keep that a rule is left out. -/
def addSkip (b : Batch) (check : CheckId) (reason : String) : Batch :=
  { b with skips := b.skips ++ [⟨check, reason⟩] }

/-- Leave out all declared rules of which nothing is known. -/
def addSkips (b : Batch) (declared : List CheckId) (reason : String) : Batch :=
  declared.foldl
    (fun b check =>
      if b.isSkipped check || b.hasFailed check then b else b.addSkip check reason)
    b

def addRecord (b : Batch) (name : String) (content : Bytes) : Batch :=
  { b with records := .of name content :: b.records }

/-- Keep the first report against the rules. -/
def addBreach (b : Batch) (breach : Breach) : Batch :=
  { b with breach := b.breach.or (some breach) }

end Batch

/-- Do the work of a checker with the given name and rules. -/
def Check.perform {α : Type} (checker : String) (declared : List CheckId) :
    Check α → Batch → Batch × Except Stop α
  | .done value, b => (b, .ok value)
  | .stop cause, b => (b, .error cause)
  | .report check message next, b =>
    match b.findingBreach? declared check with
    | some breach =>
      (next (some (.ofBreach checker breach))).perform checker declared (b.addBreach breach)
    | none => (next none).perform checker declared (b.addFinding check message)
  | .skip check reason next, b =>
    match b.skipBreach? declared check with
    | some breach =>
      (next (some (.ofBreach checker breach))).perform checker declared (b.addBreach breach)
    | none => (next none).perform checker declared (b.addSkip check reason)
  | .skipAll reason next, b => (next ()).perform checker declared (b.addSkips declared reason)
  | .record name content next, b => (next ()).perform checker declared (b.addRecord name content)

/-- Do calls one after the other, until one gives up or breaks the rules of reporting. -/
def Check.performAll {σ : Type} (checker : String) (declared : List CheckId) :
    List (σ → Check σ) → σ → Batch → Batch × Except Stop σ
  | [], state, b => (b, .ok state)
  | call :: rest, state, b =>
    match (call state).perform checker declared b with
    | (b, .error cause) => (b, .error cause)
    | (b, .ok state) =>
      if b.breach.isSome then (b, .ok state) else performAll checker declared rest state b

/-- The result of the work of a checker. -/
structure BatchResult where
  /-- Findings in the order in which they were reported, repeated ones included. -/
  findings : List Finding
  skips : List Skip
  /-- Records in the order in which they were made, repeated ones included. -/
  records : List BaselineRecord

namespace Checker

/-- The passes through the files, each with every file in the order of the package. -/
def visits (files : List String) (entries : EntrySet) (passes : Nat) : List (Nat × Entry) :=
  (List.range passes).flatMap fun pass =>
    (files.filterMap entries.get?).map fun entry => (pass, entry)

/-- What a checker is asked to do once it is built. -/
def calls (c : Checker) (s : Subject) (passes : Nat) : List (c.State → Check c.State) :=
  (visits s.source.files s.entries passes).map (fun (pass, entry) => c.visit s entry pass) ++
    [fun state => do c.finish s state; pure state]

/-- All of the work of a checker: what it reported, and why it gave up if it did. -/
def work (c : Checker) (s : Subject) : Batch × Option Stop :=
  match (c.build s).perform c.name c.checks .empty with
  | (b, .error cause) => (b, some cause)
  | (b, .ok none) => (b, none)
  | (b, .ok (some state)) =>
    if b.breach.isSome then (b, none)
    else
      match Check.performAll c.name c.checks (c.calls s (c.passes state)) state b with
      | (b, .error cause) => (b, some cause)
      | (b, .ok _) => (b, none)

/--
What becomes of a batch. A checker that cannot be applied fails all of its rules, and what it left
out does not count.
-/
def conclude (c : Checker) (b : Batch) (stop : Option Stop) : Except AuditError BatchResult :=
  match b.breach, stop with
  | some breach, _ => .error (.ofBreach c.name breach)
  | none, none => .ok ⟨b.findings.reverse, b.skips, b.records.reverse⟩
  | none, some (.precondition message) =>
    .ok ⟨b.findings.reverse ++ c.checks.map (⟨·, message⟩), [], b.records.reverse⟩
  | none, some (.contract error) => .error error

/-- The result of all of the work of a checker. -/
def audit (c : Checker) (s : Subject) : Except AuditError BatchResult :=
  c.conclude (c.work s).1 (c.work s).2

end Checker

end PackageAudit
