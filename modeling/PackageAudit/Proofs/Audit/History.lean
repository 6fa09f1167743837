import PackageAudit.Audit.Run

/-!
# Proofs.Audit.History — what happens in an audit

A batch keeps what a checker reported and forgets the calls by which it was reported. This file
makes the calls explicit, in the order in which they happen:

* `Call` — one report of a checker, whether it may be made or not;
* `Call.breach?` — what is wrong with a call behind the earlier calls of the same checker, and
  `firstBreach?`, the first thing wrong in a list of calls;
* `Check.log`, `Checker.logs` — the calls that a checker makes, one list for each task it begins;
* `Audit.atWork` — the checkers that an audit sets to work;
* `Batch.replay` — the batch that a list of calls leaves behind.

`Call.breach?` is stated on lists of calls and knows nothing of batches. What a batch makes of its
calls is the subject of `Proofs.Audit.Replay`.
-/

namespace PackageAudit

/-! ## Calls and the rules of reporting -/

/-- One report of a checker. Leaving out all remaining rules is one call for each of them. -/
inductive Call where
  | finding (check : CheckId) (message : String)
  | skip (check : CheckId) (reason : String)
  | record (name : String) (content : Bytes)
  deriving DecidableEq

namespace Call

/-- Whether a call reports a finding under a rule. -/
def reports (check : CheckId) : Call → Bool
  | finding other _ => other == check
  | _ => false

/-- Whether a call leaves out a rule. -/
def leavesOut (check : CheckId) : Call → Bool
  | skip other _ => other == check
  | _ => false

def finding? : Call → Option Finding
  | finding check message => some ⟨check, message⟩
  | _ => none

def skip? : Call → Option Skip
  | skip check reason => some ⟨check, reason⟩
  | _ => none

def record? : Call → Option BaselineRecord
  | record name content => some (.of name content)
  | _ => none

/-- What is wrong with a call of a checker with the given rules, behind its earlier calls. -/
def breach? (declared : List CheckId) (past : List Call) : Call → Option Breach
  | finding check _ =>
    if check ∉ declared then some (.undeclaredFinding check)
    else if past.any (leavesOut check) then some (.findingAfterSkip check)
    else none
  | skip check _ =>
    if check ∉ declared then some (.undeclaredSkip check)
    else if past.any (leavesOut check) then some (.secondSkip check)
    else if past.any (reports check) then some (.skipAfterFinding check)
    else none
  | record _ _ => none

end Call

/-- What is wrong with the first call of a list that may not be made, behind those before it. -/
def firstBreach? (declared : List CheckId) (calls : List Call) : Option Breach :=
  calls.zipIdx.findSome? fun (call, i) => call.breach? declared (calls.take i)

/-! ## Batches as replays -/

namespace Batch

/-- The batch after one more call. -/
def step (declared : List CheckId) (b : Batch) : Call → Batch
  | .finding check message =>
    match b.findingBreach? declared check with
    | some breach => b.addBreach breach
    | none => b.addFinding check message
  | .skip check reason =>
    match b.skipBreach? declared check with
    | some breach => b.addBreach breach
    | none => b.addSkip check reason
  | .record name content => b.addRecord name content

/-- The batch after more calls. -/
def replay (declared : List CheckId) (b : Batch) (calls : List Call) : Batch :=
  calls.foldl (step declared) b

/-- Whether anything is known about a rule. -/
def knows (b : Batch) (check : CheckId) : Bool :=
  b.isSkipped check || b.hasFailed check

/-- The calls that leave out those of some rules of which nothing is known. -/
def restCalls (reason : String) : List CheckId → Batch → List Call
  | [], _ => []
  | check :: rest, b =>
    if b.knows check then restCalls reason rest b
    else .skip check reason :: restCalls reason rest (b.addSkip check reason)

end Batch

/-! ## Histories -/

namespace Check

/-- The calls that work makes when it is done on a batch. -/
def log {α : Type} (checker : String) (declared : List CheckId) : Check α → Batch → List Call
  | done _, _ => []
  | stop _, _ => []
  | report check message next, b =>
    let answer := (b.findingBreach? declared check).map (.ofBreach checker)
    .finding check message ::
      (next answer).log checker declared (b.step declared (.finding check message))
  | skip check reason next, b =>
    let answer := (b.skipBreach? declared check).map (.ofBreach checker)
    .skip check reason ::
      (next answer).log checker declared (b.step declared (.skip check reason))
  | skipAll reason next, b =>
    b.restCalls reason declared ++
      (next ()).log checker declared (b.addSkips declared reason)
  | record name content next, b =>
    .record name content :: (next ()).log checker declared (b.addRecord name content)

/-- The calls of each task that is begun when tasks are done one after the other. -/
def logAll {σ : Type} (checker : String) (declared : List CheckId) :
    List (σ → Check σ) → σ → Batch → List (List Call)
  | [], _, _ => []
  | task :: rest, state, b =>
    (task state).log checker declared b ::
      match (task state).perform checker declared b with
      | (_, .error _) => []
      | (b, .ok state) => if b.breach.isSome then [] else logAll checker declared rest state b

end Check

namespace Checker

/--
The calls of each task that a checker begins: it is built, it sees the files in each pass, it
comes to its end.
-/
def logs (c : Checker) (s : Subject) : List (List Call) :=
  (c.build s).log c.name c.checks .empty ::
    match (c.build s).perform c.name c.checks .empty with
    | (b, .ok (some state)) =>
      if b.breach.isSome then []
      else Check.logAll c.name c.checks (c.calls s (c.passes state)) state b
    | _ => []

/-- All calls of a checker. -/
def log (c : Checker) (s : Subject) : List Call :=
  (c.logs s).flatten

/-- Why a checker gave up, if it did. -/
def ending (c : Checker) (s : Subject) : Option Stop :=
  (c.work s).2

end Checker

namespace Audit

/-- Whether an audit leaves a checker some rule to work for. -/
def involves (a : Audit) (c : Checker) : Bool :=
  !c.checks.all a.isExcluded

/-- Those of some checkers that are set to work; after one that has no result there are no more. -/
def atWorkAmong (a : Audit) (s : Subject) : List Checker → List Checker
  | [] => []
  | c :: rest =>
    if a.involves c then
      c :: match c.audit s with
        | .ok _ => a.atWorkAmong s rest
        | .error _ => []
    else a.atWorkAmong s rest

/-- The checkers that an audit sets to work, in order. -/
def atWork (a : Audit) (s : Subject) : List Checker :=
  a.atWorkAmong s a.checkers

end Audit

end PackageAudit
