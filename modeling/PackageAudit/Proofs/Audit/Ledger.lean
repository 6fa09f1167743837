import PackageAudit.Proofs.Audit.Accounting

/-!
# Proofs.Audit.Ledger — one ledger for all checkers

`Audit.run` lets each checker work on a batch of its own and puts the results together at the end.
Here all checkers write into one ledger, call by call, and each of them finds what those before it
have written:

* `Ledger` — the lists of the report so far, and the batch of the checker at work;
* `Check.enter`, `Checker.enter`, `Audit.enter` — work, the work of a checker, and what becomes of
  it, on a ledger;
* `Audit.run_eq_ledger` — the report that the ledger holds in the end is the one of the audit.

A ledger has no list of its own for each checker. What makes up for that is the invariant
`Ledger.Holds`: the lists are those of the results so far, followed by what is in the batch.
-/

namespace PackageAudit

/-- A list with an element behind the others, unless it is one of them. -/
def noted {α : Type} [DecidableEq α] (xs : List α) (x : α) : List α :=
  if x ∈ xs then xs else xs ++ [x]

section Noted

variable {α : Type} [DecidableEq α]

theorem noted_eraseDups (xs : List α) (x : α) : noted xs.eraseDups x = (xs ++ [x]).eraseDups := by
  rw [eraseDups_append, noted]
  by_cases hx : x ∈ xs <;> simp [hx, List.eraseDups_cons]

theorem foldl_noted_eraseDups (xs ys : List α) :
    ys.foldl noted xs.eraseDups = (xs ++ ys).eraseDups := by
  induction ys generalizing xs with
  | nil => rw [List.foldl_nil, List.append_nil]
  | cons y ys ih => rw [List.foldl_cons, noted_eraseDups, ih, List.append_assoc, List.singleton_append]

end Noted

/-! ## Ledgers -/

/-- What all checkers have reported so far. -/
structure Ledger where
  /-- What the checker at work has reported. -/
  batch : Batch
  findings : List Finding
  skips : List Skip
  records : List BaselineRecord

namespace Ledger

def empty : Ledger := ⟨.empty, [], [], []⟩

/-- A finding is entered at once, but under no excluded rule and not twice. -/
def addFinding (a : Audit) (l : Ledger) (check : CheckId) (message : String) : Ledger :=
  { l with
    batch := l.batch.addFinding check message
    findings := if a.isExcluded check then l.findings else noted l.findings ⟨check, message⟩ }

/-- A record is entered at once, but not twice. -/
def addRecord (l : Ledger) (name : String) (content : Bytes) : Ledger :=
  { l with
    batch := l.batch.addRecord name content
    records := noted l.records (.of name content) }

/-- Enter what the checker at work has left out. -/
def commit (a : Audit) (l : Ledger) : Ledger :=
  { l with skips := l.skips ++ l.batch.skips.filter fun k => !a.isExcluded k.check }

/-- Fail all rules of the checker at work; what it has left out is not entered. -/
def fail (a : Audit) (l : Ledger) (checks : List CheckId) (message : String) : Ledger :=
  { l with
    findings := ((checks.filter fun check => !a.isExcluded check).map (⟨·, message⟩)).foldl noted
      l.findings }

/-- Leave out the excluded ones of some rules. -/
def exclude (a : Audit) (l : Ledger) (checks : List CheckId) : Ledger :=
  { l with skips := l.skips ++ (checks.filter a.isExcluded).map (⟨·, Audit.excludedReason⟩) }

end Ledger

/-- Do work on a ledger. -/
def Check.enter {α : Type} (a : Audit) (checker : String) (declared : List CheckId) :
    Check α → Ledger → Ledger × Except Stop α
  | .done value, l => (l, .ok value)
  | .stop cause, l => (l, .error cause)
  | .report check message next, l =>
    match l.batch.findingBreach? declared check with
    | some breach =>
      (next (some (.ofBreach checker breach))).enter a checker declared
        { l with batch := l.batch.addBreach breach }
    | none => (next none).enter a checker declared (l.addFinding a check message)
  | .skip check reason next, l =>
    match l.batch.skipBreach? declared check with
    | some breach =>
      (next (some (.ofBreach checker breach))).enter a checker declared
        { l with batch := l.batch.addBreach breach }
    | none =>
      (next none).enter a checker declared { l with batch := l.batch.addSkip check reason }
  | .skipAll reason next, l =>
    (next ()).enter a checker declared { l with batch := l.batch.addSkips declared reason }
  | .record name content next, l =>
    (next ()).enter a checker declared (l.addRecord name content)

/-- Do calls one after the other, until one gives up or breaks the rules of reporting. -/
def Check.enterAll {σ : Type} (a : Audit) (checker : String) (declared : List CheckId) :
    List (σ → Check σ) → σ → Ledger → Ledger × Except Stop σ
  | [], state, l => (l, .ok state)
  | call :: rest, state, l =>
    match (call state).enter a checker declared l with
    | (l, .error cause) => (l, .error cause)
    | (l, .ok state) =>
      if l.batch.breach.isSome then (l, .ok state)
      else enterAll a checker declared rest state l

namespace Checker

/-- All of the work of a checker, which begins with an empty batch. -/
def enter (a : Audit) (c : Checker) (s : Subject) (l : Ledger) : Ledger × Option Stop :=
  match (c.build s).enter a c.name c.checks { l with batch := .empty } with
  | (l, .error cause) => (l, some cause)
  | (l, .ok none) => (l, none)
  | (l, .ok (some state)) =>
    if l.batch.breach.isSome then (l, none)
    else
      match Check.enterAll a c.name c.checks (c.calls s (c.passes state)) state l with
      | (l, .error cause) => (l, some cause)
      | (l, .ok _) => (l, none)

end Checker

namespace Audit

/-- What becomes of the work of a checker. -/
def settle (a : Audit) (c : Checker) (l : Ledger) (stop : Option Stop) :
    Except AuditError Ledger :=
  match l.batch.breach, stop with
  | some breach, _ => .error (.ofBreach c.name breach)
  | none, none => .ok (l.commit a)
  | none, some (.precondition message) => .ok (l.fail a c.checks message)
  | none, some (.contract error) => .error error

/-- The ledger behind one more checker. -/
def enter (a : Audit) (s : Subject) (l : Ledger) (c : Checker) : Except AuditError Ledger :=
  if c.checks.all a.isExcluded then .ok (l.exclude a c.checks)
  else (a.settle c (c.enter a s l).1 (c.enter a s l).2).map (·.exclude a c.checks)

/-- The ledger behind all checkers. -/
def ledger (a : Audit) (s : Subject) : Except AuditError Ledger :=
  a.checkers.foldlM (a.enter s) .empty

/-- The report that a ledger holds. -/
def close (a : Audit) (l : Ledger) : Report where
  checks := a.checkers.flatMap fun c =>
    c.checks.map fun check => ⟨check, c.name, outcomeOf l.findings l.skips check⟩
  findings := l.findings
  skips := l.skips
  baselines := l.records

end Audit

/-! ## What a ledger holds -/

/-- What of a batch is entered before its work is done. -/
def Audit.entered (a : Audit) (b : Batch) : BatchResult where
  findings := b.findings.reverse.filter fun f => !a.isExcluded f.check
  skips := []
  records := b.records.reverse

namespace Ledger

/-- A ledger holds results: what is found or recorded twice stands where it was found first. -/
structure Holds (results : List BatchResult) (l : Ledger) : Prop where
  findings : l.findings = (results.flatMap (·.findings)).eraseDups
  skips : l.skips = results.flatMap (·.skips)
  records : l.records = (results.flatMap (·.records)).eraseDups

/-- A ledger holds results and behind them what the checker at work has reported. -/
def Carries (a : Audit) (results : List BatchResult) (l : Ledger) : Prop :=
  l.Holds (results ++ [a.entered l.batch])

variable {a : Audit} {results : List BatchResult} {l : Ledger}

theorem holds_empty : empty.Holds [] :=
  ⟨rfl, rfl, rfl⟩

theorem Holds.carries (h : l.Holds results) : Carries a results { l with batch := .empty } := by
  constructor
  · simp [h.findings, Audit.entered, Batch.empty]
  · simp [h.skips, Audit.entered]
  · simp [h.records, Audit.entered, Batch.empty]

/-- What a batch knows of skips and breaches is not entered at once. -/
theorem Carries.of_batch (h : l.Carries a results) {b : Batch}
    (hfindings : b.findings = l.batch.findings) (hrecords : b.records = l.batch.records) :
    Carries a results { l with batch := b } := by
  have hentered : a.entered b = a.entered l.batch := by
    rw [Audit.entered, Audit.entered, hfindings, hrecords]
  rw [Carries, hentered]
  exact ⟨h.findings, h.skips, h.records⟩

theorem Carries.addFinding (h : l.Carries a results) (check : CheckId) (message : String) :
    (l.addFinding a check message).Carries a results := by
  constructor
  · rw [Ledger.addFinding]
    cases hexcluded : a.isExcluded check with
    | true => simp [h.findings, Audit.entered, Batch.addFinding, hexcluded]
    | false =>
      rw [h.findings]
      simp [noted_eraseDups, Audit.entered, Batch.addFinding, hexcluded]
  · simpa [Ledger.addFinding, Audit.entered] using h.skips
  · simpa [Ledger.addFinding, Audit.entered, Batch.addFinding] using h.records

theorem Carries.addRecord (h : l.Carries a results) (name : String) (content : Bytes) :
    (l.addRecord name content).Carries a results := by
  constructor
  · simpa [Ledger.addRecord, Audit.entered, Batch.addRecord] using h.findings
  · simpa [Ledger.addRecord, Audit.entered] using h.skips
  · rw [Ledger.addRecord, h.records]
    simp [noted_eraseDups, Audit.entered, Batch.addRecord]

theorem Carries.commit (h : l.Carries a results) :
    (l.commit a).Holds (results ++ [⟨l.batch.findings.reverse.filter fun f => !a.isExcluded f.check,
      l.batch.skips.filter fun k => !a.isExcluded k.check, l.batch.records.reverse⟩]) := by
  constructor
  · simpa [Ledger.commit, Audit.entered] using h.findings
  · rw [Ledger.commit, h.skips]
    simp [Audit.entered]
  · simpa [Ledger.commit, Audit.entered] using h.records

theorem Carries.fail (h : l.Carries a results) (checks : List CheckId) (message : String) :
    (l.fail a checks message).Holds (results ++ [⟨(l.batch.findings.reverse ++
      checks.map (Finding.mk · message)).filter fun f => !a.isExcluded f.check, [],
        l.batch.records.reverse⟩]) := by
  have hfilter : (checks.filter fun check => !a.isExcluded check).map (Finding.mk · message) =
      (checks.map (Finding.mk · message)).filter fun f => !a.isExcluded f.check := by
    rw [List.filter_map]
    rfl
  constructor
  · rw [Ledger.fail, h.findings, foldl_noted_eraseDups, hfilter]
    simp [Audit.entered]
  · simpa [Ledger.fail, Audit.entered] using h.skips
  · simpa [Ledger.fail, Audit.entered] using h.records

theorem Holds.nothing (h : l.Holds results) : l.Holds (results ++ [⟨[], [], []⟩]) := by
  constructor
  · simpa using h.findings
  · simpa using h.skips
  · simpa using h.records

theorem Holds.exclude {r : BatchResult} (h : l.Holds (results ++ [r])) (checks : List CheckId) :
    (l.exclude a checks).Holds (results ++ [{ r with
      skips := r.skips ++ (checks.filter a.isExcluded).map (⟨·, Audit.excludedReason⟩) }]) := by
  constructor
  · simpa [Ledger.exclude] using h.findings
  · rw [Ledger.exclude, h.skips]
    simp
  · simpa [Ledger.exclude] using h.records

end Ledger

/-! ## Work -/

section Work

variable {α σ : Type} {a : Audit} {results : List BatchResult} (checker : String)
  (declared : List CheckId)

theorem Batch.addSkips_eq (b : Batch) (reason : String) :
    (b.addSkips declared reason).findings = b.findings ∧
      (b.addSkips declared reason).records = b.records := by
  rw [Batch.addSkips]
  induction declared generalizing b with
  | nil => exact ⟨rfl, rfl⟩
  | cons check rest ih =>
    rw [List.foldl_cons]
    split
    · exact ih b
    · exact ih (b.addSkip check reason)

/-- Work on a ledger is work on its batch, with what it reports entered at once. -/
theorem Check.enter_eq (m : Check α) {l : Ledger} (h : l.Carries a results) :
    ∃ l', m.enter a checker declared l = (l', (m.perform checker declared l.batch).2) ∧
      l'.batch = (m.perform checker declared l.batch).1 ∧ l'.Carries a results := by
  induction m generalizing l with
  | done value => exact ⟨l, rfl, rfl, h⟩
  | stop cause => exact ⟨l, rfl, rfl, h⟩
  | report check message next ih =>
    rw [enter, perform]
    cases l.batch.findingBreach? declared check with
    | some breach => exact ih _ (h.of_batch rfl rfl)
    | none => exact ih none (h.addFinding check message)
  | skip check reason next ih =>
    rw [enter, perform]
    cases l.batch.skipBreach? declared check with
    | some breach => exact ih _ (h.of_batch rfl rfl)
    | none => exact ih none (h.of_batch rfl rfl)
  | skipAll reason next ih =>
    obtain ⟨hfindings, hrecords⟩ := Batch.addSkips_eq declared l.batch reason
    exact ih () (h.of_batch hfindings hrecords)
  | record name content next ih => exact ih () (h.addRecord name content)

theorem Check.enterAll_eq (tasks : List (σ → Check σ)) (state : σ) {l : Ledger}
    (h : l.Carries a results) :
    ∃ l', enterAll a checker declared tasks state l =
        (l', (performAll checker declared tasks state l.batch).2) ∧
      l'.batch = (performAll checker declared tasks state l.batch).1 ∧ l'.Carries a results := by
  induction tasks generalizing state l with
  | nil => exact ⟨l, rfl, rfl, h⟩
  | cons task tasks ih =>
    obtain ⟨l', hl', hbatch, hcarries⟩ := (task state).enter_eq checker declared h
    rw [enterAll, performAll, hl']
    rcases hperform : (task state).perform checker declared l.batch with ⟨b, cause | next⟩
    · rw [hperform] at hbatch
      exact ⟨l', rfl, hbatch, hcarries⟩
    · rw [hperform] at hbatch
      subst hbatch
      by_cases hbreach : l'.batch.breach.isSome = true
      · exact ⟨l', by simp only [hbreach, if_true], by simp only [hbreach, if_true], hcarries⟩
      · simp only [hbreach, Bool.false_eq_true, if_false]
        exact ih next hcarries

theorem Checker.enter_eq (c : Checker) (s : Subject) {l : Ledger} (h : l.Holds results) :
    ∃ l', c.enter a s l = (l', (c.work s).2) ∧ l'.batch = (c.work s).1 ∧
      l'.Carries a results := by
  obtain ⟨l', hl', hbatch, hcarries⟩ := (c.build s).enter_eq c.name c.checks (h.carries (a := a))
  rw [enter, work, hl']
  rcases hperform : (c.build s).perform c.name c.checks .empty with ⟨b, cause | _ | state⟩
  · rw [hperform] at hbatch
    exact ⟨l', rfl, hbatch, hcarries⟩
  · rw [hperform] at hbatch
    exact ⟨l', rfl, hbatch, hcarries⟩
  · rw [hperform] at hbatch
    subst hbatch
    by_cases hbreach : l'.batch.breach.isSome = true
    · exact ⟨l', by simp only [hbreach, if_true], by simp only [hbreach, if_true], hcarries⟩
    · simp only [hbreach, Bool.false_eq_true, if_false]
      obtain ⟨last, hlast, hbatch, hcarries⟩ := Check.enterAll_eq c.name c.checks
        (c.calls s (c.passes state)) state hcarries
      rw [hlast]
      rcases hall : Check.performAll c.name c.checks (c.calls s (c.passes state)) state
        l'.batch with ⟨b, cause | state⟩
      · exact ⟨last, rfl, by rw [hbatch, hall], hcarries⟩
      · exact ⟨last, rfl, by rw [hbatch, hall], hcarries⟩

end Work

/-! ## Runs -/

/-- There is a ledger that holds the results, or the same error. -/
def Ledger.Meets (y : Except AuditError Ledger) : Except AuditError (List BatchResult) → Prop
  | .ok results => ∃ l : Ledger, y = .ok l ∧ l.Holds results
  | .error e => y = .error e

namespace Audit

variable {a : Audit} {results : List BatchResult} {l : Ledger}

theorem meets_settle (c : Checker) (stop : Option Stop) (h : l.Carries a results) :
    Ledger.Meets ((a.settle c l stop).map (·.exclude a c.checks))
      ((c.conclude l.batch stop).map fun r => results ++ [a.restrict c r]) := by
  cases hbreach : l.batch.breach with
  | some breach =>
    simp only [Checker.conclude, settle, hbreach]
    rfl
  | none =>
    cases stop with
    | none =>
      simp only [Checker.conclude, settle, hbreach]
      exact ⟨_, rfl, h.commit.exclude c.checks⟩
    | some cause =>
      cases cause with
      | precondition message =>
        simp only [Checker.conclude, settle, hbreach]
        exact ⟨_, rfl, (h.fail c.checks message).exclude c.checks⟩
      | contract error =>
        simp only [Checker.conclude, settle, hbreach]
        rfl

/-- A checker adds its result to the ledger, whatever stands there already. -/
theorem meets_enter (s : Subject) (c : Checker) (h : l.Holds results) :
    Ledger.Meets (a.enter s l c) ((a.batch s c).map fun r => results ++ [r]) := by
  rw [batch, enter]
  by_cases hall : c.checks.all a.isExcluded = true
  · rw [if_pos hall, if_pos hall]
    exact ⟨_, rfl, h.nothing.exclude c.checks⟩
  · rw [if_neg hall, if_neg hall]
    obtain ⟨l', hl', hbatch, hcarries⟩ := c.enter_eq (a := a) s h
    have hmeets := meets_settle c (c.work s).2 hcarries
    rw [hl', Checker.audit, ← hbatch]
    cases hconclude : c.conclude l'.batch (c.work s).2 with
    | error e => rwa [hconclude] at hmeets
    | ok r => rwa [hconclude] at hmeets

theorem meets_foldlM (s : Subject) (checkers : List Checker) (h : l.Holds results) :
    Ledger.Meets (checkers.foldlM (a.enter s) l)
      ((checkers.mapM (a.batch s)).map fun rest => results ++ rest) := by
  induction checkers generalizing l results with
  | nil =>
    rw [← List.append_nil results] at h
    exact ⟨l, rfl, h⟩
  | cons c rest ih =>
    have hfirst := meets_enter (a := a) s c h
    rw [List.mapM_cons, List.foldlM_cons]
    cases hbatch : a.batch s c with
    | error e =>
      rw [hbatch] at hfirst
      have henter : a.enter s l c = .error e := hfirst
      rw [henter]
      rfl
    | ok r =>
      rw [hbatch] at hfirst
      obtain ⟨l', henter, hholds⟩ := hfirst
      have hrest := ih hholds
      rw [henter]
      cases hall : rest.mapM (a.batch s) with
      | error e => rwa [hall] at hrest
      | ok rs =>
        rw [hall] at hrest
        obtain ⟨last, hlast, hlastHolds⟩ := hrest
        exact ⟨last, hlast, by simpa using hlastHolds⟩

theorem close_eq_report (h : l.Holds results) : a.close l = a.report results := by
  rw [close, report, h.findings, h.skips, h.records]

/--
An audit reports what its checkers write into one ledger, the first time that they write it: it
makes no difference that they all work on the same lists.
-/
theorem run_eq_ledger (a : Audit) (source : Source) (baselines : Baselines) :
    a.run source baselines = (a.ledger (.of source baselines)).map a.close := by
  have hmeets := meets_foldlM (a := a) (.of source baselines) a.checkers Ledger.holds_empty
  simp only [run, ledger]
  cases hall : a.checkers.mapM (a.batch (.of source baselines)) with
  | error e =>
    rw [hall] at hmeets
    have hledger : a.checkers.foldlM (a.enter (.of source baselines)) .empty = .error e := hmeets
    rw [hledger]
    rfl
  | ok results =>
    rw [hall] at hmeets
    obtain ⟨l, hledger, hholds⟩ := hmeets
    rw [hledger]
    exact congrArg Except.ok (close_eq_report hholds).symm

end Audit

end PackageAudit
