import PackageAudit.Package.Memory
import PackageAudit.Proofs.Audit.Outcome

/-!
# Proofs.Audit.Contract — reports against the rules end a run

A checker may ignore that it was told off, go on reporting, and end in any way. The first call that
it may not make decides all the same: the run ends with it, no further task is begun, and nothing
but such a call or an error of the checker itself keeps a run from its report
(`Audit.first_breach_ends_run`).
-/

namespace PackageAudit

/-! ## Tasks -/

namespace Check

variable {σ : Type} (checker : String) (declared : List CheckId)

/-- Tasks that are not begun do not matter: without them the work is the same. -/
theorem performAll_take (tasks : List (σ → Check σ)) (state : σ) (b : Batch) :
    performAll checker declared
        (tasks.take (logAll checker declared tasks state b).length) state b =
      performAll checker declared tasks state b := by
  induction tasks generalizing state b with
  | nil => rfl
  | cons task rest ih =>
    rw [logAll, List.length_cons, List.take_succ_cons, performAll, performAll]
    rcases (task state).perform checker declared b with ⟨next, cause | state⟩
    · rfl
    · by_cases hbreach : next.breach.isSome
      · -- no further task is begun behind a breach
        simp [hbreach]
      · simp only [hbreach, Bool.false_eq_true, if_false]
        exact ih state next

variable {checker declared}

/-- Only the last task that is begun can break the rules of reporting. -/
theorem breach_replay_logAll {tasks : List (σ → Check σ)} {state : σ} {b : Batch}
    {front : List (List Call)} {last : List Call} (hb : b.breach = none)
    (h : logAll checker declared tasks state b = front ++ [last]) :
    (b.replay declared front.flatten).breach = none := by
  induction tasks generalizing state b front with
  | nil => simp [logAll] at h
  | cons task rest ih =>
    cases front with
    | nil => exact hb
    | cons calls front =>
      have hfirst := perform_eq_replay checker declared (task state) b
      rw [logAll] at h
      obtain ⟨rfl, htail⟩ := List.cons.inj h
      rw [List.flatten_cons, Batch.replay_append, ← hfirst]
      rcases hperform : (task state).perform checker declared b with ⟨next, cause | state⟩
      · simp [hperform] at htail
      · -- the next task is begun, so there was no breach before it
        cases hnext : next.breach with
        | some breach => simp [hperform, hnext] at htail
        | none =>
          simp only [hperform, hnext, Option.isSome_none, Bool.false_eq_true, if_false] at htail
          exact ih hnext htail

end Check

namespace Checker

variable {c : Checker} {s : Subject}

theorem firstBreach?_front {tasks : List (List Call)} {last : List Call}
    (h : c.logs s = tasks ++ [last]) : firstBreach? c.checks tasks.flatten = none := by
  rw [← Batch.breach_replay]
  cases tasks with
  | nil => rfl
  | cons calls front =>
    have hbuild := Check.perform_eq_replay c.name c.checks (c.build s) .empty
    rw [logs] at h
    obtain ⟨rfl, htail⟩ := List.cons.inj h
    rw [List.flatten_cons, Batch.replay_append, ← hbuild]
    rcases hperform : (c.build s).perform c.name c.checks .empty with ⟨b, cause | _ | state⟩
    · simp [hperform] at htail
    · simp [hperform] at htail
    · cases hb : b.breach with
      | some breach => simp [hperform, hb] at htail
      | none =>
        simp only [hperform, hb, Option.isSome_none, Bool.false_eq_true, if_false] at htail
        exact Check.breach_replay_logAll hb htail

/-- The tasks that are begun once a checker is built are all that matter for what it does then. -/
theorem performAll_begun {calls : List Call} {begun : List (List Call)} {state : c.State}
    {b : Batch} (h : c.logs s = calls :: begun)
    (hbuild : (c.build s).perform c.name c.checks .empty = (b, .ok (some state)))
    (hb : b.breach = none) :
    Check.performAll c.name c.checks ((c.calls s (c.passes state)).take begun.length) state b =
      Check.performAll c.name c.checks (c.calls s (c.passes state)) state b := by
  have hbegun : Check.logAll c.name c.checks (c.calls s (c.passes state)) state b = begun := by
    rw [logs, hbuild] at h
    simpa [hb] using (List.cons.inj h).2
  rw [← hbegun]
  exact Check.performAll_take c.name c.checks _ state b

end Checker

/-! ## Runs -/

namespace Audit

/--
A run that ends with a report of a checker against the rules. All calls in tasks before may be made,
and what is not begun does nothing.
-/
structure EndsWith (a : Audit) (source : Source) (baselines : Baselines)
    (before : List Checker) (c : Checker) (after : List Checker) (breach : Breach) : Prop where
  run_eq : a.run source baselines = .error (.contractViolation c.name breach.message)
  after_eq : after = []
  before_legal : ∀ d ∈ before, firstBreach? d.checks (d.log (.of source baselines)) = none
  /-- The report is made in the last task that is begun. -/
  front_legal : ∀ front last, c.logs (.of source baselines) = front ++ [last] →
    firstBreach? c.checks front.flatten = none
  /-- What a checker does once it is built is done in the tasks that are begun. -/
  begun_eq : ∀ calls begun state b, c.logs (.of source baselines) = calls :: begun →
    (c.build (.of source baselines)).perform c.name c.checks .empty = (b, .ok (some state)) →
      b.breach = none →
        Check.performAll c.name c.checks
            ((c.calls (.of source baselines) (c.passes state)).take begun.length) state b =
          Check.performAll c.name c.checks (c.calls (.of source baselines) (c.passes state)) state b

/--
The first call against the rules of reporting ends a run with an error that says what is wrong with
it, whatever the checker makes of it. Where no such call is made, a run without a report is one in
which a checker gave up with the error of the run. Leaving out all remaining rules is no such call,
whatever was called before.
-/
theorem first_breach_ends_run (a : Audit) (source : Source) (baselines : Baselines) :
    let s := Subject.of source baselines
    (∀ before c after breach, a.atWork s = before ++ c :: after →
      firstBreach? c.checks (c.log s) = some breach →
        a.EndsWith source baselines before c after breach) ∧
      ((∀ c ∈ a.atWork s, firstBreach? c.checks (c.log s) = none) →
        ∀ e, a.run source baselines = .error e →
          ∃ before c, a.atWork s = before ++ [c] ∧ c.ending s = some (.contract e)) ∧
      ∀ declared past reason front call back,
        (Batch.empty.replay declared past).restCalls reason declared = front ++ call :: back →
          call.breach? declared (past ++ front) = none := by
  intro s
  refine ⟨?_, ?_, ?_⟩
  · intro before c after breach hwork hbreach
    obtain ⟨hrun, hafter, hbefore⟩ := run_of_error hwork (Checker.audit_of_breach hbreach)
    constructor
    · exact hrun
    · exact hafter
    · intro d hd
      obtain ⟨result, hresult⟩ := hbefore d hd
      exact (Checker.audit_eq_ok hresult).1
    · intro front last hlogs
      exact Checker.firstBreach?_front hlogs
    · intro calls begun state b hlogs hbuild hb
      exact Checker.performAll_begun hlogs hbuild hb
  · intro hlegal e hrun
    obtain ⟨before, c, hwork, hc⟩ := run_eq_error hrun
    have hmem : c ∈ a.atWork s := by
      rw [hwork]
      exact List.mem_append_right before List.mem_cons_self
    exact ⟨before, c, hwork, Checker.audit_eq_error (hlegal c hmem) hc⟩
  · intro declared past reason front call back h
    exact Batch.breach?_restCalls reason (List.Subset.refl declared) h

/-- A checker that reports under a rule of another one, and takes no notice of the answer. -/
def stubborn : Checker :=
  .single "stubborn" [⟨"TST-001-1"⟩] fun _ =>
    .report ⟨"TST-999-1"⟩ "found" fun _ => .stop (.precondition "missing")

theorem first_breach_ends_run_stubborn :
    (Audit.mk [stubborn] []).run MemoryPackage.empty.source .offline =
      .error (.contractViolation "stubborn"
        "reported a finding under undeclared check TST-999-1") := by
  obtain ⟨hbreach, -⟩ := first_breach_ends_run ⟨[stubborn], []⟩ MemoryPackage.empty.source
    .offline
  exact (hbreach [] stubborn [] (.undeclaredFinding ⟨"TST-999-1"⟩) rfl rfl).run_eq

end Audit

end PackageAudit
