import PackageAudit.Proofs.Audit.Replay

/-!
# Proofs.Audit.Outcome — what becomes of the work of checkers

The result of a checker is read off its history: off its calls and off the way it ended
(`Checker.audit_eq_ok`, `Checker.audit_eq_error`). The result of a run is that of the checkers at
work: all of them together, or the error of the last one (`Audit.run_cases`).
-/

namespace PackageAudit

/-! ## One checker -/

namespace Checker

variable (c : Checker) (s : Subject)

/-- The findings that the history of a checker amounts to. -/
def reported : List Finding :=
  (c.log s).filterMap Call.finding? ++
    match c.ending s with
    | some (.precondition message) => c.checks.map (⟨·, message⟩)
    | _ => []

/-- The rules that a checker leaves out in the end: none if it gave up. -/
def leftOut : List Skip :=
  match c.ending s with
  | some (.precondition _) => []
  | _ => (c.log s).filterMap Call.skip?

/-- The contents that a checker relied on. -/
def recorded : List BaselineRecord :=
  (c.log s).filterMap Call.record?

theorem breach_work : (c.work s).1.breach = firstBreach? c.checks (c.log s) := by
  rw [work_eq_replay, Batch.breach_replay]

variable {c s}

theorem audit_of_breach {breach : Breach} (h : firstBreach? c.checks (c.log s) = some breach) :
    c.audit s = .error (.contractViolation c.name breach.message) := by
  have hbreach : (c.work s).1.breach = some breach := by rw [breach_work, h]
  simp only [audit, conclude, hbreach]
  rfl

/-- Without a breach, only a checker that gives up with an error has no result. -/
theorem audit_of_legal (h : firstBreach? c.checks (c.log s) = none) :
    c.audit s =
      match c.ending s with
      | some (.contract error) => .error error
      | _ => .ok ⟨c.reported s, c.leftOut s, c.recorded s⟩ := by
  have hbatch : (c.work s).1.Reflects (c.log s) := by
    rw [work_eq_replay]
    exact Batch.reflects_replay h
  unfold audit conclude reported leftOut recorded ending
  rw [hbatch.breach, hbatch.findings, hbatch.skips, hbatch.records]
  rcases (c.work s).2 with _ | message | error
  · simp
  · simp
  · simp

theorem audit_eq_ok {r : BatchResult} (h : c.audit s = .ok r) :
    firstBreach? c.checks (c.log s) = none ∧ r = ⟨c.reported s, c.leftOut s, c.recorded s⟩ := by
  cases hfirst : firstBreach? c.checks (c.log s) with
  | some breach =>
    rw [audit_of_breach hfirst] at h
    cases h
  | none =>
    rw [audit_of_legal hfirst] at h
    refine ⟨rfl, ?_⟩
    split at h
    · cases h
    · exact (Except.ok.inj h).symm

theorem audit_eq_error {e : AuditError} (hlegal : firstBreach? c.checks (c.log s) = none)
    (h : c.audit s = .error e) : c.ending s = some (.contract e) := by
  rw [audit_of_legal hlegal] at h
  split at h
  · next error hending =>
    cases h
    exact hending
  · cases h

end Checker

/-! ## All checkers -/

namespace Audit

variable (a : Audit) (s : Subject)

/-- What a checker contributes to a report. -/
def contribution (c : Checker) : BatchResult :=
  a.restrict c (if a.involves c then ⟨c.reported s, c.leftOut s, c.recorded s⟩ else ⟨[], [], []⟩)

variable {a s}

theorem batch_of_involves {c : Checker} (h : a.involves c = true) :
    a.batch s c = (c.audit s).map (a.restrict c) := by
  have hall : c.checks.all a.isExcluded = false := by simpa [involves] using h
  simp [batch, hall]

theorem batch_of_not_involves {c : Checker} (h : a.involves c = false) :
    a.batch s c = .ok (a.restrict c ⟨[], [], []⟩) := by
  have hall : c.checks.all a.isExcluded = true := by simpa [involves] using h
  simp [batch, hall]

theorem contribution_of_not_involves {c : Checker} (h : a.involves c = false) :
    a.contribution s c = a.restrict c ⟨[], [], []⟩ := by
  simp [contribution, h]

theorem contribution_of_audit {c : Checker} {result : BatchResult} (hinv : a.involves c = true)
    (haudit : c.audit s = .ok result) : a.contribution s c = a.restrict c result := by
  rw [contribution, hinv, if_pos rfl, ← (Checker.audit_eq_ok haudit).2]

variable (a s)

/-- Either all checkers at work have results, or the last one has none. -/
theorem mapM_batch_cases (checkers : List Checker) :
    (checkers.mapM (a.batch s) = .ok (checkers.map (a.contribution s)) ∧
      a.atWorkAmong s checkers = checkers.filter a.involves ∧
      ∀ c ∈ checkers.filter a.involves, ∃ result, c.audit s = .ok result) ∨
    ∃ before c e, a.atWorkAmong s checkers = before ++ [c] ∧ c.audit s = .error e ∧
      checkers.mapM (a.batch s) = .error e ∧ ∀ d ∈ before, ∃ result, d.audit s = .ok result := by
  induction checkers with
  | nil => exact .inl ⟨rfl, rfl, by simp⟩
  | cons c rest ih =>
    rw [List.mapM_cons]
    cases hinv : a.involves c with
    | false =>
      rw [batch_of_not_involves hinv]
      rcases ih with ⟨hall, hwork, hok⟩ | ⟨before, last, e, hwork, hlast, hall, hok⟩
      · refine .inl ⟨?_, by simp [atWorkAmong, hinv, hwork], by simpa [hinv] using hok⟩
        rw [hall, List.map_cons, contribution_of_not_involves hinv]
        rfl
      · refine .inr ⟨before, last, e, by simp [atWorkAmong, hinv, hwork], hlast, ?_, hok⟩
        rw [hall]
        rfl
    | true =>
      rw [batch_of_involves hinv]
      cases haudit : c.audit s with
      | error e =>
        -- the first checker without a result is the last one at work
        exact .inr ⟨[], c, e, by simp [atWorkAmong, hinv, haudit], haudit, rfl, by simp⟩
      | ok result =>
        rcases ih with ⟨hall, hwork, hok⟩ | ⟨before, last, e, hwork, hlast, hall, hok⟩
        · refine .inl ⟨?_, by simp [atWorkAmong, hinv, haudit, hwork], ?_⟩
          · rw [hall, List.map_cons, contribution_of_audit hinv haudit]
            rfl
          · rw [List.filter_cons_of_pos hinv, List.forall_mem_cons]
            exact ⟨⟨result, haudit⟩, hok⟩
        · have hcons : a.atWorkAmong s (c :: rest) = (c :: before) ++ [last] := by
            simp [atWorkAmong, hinv, haudit, hwork]
          refine .inr ⟨c :: before, last, e, hcons, hlast, ?_, ?_⟩
          · rw [hall]
            rfl
          · rw [List.forall_mem_cons]
            exact ⟨⟨result, haudit⟩, hok⟩

variable (source : Source) (baselines : Baselines)

/-- The result of a run is that of all checkers together, or the error of the last one at work. -/
theorem run_cases :
    (a.run source baselines =
        .ok (a.report (a.checkers.map (a.contribution (.of source baselines)))) ∧
      a.atWork (.of source baselines) = a.checkers.filter a.involves ∧
      ∀ c ∈ a.checkers.filter a.involves, ∃ result, c.audit (.of source baselines) = .ok result) ∨
    ∃ before c e, a.atWork (.of source baselines) = before ++ [c] ∧
      c.audit (.of source baselines) = .error e ∧ a.run source baselines = .error e ∧
      ∀ d ∈ before, ∃ result, d.audit (.of source baselines) = .ok result := by
  rcases a.mapM_batch_cases (.of source baselines) a.checkers with
    ⟨hall, hwork, hok⟩ | ⟨before, c, e, hwork, hc, hall, hok⟩
  · exact .inl ⟨by simp only [run, hall]; rfl, hwork, hok⟩
  · exact .inr ⟨before, c, e, hwork, hc, by simp only [run, hall]; rfl, hok⟩

variable {a source baselines}

theorem run_eq_ok {r : Report} (h : a.run source baselines = .ok r) :
    r = a.report (a.checkers.map (a.contribution (.of source baselines))) ∧
      ∀ c ∈ a.checkers, a.involves c = true →
        firstBreach? c.checks (c.log (.of source baselines)) = none := by
  rcases a.run_cases source baselines with ⟨hrun, -, hok⟩ | ⟨-, -, e, -, -, hrun, -⟩
  · rw [hrun] at h
    refine ⟨(Except.ok.inj h).symm, ?_⟩
    intro c hc hinv
    obtain ⟨result, hresult⟩ := hok c (List.mem_filter.2 ⟨hc, hinv⟩)
    exact (Checker.audit_eq_ok hresult).1
  · rw [hrun] at h
    cases h

/-- A run without a report is one of a checker without a result, the last one at work. -/
theorem run_eq_error {e : AuditError} (h : a.run source baselines = .error e) :
    ∃ before c, a.atWork (.of source baselines) = before ++ [c] ∧
      c.audit (.of source baselines) = .error e := by
  rcases a.run_cases source baselines with ⟨hrun, -, -⟩ | ⟨before, c, e', hwork, hc, hrun, -⟩
  · rw [hrun] at h
    cases h
  · rw [hrun] at h
    cases h
    exact ⟨before, c, hwork, hc⟩

/-- The checkers at work end with the first that has no result. -/
theorem run_of_error {before after : List Checker} {c : Checker} {e : AuditError}
    (hwork : a.atWork (.of source baselines) = before ++ c :: after)
    (hc : c.audit (.of source baselines) = .error e) :
    a.run source baselines = .error e ∧ after = [] ∧
      ∀ d ∈ before, ∃ result, d.audit (.of source baselines) = .ok result := by
  have hnot : ¬ ∃ result, c.audit (.of source baselines) = .ok result := by
    rintro ⟨result, hresult⟩
    rw [hc] at hresult
    cases hresult
  rcases a.run_cases source baselines with
    ⟨-, hfilter, hok⟩ | ⟨front, last, e', hfront, hlast, hrun, hok⟩
  · refine absurd (hok c ?_) hnot
    rw [← hfilter, hwork]
    exact List.mem_append_right before List.mem_cons_self
  · rw [hwork] at hfront
    cases after using List.reverseRecOn with
    | nil =>
      obtain ⟨rfl, hsame⟩ := List.append_inj' hfront rfl
      cases hsame
      rw [hc] at hlast
      cases hlast
      exact ⟨hrun, rfl, hok⟩
    | append_singleton after other =>
      -- then the checker stands among those that have results
      rw [← List.cons_append, ← List.append_assoc] at hfront
      obtain ⟨rfl, -⟩ := List.append_inj' hfront rfl
      exact absurd (hok c (List.mem_append_right before List.mem_cons_self)) hnot

end Audit

end PackageAudit
