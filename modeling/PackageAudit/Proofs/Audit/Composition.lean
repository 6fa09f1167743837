import PackageAudit.Proofs.Audit.Report

/-!
# Proofs.Audit.Composition — audits one after the other

No checker can tell which other checkers are part of an audit. So the audit by some checkers and
then by others is the two audits put together (`Audit.run_append`):

* `Report.append` — two reports as one;
* `Audit.batch_congr` — the result of a checker depends on the exclusion of its own rules only;
* `Audit.report_append` — results under different rules can be reported apart.

What carries this is that no rule has two owners: a repeated finding is one of a single checker, and
the outcome of a rule says nothing about other checkers. Records have no owners, so one that both
audits make counts once. That the checkers share the lists of the report makes no difference either
(`Audit.run_eq_ledger`).
-/

namespace PackageAudit

/-- Two reports as one; a record of both counts once. -/
def Report.append (r t : Report) : Report where
  checks := r.checks ++ t.checks
  findings := r.findings ++ t.findings
  skips := r.skips ++ t.skips
  baselines := r.baselines ++ t.baselines.filter (· ∉ r.baselines)

namespace Audit

/-! ## One checker in two audits -/

section Congr

variable {a b : Audit} {s : Subject} {c : Checker}

theorem restrict_congr {r : BatchResult}
    (h : ∀ check ∈ c.checks, a.isExcluded check = b.isExcluded check)
    (hfindings : ∀ f ∈ r.findings, f.check ∈ c.checks)
    (hskips : ∀ k ∈ r.skips, k.check ∈ c.checks) : a.restrict c r = b.restrict c r := by
  have hfilter : r.findings.filter (fun f => !a.isExcluded f.check) =
      r.findings.filter fun f => !b.isExcluded f.check :=
    List.filter_congr fun f hf => by rw [h f.check (hfindings f hf)]
  have hkeep : r.skips.filter (fun k => !a.isExcluded k.check) =
      r.skips.filter fun k => !b.isExcluded k.check :=
    List.filter_congr fun k hk => by rw [h k.check (hskips k hk)]
  have hleave : c.checks.filter a.isExcluded = c.checks.filter b.isExcluded :=
    List.filter_congr h
  rw [restrict, restrict, hfilter, hkeep, hleave]

/-- Of the exclusions, a checker has to do with those of its own rules only. -/
theorem batch_congr (h : ∀ check ∈ c.checks, a.isExcluded check = b.isExcluded check) :
    a.batch s c = b.batch s c := by
  have hall : c.checks.all a.isExcluded = c.checks.all b.isExcluded := by
    rw [Bool.eq_iff_iff, List.all_eq_true, List.all_eq_true]
    exact forall₂_congr fun check hcheck => by rw [h check hcheck]
  have hnone : a.restrict c ⟨[], [], []⟩ = b.restrict c ⟨[], [], []⟩ :=
    restrict_congr h (by simp) (by simp)
  rw [batch, batch, hall, hnone]
  split
  · rfl
  · cases haudit : c.audit s with
    | error e => rfl
    | ok r =>
      obtain ⟨hlegal, rfl⟩ := Checker.audit_eq_ok haudit
      have hfits := fits_history hlegal
      exact congrArg Except.ok
        (restrict_congr h (fun f hf => (hfits.finding_mem f hf).1) hfits.skip_mem)

theorem mapM_batch_congr {checkers : List Checker}
    (h : ∀ c ∈ checkers, a.batch s c = b.batch s c) :
    checkers.mapM (a.batch s) = checkers.mapM (b.batch s) := by
  induction checkers with
  | nil => rfl
  | cons c rest ih =>
    rw [List.forall_mem_cons] at h
    rw [List.mapM_cons, List.mapM_cons, h.1, ih h.2]

end Congr

/-! ## Two results as one -/

section Append

variable {findings findings' : List Finding} {skips skips' : List Skip} {check : CheckId}

theorem outcomeOf_append_left (hfindings : ∀ f ∈ findings', f.check ≠ check)
    (hskips : ∀ k ∈ skips', k.check ≠ check) :
    outcomeOf (findings ++ findings') (skips ++ skips') check = outcomeOf findings skips check := by
  have hno : findings'.any (·.check == check) = false := by simpa using hfindings
  have hnone : skips'.any (·.check == check) = false := by simpa using hskips
  simp only [outcomeOf, List.any_append, hno, hnone, Bool.or_false]

theorem outcomeOf_append_right (hfindings : ∀ f ∈ findings, f.check ≠ check)
    (hskips : ∀ k ∈ skips, k.check ≠ check) :
    outcomeOf (findings ++ findings') (skips ++ skips') check =
      outcomeOf findings' skips' check := by
  have hno : findings.any (·.check == check) = false := by simpa using hfindings
  have hnone : skips.any (·.check == check) = false := by simpa using hskips
  simp only [outcomeOf, List.any_append, hno, hnone, Bool.false_or]

variable {a a₁ a₂ : Audit} {results results' : List BatchResult}

/-- Results under different rules can be reported apart. -/
theorem report_append (hcheckers : a.checkers = a₁.checkers ++ a₂.checkers)
    (hdisjoint : a₁.checks.Disjoint a₂.checks)
    (h₁ : Fits a₁.isExcluded a₁.checks (results.flatMap (·.findings)) (results.flatMap (·.skips)))
    (h₂ : Fits a₂.isExcluded a₂.checks (results'.flatMap (·.findings))
      (results'.flatMap (·.skips))) :
    a.report (results ++ results') = (a₁.report results).append (a₂.report results') := by
  -- no finding and no skip of either audit is about a rule of the other
  have hfindings₁ : ∀ f ∈ (results.flatMap (·.findings)).eraseDups, f.check ∈ a₁.checks :=
    fun f hf => (h₁.finding_mem f (List.mem_eraseDups.1 hf)).1
  have hfindings₂ : ∀ f ∈ (results'.flatMap (·.findings)).eraseDups, f.check ∈ a₂.checks :=
    fun f hf => (h₂.finding_mem f (List.mem_eraseDups.1 hf)).1
  have hfindings :
      (results.flatMap (·.findings) ++ results'.flatMap (·.findings)).eraseDups =
        (results.flatMap (·.findings)).eraseDups ++ (results'.flatMap (·.findings)).eraseDups :=
    eraseDups_append_of_disjoint fun f hf hf' =>
      hdisjoint (h₁.finding_mem f hf).1 (h₂.finding_mem f hf').1
  have hchecks₁ : ∀ c ∈ a₁.checkers, ∀ check ∈ c.checks, check ∈ a₁.checks :=
    fun c hc check hcheck => List.mem_flatMap.2 ⟨c, hc, hcheck⟩
  have hchecks₂ : ∀ c ∈ a₂.checkers, ∀ check ∈ c.checks, check ∈ a₂.checks :=
    fun c hc check hcheck => List.mem_flatMap.2 ⟨c, hc, hcheck⟩
  simp only [report, Report.append, Report.mk.injEq, hcheckers, List.flatMap_append, hfindings,
    eraseDups_append, true_and]
  refine ⟨?_, rfl⟩
  congr 1
  · refine List.flatMap_congr fun c hc => List.map_congr_left fun check hcheck => ?_
    rw [outcomeOf_append_left]
    · rintro f hf rfl
      exact hdisjoint (hchecks₁ c hc _ hcheck) (hfindings₂ f hf)
    · rintro k hk rfl
      exact hdisjoint (hchecks₁ c hc _ hcheck) (h₂.skip_mem k hk)
  · refine List.flatMap_congr fun c hc => List.map_congr_left fun check hcheck => ?_
    rw [outcomeOf_append_right]
    · rintro f hf rfl
      exact hdisjoint (hfindings₁ f hf) (hchecks₂ c hc _ hcheck)
    · rintro k hk rfl
      exact hdisjoint (h₁.skip_mem k hk) (hchecks₂ c hc _ hcheck)

end Append

/-! ## Two audits as one -/

/-- If all checkers of an audit have results, these fit its rules. -/
theorem fits_of_mapM_batch {a : Audit} {s : Subject} {results : List BatchResult}
    (hnodup : a.checks.Nodup) (h : a.checkers.mapM (a.batch s) = .ok results) :
    Fits a.isExcluded a.checks (results.flatMap (·.findings)) (results.flatMap (·.skips)) := by
  rcases a.mapM_batch_cases s a.checkers with ⟨hall, -, hok⟩ | ⟨-, -, e, -, -, hall, -⟩
  · rw [hall] at h
    obtain rfl := Except.ok.inj h
    rw [List.flatMap_map, List.flatMap_map]
    refine fits_contributions hnodup fun c hc hinv => ?_
    obtain ⟨result, hresult⟩ := hok c (List.mem_filter.2 ⟨hc, hinv⟩)
    exact (Checker.audit_eq_ok hresult).1
  · rw [hall] at h
    cases h

theorem run_eq_bind {a a₁ a₂ : Audit} (hcheckers : a.checkers = a₁.checkers ++ a₂.checkers)
    (hnodup : a.checks.Nodup) (h₁ : ∀ s, ∀ c ∈ a₁.checkers, a.batch s c = a₁.batch s c)
    (h₂ : ∀ s, ∀ c ∈ a₂.checkers, a.batch s c = a₂.batch s c) (source : Source)
    (baselines : Baselines) :
    a.run source baselines = do
      let r ← a₁.run source baselines
      let t ← a₂.run source baselines
      return r.append t := by
  have hchecks : a.checks = a₁.checks ++ a₂.checks := by
    simp only [checks, hcheckers, List.flatMap_append]
  rw [hchecks] at hnodup
  simp only [run, hcheckers]
  rw [List.mapM_append, mapM_batch_congr (h₁ _), mapM_batch_congr (h₂ _)]
  cases hfirst : a₁.checkers.mapM (a₁.batch (.of source baselines)) with
  | error e => rfl
  | ok results =>
    cases hsecond : a₂.checkers.mapM (a₂.batch (.of source baselines)) with
    | error e => rfl
    | ok results' =>
      exact congrArg Except.ok (report_append hcheckers (List.disjoint_of_nodup_append hnodup)
        (fits_of_mapM_batch hnodup.of_append_left hfirst)
        (fits_of_mapM_batch hnodup.of_append_right hsecond))

/-- Each part of an acceptable registry is one. -/
theorem Acceptable.of_append {before after : List Checker} (h : Acceptable (before ++ after)) :
    Acceptable before ∧ Acceptable after := by
  obtain ⟨hne, hwf, hnodup⟩ := h
  rw [List.flatMap_append] at hwf hnodup
  rw [List.forall_mem_append] at hne hwf
  exact ⟨⟨hne.1, hwf.1, hnodup.of_append_left⟩, ⟨hne.2, hwf.2, hnodup.of_append_right⟩⟩

/-- Those of some names that are names of rules of some checkers. -/
def namesOf (checkers : List Checker) (names : List String) : List String :=
  names.filter fun name => ⟨name⟩ ∈ checkers.flatMap (·.checks)

theorem exclude_namesOf (checkers : List Checker) (names : List String) :
    (Audit.mk checkers []).exclude (namesOf checkers names) =
      .ok ⟨checkers, (namesOf checkers names).map CheckId.mk⟩ := by
  rw [exclude_eq_ok_iff]
  refine ⟨fun name hname => ?_, rfl⟩
  exact of_decide_eq_true (List.mem_filter.1 hname).2

/-- To a checker, names of rules of others make no difference. -/
theorem batch_namesOf (all : List Checker) (names : List String) (s : Subject)
    {checkers : List Checker} {c : Checker} (hc : c ∈ checkers) :
    (Audit.mk all (names.map CheckId.mk)).batch s c =
      (Audit.mk checkers ((namesOf checkers names).map CheckId.mk)).batch s c := by
  refine batch_congr fun check hcheck => ?_
  have hmem : (⟨check.text⟩ : CheckId) ∈ checkers.flatMap (·.checks) :=
    List.mem_flatMap.2 ⟨c, hc, hcheck⟩
  rw [Bool.eq_iff_iff, isExcluded_iff, isExcluded_iff, namesOf, List.mem_filter,
    decide_eq_true_iff]
  exact (and_iff_left hmem).symm

/--
The audit by some checkers and then by others is the audit by the ones and then the audit by the
others, each with those of its rules left out that the whole leaves out. If both have reports, these
are put together; otherwise the first error is that of the whole. Each checker has the same result
in its part as in the whole.
-/
theorem run_append {before after : List Checker} {names : List String} {base a : Audit}
    (hcheckers : ofCheckers (before ++ after) = .ok base) (hexclude : base.exclude names = .ok a) :
    ∃ base₁ a₁ base₂ a₂,
      ofCheckers before = .ok base₁ ∧ base₁.exclude (namesOf before names) = .ok a₁ ∧
      ofCheckers after = .ok base₂ ∧ base₂.exclude (namesOf after names) = .ok a₂ ∧
      (∀ s, ∀ c ∈ before, a.batch s c = a₁.batch s c) ∧
      (∀ s, ∀ c ∈ after, a.batch s c = a₂.batch s c) ∧
      ∀ source baselines, a.run source baselines = do
        let r ← a₁.run source baselines
        let t ← a₂.run source baselines
        return r.append t := by
  obtain ⟨haccept, -, rfl⟩ := eq_of_exclude_ofCheckers hcheckers hexclude
  obtain ⟨hbefore, hafter⟩ := haccept.of_append
  have hfirst := fun s c (hc : c ∈ before) => batch_namesOf (before ++ after) names s hc
  have hsecond := fun s c (hc : c ∈ after) => batch_namesOf (before ++ after) names s hc
  exact ⟨_, _, _, _, ofCheckers_eq_ok_iff.2 ⟨hbefore, rfl⟩, exclude_namesOf before names,
    ofCheckers_eq_ok_iff.2 ⟨hafter, rfl⟩, exclude_namesOf after names, hfirst, hsecond,
    run_eq_bind rfl haccept.nodup hfirst hsecond⟩

/-- The second of these checkers gives up, which is nothing to the first. -/
theorem run_append_repeating_needy :
    ∃ base a, ofCheckers ([repeating] ++ [needy]) = .ok base ∧ base.exclude ["TST-004-1"] = .ok a ∧
      ∃ base₁ a₁ base₂ a₂,
        ofCheckers [repeating] = .ok base₁ ∧ base₁.exclude [] = .ok a₁ ∧
        ofCheckers [needy] = .ok base₂ ∧ base₂.exclude ["TST-004-1"] = .ok a₂ ∧
        ∀ source baselines, a.run source baselines = do
          let r ← a₁.run source baselines
          let t ← a₂.run source baselines
          return r.append t := by
  have hcheckers : ofCheckers ([repeating] ++ [needy]) = .ok ⟨[repeating, needy], []⟩ := rfl
  have hexclude : (Audit.mk [repeating, needy] []).exclude ["TST-004-1"] =
      .ok ⟨[repeating, needy], [⟨"TST-004-1"⟩]⟩ := rfl
  obtain ⟨base₁, a₁, base₂, a₂, h₁, hexclude₁, h₂, hexclude₂, -, -, hrun⟩ :=
    run_append hcheckers hexclude
  exact ⟨_, _, hcheckers, hexclude, base₁, a₁, base₂, a₂, h₁, hexclude₁, h₂, hexclude₂, hrun⟩

end Audit

end PackageAudit
