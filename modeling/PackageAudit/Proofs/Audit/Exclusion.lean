import PackageAudit.Proofs.Audit.Report

/-!
# Proofs.Audit.Exclusion — rules that are left out, and all others

A checker cannot tell which of its rules are excluded. As long as it has one that is not, it does
all of its work, and what an exclusion then takes out of the report is what lies under the excluded
rules (`Audit.run_exclude`):

* `Report.Excluding` — a report is another one without the rules of some names;
* `Audit.run_eq_error_congr` — audits that set the same checkers to work fail in the same way;
* `Audit.excluding_reportOf` — the reports on the same work, with and without exclusions.
-/

namespace PackageAudit

/-- A report is another one but for the rules of some names, which are left out. -/
structure Report.Excluding (names : List String) (r r' : Report) : Prop where
  findings_eq : r'.findings = r.findings.filter (·.check.text ∉ names)
  skips_eq : r'.skips.filter (·.check.text ∉ names) = r.skips.filter (·.check.text ∉ names)
  /-- All other rules have the outcomes that they had. -/
  checks_eq : r'.checks.filter (·.check.text ∉ names) = r.checks.filter (·.check.text ∉ names)
  baselines_eq : r'.baselines = r.baselines
  /-- A rule that is left out has one skip, which says so. -/
  excluded_skip : ∀ name ∈ names,
    r'.skips.filter (·.check = ⟨name⟩) = [⟨⟨name⟩, "excluded by configuration"⟩]

namespace Audit

/-! ## The same work -/

section Congr

variable {a b : Audit} {s : Subject}

theorem atWorkAmong_congr {checkers : List Checker}
    (h : ∀ c ∈ checkers, a.involves c = b.involves c) :
    a.atWorkAmong s checkers = b.atWorkAmong s checkers := by
  induction checkers with
  | nil => rfl
  | cons c rest ih =>
    rw [List.forall_mem_cons] at h
    rw [atWorkAmong, atWorkAmong, h.1, ih h.2]

variable {source : Source} {baselines : Baselines} {e : AuditError}

theorem run_eq_error_of_atWork (h : a.atWork (.of source baselines) = b.atWork (.of source baselines))
    (hrun : a.run source baselines = .error e) : b.run source baselines = .error e := by
  obtain ⟨before, c, hwork, hc⟩ := run_eq_error hrun
  exact (run_of_error (h ▸ hwork) hc).1

/-- Whether a run fails, and how, is a matter of the checkers that are set to work. -/
theorem run_eq_error_congr (hcheckers : a.checkers = b.checkers)
    (h : ∀ c ∈ b.checkers, a.involves c = b.involves c) :
    a.run source baselines = .error e ↔ b.run source baselines = .error e := by
  have hwork : a.atWork (.of source baselines) = b.atWork (.of source baselines) := by
    rw [atWork, atWork, hcheckers, atWorkAmong_congr h]
  exact ⟨run_eq_error_of_atWork hwork, run_eq_error_of_atWork hwork.symm⟩

end Congr

/-! ## Reports on the same work -/

section Reports

variable {findings : List Finding} {skips : List Skip} {check : CheckId}

/-- The outcome of a rule is about its own findings and skips. -/
theorem outcomeOf_filter {kept : CheckId → Bool} (h : kept check = true) :
    outcomeOf (findings.filter fun f => kept f.check) (skips.filter fun k => kept k.check) check =
      outcomeOf findings skips check := by
  have hcheck : ∀ other, (kept other && other == check) = (other == check) := by
    intro other
    cases hother : other == check with
    | false => simp
    | true => rw [beq_iff_eq.1 hother, h]; rfl
  simp only [outcomeOf, List.any_filter, hcheck]

theorem filter_eq_singleton_of_mem {k : Skip} (hnodup : (skips.map (·.check)).Nodup)
    (hmem : k ∈ skips) : skips.filter (·.check = k.check) = [k] := by
  rw [← List.perm_singleton, List.perm_ext_iff_of_nodup (hnodup.of_map.filter _)
    (List.nodup_singleton k)]
  intro l
  rw [List.mem_filter, List.mem_singleton, decide_eq_true_iff]
  constructor
  · rintro ⟨hl, hcheck⟩
    exact List.inj_on_of_nodup_map hnodup hl hmem hcheck
  · rintro rfl
    exact ⟨hmem, rfl⟩

end Reports

section ReportOf

variable {checkers : List Checker} {names : List String} {s : Subject}

theorem isExcluded_eq_decide (checkers : List Checker) (names : List String) (check : CheckId) :
    isExcluded ⟨checkers, names.map CheckId.mk⟩ check = decide (check.text ∈ names) := by
  rw [Bool.eq_iff_iff, isExcluded_iff, decide_eq_true_iff]

/-- The report on a package, if all checkers have results and rules of some names are left out. -/
def reportOf (checkers : List Checker) (names : List String) (s : Subject) : Report :=
  let a : Audit := ⟨checkers, names.map CheckId.mk⟩
  a.report (checkers.map (a.contribution s))

/-- Every checker has a rule that is not left out. -/
def SomeLeft (checkers : List Checker) (names : List String) : Prop :=
  ∀ c ∈ checkers, ∃ check ∈ c.checks, check.text ∉ names

theorem SomeLeft.none (h : SomeLeft checkers names) : SomeLeft checkers [] := by
  intro c hc
  obtain ⟨check, hcheck, -⟩ := h c hc
  exact ⟨check, hcheck, List.not_mem_nil⟩

theorem SomeLeft.involves (h : SomeLeft checkers names) :
    ∀ c ∈ checkers, Audit.involves ⟨checkers, names.map CheckId.mk⟩ c = true := by
  intro c hc
  obtain ⟨check, hcheck, htext⟩ := h c hc
  rw [Audit.involves, Bool.not_eq_true', List.all_eq_false]
  exact ⟨check, hcheck, by simpa [isExcluded_eq_decide] using htext⟩

theorem findings_reportOf (h : SomeLeft checkers names) :
    (reportOf checkers names s).findings =
      (checkers.flatMap fun c => c.reported s).eraseDups.filter (·.check.text ∉ names) := by
  rw [← filter_eraseDups, List.filter_flatMap]
  simp only [reportOf, report, List.flatMap_map, findings_contribution,
    List.filter_eq_self.2 h.involves, isExcluded_eq_decide, decide_not]

theorem skips_reportOf (h : SomeLeft checkers names) :
    (reportOf checkers names s).skips.filter (·.check.text ∉ names) =
      (checkers.flatMap fun c => c.leftOut s).filter (·.check.text ∉ names) := by
  have hskips := skips_contribution (a := ⟨checkers, names.map CheckId.mk⟩) s checkers
  simp only [List.filter_eq_self.2 h.involves, isExcluded_eq_decide] at hskips
  rw [List.filter_flatMap]
  simp only [reportOf, report, List.flatMap_map, decide_not, hskips]

theorem baselines_reportOf (h : SomeLeft checkers names) :
    (reportOf checkers names s).baselines = (checkers.flatMap fun c => c.recorded s).eraseDups := by
  simp only [reportOf, report, List.flatMap_map]
  refine congrArg List.eraseDups (List.flatMap_congr fun c hc => ?_)
  simp [contribution, restrict, h.involves c hc]

/-- Reports that agree on the findings and skips of some rules agree on their outcomes. -/
theorem filter_checks_reportOf {others : List String} (kept : CheckId → Bool)
    (hfindings : (reportOf checkers names s).findings.filter (fun f => kept f.check) =
      (reportOf checkers others s).findings.filter fun f => kept f.check)
    (hskips : (reportOf checkers names s).skips.filter (fun k => kept k.check) =
      (reportOf checkers others s).skips.filter fun k => kept k.check) :
    (reportOf checkers names s).checks.filter (fun sm => kept sm.check) =
      (reportOf checkers others s).checks.filter fun sm => kept sm.check := by
  have hchecks : ∀ names, (reportOf checkers names s).checks = checkers.flatMap fun c =>
      c.checks.map fun check => ⟨check, c.name, outcomeOf (reportOf checkers names s).findings
        (reportOf checkers names s).skips check⟩ := fun _ => rfl
  rw [hchecks, hchecks, List.filter_flatMap, List.filter_flatMap]
  refine List.flatMap_congr fun c _ => ?_
  rw [List.filter_map, List.filter_map]
  refine List.map_congr_left fun check hcheck => ?_
  have hkept : kept check = true := (List.mem_filter.1 hcheck).2
  rw [← outcomeOf_filter hkept, hfindings, hskips, outcomeOf_filter hkept]

theorem excluding_reportOf (haccept : Acceptable checkers)
    (hnames : ∀ name ∈ names, ⟨name⟩ ∈ checkers.flatMap (·.checks))
    (hleft : SomeLeft checkers names)
    (hlegal : ∀ c ∈ checkers, firstBreach? c.checks (c.log s) = Option.none) :
    (reportOf checkers [] s).Excluding names (reportOf checkers names s) := by
  have hfindings : (reportOf checkers names s).findings =
      (reportOf checkers [] s).findings.filter (·.check.text ∉ names) := by
    rw [findings_reportOf hleft, findings_reportOf hleft.none]
    simp
  have hskips : (reportOf checkers names s).skips.filter (·.check.text ∉ names) =
      (reportOf checkers [] s).skips.filter (·.check.text ∉ names) := by
    have hall := skips_reportOf (s := s) hleft.none
    simp only [List.not_mem_nil, not_false_eq_true, decide_true, List.filter_true] at hall
    rw [skips_reportOf hleft, hall]
  refine ⟨hfindings, hskips, ?_, ?_, fun name hname => ?_⟩
  · refine filter_checks_reportOf (fun check => decide (check.text ∉ names)) ?_ hskips
    rw [hfindings, List.filter_filter]
    simp only [Bool.and_self]
  · rw [baselines_reportOf hleft, baselines_reportOf hleft.none]
  · have hfits := fits_contributions (a := ⟨checkers, names.map CheckId.mk⟩) haccept.nodup
      fun c hc _ => hlegal c hc
    have hskip := hfits.excluded_mem ⟨name⟩ (hnames name hname) (isExcluded_iff.2 hname)
    simp only [reportOf, report, List.flatMap_map]
    exact filter_eq_singleton_of_mem hfits.skip_nodup hskip

end ReportOf

/-! ## Runs -/

/--
Leaving out rules changes nothing about the others, as long as every checker has one left: the run
fails if it did before, and with the same error, and otherwise the report is the one before without
the excluded rules, each of which is left out once.
-/
theorem run_exclude {checkers : List Checker} {names : List String} {base a : Audit}
    {source : Source} {baselines : Baselines} (hcheckers : ofCheckers checkers = .ok base)
    (hexclude : base.exclude names = .ok a)
    (hleft : ∀ c ∈ checkers, ∃ check ∈ c.checks, check.text ∉ names) :
    (∀ e, a.run source baselines = .error e ↔ base.run source baselines = .error e) ∧
      ∀ r, base.run source baselines = .ok r →
        ∃ r', a.run source baselines = .ok r' ∧ r.Excluding names r' := by
  have hnothing : base.exclude [] = .ok base := rfl
  obtain ⟨haccept, hnames, rfl⟩ := eq_of_exclude_ofCheckers hcheckers hexclude
  obtain ⟨-, -, rfl⟩ := eq_of_exclude_ofCheckers hcheckers hnothing
  have hinvolves := SomeLeft.involves hleft
  have hinvolves' := (SomeLeft.none hleft).involves
  have herror : ∀ e, Audit.run ⟨checkers, names.map CheckId.mk⟩ source baselines = .error e ↔
      Audit.run ⟨checkers, [].map CheckId.mk⟩ source baselines = .error e :=
    fun e => run_eq_error_congr rfl fun c hc => by rw [hinvolves c hc, hinvolves' c hc]
  refine ⟨herror, fun r hrun => ?_⟩
  cases hrun' : Audit.run ⟨checkers, names.map CheckId.mk⟩ source baselines with
  | error e =>
    rw [herror, hrun] at hrun'
    cases hrun'
  | ok r' =>
    obtain ⟨rfl, -⟩ := run_eq_ok hrun
    obtain ⟨rfl, hlegal⟩ := run_eq_ok hrun'
    exact ⟨_, rfl, excluding_reportOf haccept hnames hleft fun c hc => hlegal c hc (hinvolves c hc)⟩

/-- Both checkers have a rule left, also the one that gives up. -/
theorem run_exclude_repeating_needy :
    ∃ base a r r', ofCheckers [repeating, needy] = .ok base ∧
      base.exclude ["TST-001-1", "TST-004-1"] = .ok a ∧
      (∀ c ∈ [repeating, needy], ∃ check ∈ c.checks,
        check.text ∉ ["TST-001-1", "TST-004-1"]) ∧
      base.run MemoryPackage.empty.source .offline = .ok r ∧
      a.run MemoryPackage.empty.source .offline = .ok r' ∧
      r.Excluding ["TST-001-1", "TST-004-1"] r' := by
  have hcheckers : ofCheckers [repeating, needy] = .ok ⟨[repeating, needy], []⟩ := rfl
  have hexclude : (Audit.mk [repeating, needy] []).exclude ["TST-001-1", "TST-004-1"] =
      .ok ⟨[repeating, needy], [⟨"TST-001-1"⟩, ⟨"TST-004-1"⟩]⟩ := rfl
  have hleft : ∀ c ∈ [repeating, needy], ∃ check ∈ c.checks,
      check.text ∉ ["TST-001-1", "TST-004-1"] := by
    simp [repeating, needy, Checker.single]
  cases hrun : (Audit.mk [repeating, needy] []).run MemoryPackage.empty.source .offline with
  | error e => exact absurd hrun (by nofun)
  | ok r =>
    obtain ⟨r', hrun', hexcluding⟩ := (run_exclude hcheckers hexclude hleft).2 r hrun
    exact ⟨_, _, r, r', hcheckers, hexclude, hleft, hrun, hrun', hexcluding⟩

end Audit

end PackageAudit
