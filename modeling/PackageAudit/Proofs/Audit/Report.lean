import PackageAudit.Proofs.Audit.Accounting
import PackageAudit.Proofs.Audit.Registry

/-!
# Proofs.Audit.Report — reports are consistent

A report says one thing about each rule (`Report.Consistent`, `Audit.report_consistent`). The
invariant is `Fits`: findings and skips are about declared rules, no rule has two skips or a finding
beside a skip, and excluded rules are left out. Calls that break no rule of reporting keep it, and
so does everything that is done with their results: giving up, excluding rules, and putting the
results of checkers with different rules together.
-/

namespace PackageAudit

/-! ## Calls that may be made -/

namespace Call

variable {declared : List CheckId} {calls : List Call} {check : CheckId} {text : String}

theorem any_leavesOut_eq_false :
    calls.any (leavesOut check) = false ↔ ∀ k ∈ calls.filterMap skip?, k.check ≠ check := by
  rw [← Batch.any_filterMap_skip?, List.any_eq_false]
  simp

theorem any_reports_eq_false :
    calls.any (reports check) = false ↔ ∀ f ∈ calls.filterMap finding?, f.check ≠ check := by
  rw [← Batch.any_filterMap_finding?, List.any_eq_false]
  simp

theorem breach?_finding_eq_none :
    (finding check text).breach? declared calls = none ↔
      check ∈ declared ∧ ∀ k ∈ calls.filterMap skip?, k.check ≠ check := by
  rw [← any_leavesOut_eq_false, breach?]
  by_cases hmem : check ∈ declared
  · cases calls.any (leavesOut check) <;> simp [hmem]
  · simp [hmem]

theorem breach?_skip_eq_none :
    (skip check text).breach? declared calls = none ↔
      check ∈ declared ∧ (∀ k ∈ calls.filterMap skip?, k.check ≠ check) ∧
        ∀ f ∈ calls.filterMap finding?, f.check ≠ check := by
  rw [← any_leavesOut_eq_false, ← any_reports_eq_false, breach?]
  by_cases hmem : check ∈ declared
  · cases calls.any (leavesOut check) <;> cases calls.any (reports check) <;> simp [hmem]
  · simp [hmem]

end Call

/-! ## Findings and skips that fit -/

/-- Findings and skips that say at most one thing about each of the declared rules. -/
structure Fits (excluded : CheckId → Bool) (declared : List CheckId) (findings : List Finding)
    (skips : List Skip) : Prop where
  finding_mem : ∀ f ∈ findings, f.check ∈ declared ∧ excluded f.check = false
  skip_mem : ∀ k ∈ skips, k.check ∈ declared
  skip_nodup : (skips.map (·.check)).Nodup
  apart : ∀ f ∈ findings, ∀ k ∈ skips, f.check ≠ k.check
  excluded_mem : ∀ check ∈ declared, excluded check = true → ⟨check, Audit.excludedReason⟩ ∈ skips

namespace Fits

variable {excluded : CheckId → Bool} {declared : List CheckId} {findings : List Finding}
  {skips : List Skip}

/-! ## Calls -/

theorem nil (declared : List CheckId) : Fits (fun _ => false) declared [] [] :=
  ⟨by simp, by simp, by simp, by simp, by simp⟩

theorem add_finding (h : Fits (fun _ => false) declared findings skips) {check : CheckId}
    (message : String) (hmem : check ∈ declared) (hnot : ∀ k ∈ skips, k.check ≠ check) :
    Fits (fun _ => false) declared (findings ++ [⟨check, message⟩]) skips := by
  refine ⟨?_, h.skip_mem, h.skip_nodup, ?_, h.excluded_mem⟩
  · intro f hf
    rcases List.mem_append.1 hf with hf | hf
    · exact h.finding_mem f hf
    · obtain rfl := List.mem_singleton.1 hf
      exact ⟨hmem, rfl⟩
  · intro f hf k hk
    rcases List.mem_append.1 hf with hf | hf
    · exact h.apart f hf k hk
    · obtain rfl := List.mem_singleton.1 hf
      exact (hnot k hk).symm

theorem add_skip (h : Fits (fun _ => false) declared findings skips) {check : CheckId}
    (reason : String) (hmem : check ∈ declared) (hfindings : ∀ f ∈ findings, f.check ≠ check)
    (hskips : ∀ k ∈ skips, k.check ≠ check) :
    Fits (fun _ => false) declared findings (skips ++ [⟨check, reason⟩]) := by
  refine ⟨h.finding_mem, ?_, ?_, ?_, by simp⟩
  · intro k hk
    rcases List.mem_append.1 hk with hk | hk
    · exact h.skip_mem k hk
    · obtain rfl := List.mem_singleton.1 hk
      exact hmem
  · rw [List.map_append, List.nodup_append]
    refine ⟨h.skip_nodup, by simp, ?_⟩
    intro other hother check' hcheck'
    obtain ⟨k, hk, rfl⟩ := List.mem_map.1 hother
    obtain rfl : check' = check := by simpa using hcheck'
    exact hskips k hk
  · intro f hf k hk
    rcases List.mem_append.1 hk with hk | hk
    · exact h.apart f hf k hk
    · obtain rfl := List.mem_singleton.1 hk
      exact hfindings f hf

/-- Calls fit the declared rules as long as none breaks the rules of reporting. -/
theorem of_calls {calls : List Call} (h : firstBreach? declared calls = none) :
    Fits (fun _ => false) declared (calls.filterMap Call.finding?)
      (calls.filterMap Call.skip?) := by
  induction calls using List.reverseRecOn with
  | nil => exact nil declared
  | append_singleton calls call ih =>
    rw [firstBreach?_append_singleton, Option.or_eq_none_iff] at h
    have hfits := ih h.1
    cases call with
    | finding check message =>
      obtain ⟨hmem, hskips⟩ := Call.breach?_finding_eq_none.1 h.2
      rw [List.filterMap_append, List.filterMap_append]
      simpa [List.filterMap_cons, Call.finding?, Call.skip?] using
        hfits.add_finding message hmem hskips
    | skip check reason =>
      obtain ⟨hmem, hskips, hfindings⟩ := Call.breach?_skip_eq_none.1 h.2
      rw [List.filterMap_append, List.filterMap_append]
      simpa [List.filterMap_cons, Call.finding?, Call.skip?] using
        hfits.add_skip reason hmem hfindings hskips
    | record name content =>
      rw [List.filterMap_append, List.filterMap_append]
      simpa [List.filterMap_cons, Call.finding?, Call.skip?] using hfits

/-! ## Giving up and excluding rules -/

theorem fail_all (h : Fits (fun _ => false) declared findings skips) (message : String) :
    Fits (fun _ => false) declared (findings ++ declared.map (⟨·, message⟩)) [] := by
  refine ⟨?_, by simp, by simp, by simp, by simp⟩
  intro f hf
  rcases List.mem_append.1 hf with hf | hf
  · exact h.finding_mem f hf
  · obtain ⟨check, hcheck, rfl⟩ := List.mem_map.1 hf
    exact ⟨hcheck, rfl⟩

theorem exclude (h : Fits (fun _ => false) declared findings skips) (excluded : CheckId → Bool)
    (hnodup : declared.Nodup) :
    Fits excluded declared (findings.filter fun f => !excluded f.check)
      (skips.filter (fun k => !excluded k.check) ++
        (declared.filter excluded).map (⟨·, Audit.excludedReason⟩)) := by
  refine ⟨?_, ?_, ?_, ?_, ?_⟩
  · intro f hf
    obtain ⟨hmem, hex⟩ := List.mem_filter.1 hf
    exact ⟨(h.finding_mem f hmem).1, by simpa using hex⟩
  · intro k hk
    rcases List.mem_append.1 hk with hk | hk
    · exact h.skip_mem k (List.mem_of_mem_filter hk)
    · obtain ⟨check, hcheck, rfl⟩ := List.mem_map.1 hk
      exact List.mem_of_mem_filter hcheck
  · rw [List.map_append, List.nodup_append]
    refine ⟨?_, ?_, ?_⟩
    · exact h.skip_nodup.sublist (List.filter_sublist.map _)
    · simpa [Function.comp_def] using hnodup.filter excluded
    · -- the rules on the left are not excluded, those on the right are
      intro check hleft other hright
      obtain ⟨k, hk, rfl⟩ := List.mem_map.1 hleft
      obtain ⟨l, hl, rfl⟩ := List.mem_map.1 hright
      obtain ⟨id, hid, rfl⟩ := List.mem_map.1 hl
      rintro heq
      have hk' := (List.mem_filter.1 hk).2
      have hid' := (List.mem_filter.1 hid).2
      rw [heq] at hk'
      simp [hid'] at hk'
  · intro f hf k hk
    obtain ⟨hmem, hex⟩ := List.mem_filter.1 hf
    rcases List.mem_append.1 hk with hk | hk
    · exact h.apart f hmem k (List.mem_of_mem_filter hk)
    · obtain ⟨id, hid, rfl⟩ := List.mem_map.1 hk
      rintro heq
      rw [heq] at hex
      simp [(List.mem_filter.1 hid).2] at hex
  · intro check hcheck hex
    exact List.mem_append_right _ (List.mem_map_of_mem (List.mem_filter.2 ⟨hcheck, hex⟩))

/-! ## Several checkers -/

theorem append {declared' : List CheckId} {findings' : List Finding} {skips' : List Skip}
    (h : Fits excluded declared findings skips) (h' : Fits excluded declared' findings' skips')
    (hdisjoint : declared.Disjoint declared') :
    Fits excluded (declared ++ declared') (findings ++ findings') (skips ++ skips') := by
  refine ⟨?_, ?_, ?_, ?_, ?_⟩
  · intro f hf
    rcases List.mem_append.1 hf with hf | hf
    · exact ⟨List.mem_append_left _ (h.finding_mem f hf).1, (h.finding_mem f hf).2⟩
    · exact ⟨List.mem_append_right _ (h'.finding_mem f hf).1, (h'.finding_mem f hf).2⟩
  · intro k hk
    rcases List.mem_append.1 hk with hk | hk
    · exact List.mem_append_left _ (h.skip_mem k hk)
    · exact List.mem_append_right _ (h'.skip_mem k hk)
  · rw [List.map_append, List.nodup_append]
    refine ⟨h.skip_nodup, h'.skip_nodup, ?_⟩
    intro check hleft other hright
    obtain ⟨k, hk, rfl⟩ := List.mem_map.1 hleft
    obtain ⟨l, hl, rfl⟩ := List.mem_map.1 hright
    rintro heq
    exact hdisjoint (h.skip_mem k hk) (heq ▸ h'.skip_mem l hl)
  · intro f hf k hk
    rcases List.mem_append.1 hf with hf | hf
    · rcases List.mem_append.1 hk with hk | hk
      · exact h.apart f hf k hk
      · rintro heq
        exact hdisjoint (h.finding_mem f hf).1 (heq ▸ h'.skip_mem k hk)
    · rcases List.mem_append.1 hk with hk | hk
      · rintro heq
        exact hdisjoint (h.skip_mem k hk) (heq ▸ (h'.finding_mem f hf).1)
      · exact h'.apart f hf k hk
  · intro check hcheck hex
    rcases List.mem_append.1 hcheck with hcheck | hcheck
    · exact List.mem_append_left _ (h.excluded_mem check hcheck hex)
    · exact List.mem_append_right _ (h'.excluded_mem check hcheck hex)

end Fits

namespace Audit

variable {a : Audit} {s : Subject}

theorem fits_history {c : Checker} (h : firstBreach? c.checks (c.log s) = none) :
    Fits (fun _ => false) c.checks (c.reported s) (c.leftOut s) := by
  have hcalls := Fits.of_calls h
  unfold Checker.reported Checker.leftOut
  rcases c.ending s with _ | message | error
  · simpa using hcalls
  · -- a checker that gives up fails all of its rules instead of leaving some out
    exact hcalls.fail_all message
  · simpa using hcalls

theorem fits_contribution {c : Checker} (hnodup : c.checks.Nodup)
    (h : a.involves c = true → firstBreach? c.checks (c.log s) = none) :
    Fits a.isExcluded c.checks (a.contribution s c).findings (a.contribution s c).skips := by
  unfold contribution restrict
  cases hinv : a.involves c with
  | false => exact (Fits.nil c.checks).exclude a.isExcluded hnodup
  | true => exact (fits_history (h hinv)).exclude a.isExcluded hnodup

theorem fits_contributions {checkers : List Checker}
    (hnodup : (checkers.flatMap (·.checks)).Nodup)
    (h : ∀ c ∈ checkers, a.involves c = true → firstBreach? c.checks (c.log s) = none) :
    Fits a.isExcluded (checkers.flatMap (·.checks))
      (checkers.flatMap fun c => (a.contribution s c).findings)
      (checkers.flatMap fun c => (a.contribution s c).skips) := by
  induction checkers with
  | nil => exact ⟨by simp, by simp, by simp, by simp, by simp⟩
  | cons c rest ih =>
    rw [List.flatMap_cons, List.nodup_append] at hnodup
    obtain ⟨hfirst, hrest, hne⟩ := hnodup
    refine (fits_contribution hfirst (h c List.mem_cons_self)).append
      (ih hrest fun d hd => h d (List.mem_cons_of_mem c hd)) ?_
    -- no rule has two owners
    intro check hleft hright
    exact hne check hleft check hright rfl

/-! ## Outcomes -/

variable {findings : List Finding} {skips : List Skip} {check : CheckId}

theorem outcomeOf_eq_fail_iff :
    outcomeOf findings skips check = .fail ↔ ∃ f ∈ findings, f.check = check := by
  have hfinding : findings.any (·.check == check) = true ↔ ∃ f ∈ findings, f.check = check := by
    simp
  rw [← hfinding, outcomeOf]
  cases findings.any (·.check == check) <;> cases skips.any (·.check == check) <;> simp

theorem outcomeOf_eq_pass_iff :
    outcomeOf findings skips check = .pass ↔
      (∀ f ∈ findings, f.check ≠ check) ∧ ∀ k ∈ skips, k.check ≠ check := by
  have hfinding : findings.any (·.check == check) = false ↔ ∀ f ∈ findings, f.check ≠ check := by
    simp
  have hskip : skips.any (·.check == check) = false ↔ ∀ k ∈ skips, k.check ≠ check := by
    simp
  rw [← hfinding, ← hskip, outcomeOf]
  cases findings.any (·.check == check) <;> cases skips.any (·.check == check) <;> simp

theorem outcomeOf_eq_skip_iff (h : ∀ f ∈ findings, ∀ k ∈ skips, f.check ≠ k.check) :
    outcomeOf findings skips check = .skip ↔ ∃ k ∈ skips, k.check = check := by
  have hskip : skips.any (·.check == check) = true ↔ ∃ k ∈ skips, k.check = check := by
    simp
  have hfinding : skips.any (·.check == check) = true →
      findings.any (·.check == check) = false := by
    rw [hskip]
    rintro ⟨k, hk, rfl⟩
    simpa using fun f hf => h f hf k hk
  rw [← hskip, outcomeOf]
  cases hf : findings.any (·.check == check) <;>
    cases hk : skips.any (·.check == check) <;> simp_all

end Audit

/-! ## Reports -/

/--
A report that says one thing about each declared rule: the rule is broken, or it is left out, or it
is met.
-/
structure Report.Consistent (declared : List CheckId) (excluded : List String) (r : Report) :
    Prop where
  /-- Every rule is listed, in order. -/
  checks_eq : r.checks.map (·.check) = declared
  /-- No rule is listed twice. -/
  checks_nodup : declared.Nodup
  finding_declared : ∀ f ∈ r.findings, f.check ∈ declared ∧ f.check.text ∉ excluded
  skip_nodup : (r.skips.map (·.check)).Nodup
  finding_apart : ∀ f ∈ r.findings, ∀ k ∈ r.skips, f.check ≠ k.check
  fail_iff : ∀ s ∈ r.checks, s.outcome = .fail ↔ ∃ f ∈ r.findings, f.check = s.check
  skip_iff : ∀ s ∈ r.checks, s.outcome = .skip ↔ ∃ k ∈ r.skips, k.check = s.check
  pass_iff : ∀ s ∈ r.checks, s.outcome = .pass ↔
    (∀ f ∈ r.findings, f.check ≠ s.check) ∧ ∀ k ∈ r.skips, k.check ≠ s.check
  excluded_skip : ∀ name ∈ excluded, r.outcome? ⟨name⟩ = some .skip ∧
    r.skipReason? ⟨name⟩ = some "excluded by configuration"
  baselines_nodup : r.baselines.Nodup
  passed_iff : r.passed = true ↔ r.findings = []

namespace Audit

variable {a : Audit} {s : Subject}

/-! ### The parts of a report -/

theorem report_checks (results : List BatchResult) :
    (a.report results).checks.map (·.check) = a.checks := by
  simp [report, checks, List.map_flatMap, Function.comp_def]

theorem mem_report_checks {results : List BatchResult} {sm : Summary}
    (h : sm ∈ (a.report results).checks) :
    sm.check ∈ a.checks ∧
      sm.outcome = outcomeOf (a.report results).findings (a.report results).skips sm.check := by
  refine ⟨?_, ?_⟩
  · rw [← report_checks results]
    exact List.mem_map_of_mem h
  · obtain ⟨c, -, hc⟩ := List.mem_flatMap.1 h
    obtain ⟨check, -, rfl⟩ := List.mem_map.1 hc
    rfl

theorem exists_mem_report_checks (results : List BatchResult) {check : CheckId}
    (h : check ∈ a.checks) : ∃ sm ∈ (a.report results).checks, sm.check = check := by
  rw [← report_checks results] at h
  exact List.mem_map.1 h

theorem outcome?_report (results : List BatchResult) {check : CheckId} (h : check ∈ a.checks) :
    (a.report results).outcome? check =
      some (outcomeOf (a.report results).findings (a.report results).skips check) := by
  obtain ⟨sm, hsm, rfl⟩ := exists_mem_report_checks results h
  cases hfind : (a.report results).checks.find? (·.check == sm.check) with
  | none =>
    have hne := List.find?_eq_none.1 hfind sm hsm
    simp at hne
  | some found =>
    have hcheck : found.check = sm.check := by simpa using List.find?_some hfind
    rw [Report.outcome?, hfind, Option.map_some,
      (mem_report_checks (List.mem_of_find?_eq_some hfind)).2, hcheck]

theorem passed_report_iff {results : List BatchResult}
    (h : ∀ f ∈ (a.report results).findings, f.check ∈ a.checks) :
    (a.report results).passed = true ↔ (a.report results).findings = [] := by
  rw [Report.passed, List.all_eq_true]
  constructor
  · intro hall
    refine List.eq_nil_iff_forall_not_mem.2 fun f hf => ?_
    obtain ⟨sm, hsm, hcheck⟩ := exists_mem_report_checks results (h f hf)
    have hfail : sm.outcome = .fail := by
      rw [(mem_report_checks hsm).2, outcomeOf_eq_fail_iff]
      exact ⟨f, hf, hcheck.symm⟩
    have hnot := hall sm hsm
    simp [hfail] at hnot
  · intro hnil sm hsm
    have hnot : sm.outcome ≠ .fail := by
      rw [(mem_report_checks hsm).2, Ne, outcomeOf_eq_fail_iff, hnil]
      simp
    simpa using hnot

/-! ### All reports -/

theorem skipReason?_eq {r : Report} {check : CheckId} {reason : String}
    (hnodup : (r.skips.map (·.check)).Nodup) (hmem : ⟨check, reason⟩ ∈ r.skips) :
    r.skipReason? check = some reason := by
  cases hfind : r.skips.find? (·.check == check) with
  | none =>
    have hne := List.find?_eq_none.1 hfind ⟨check, reason⟩ hmem
    simp at hne
  | some found =>
    have hcheck : found.check = check := by simpa using List.find?_some hfind
    have hsame : found = ⟨check, reason⟩ :=
      List.inj_on_of_nodup_map hnodup (List.mem_of_find?_eq_some hfind) hmem hcheck
    rw [Report.skipReason?, hfind, hsame]
    rfl

/-- Results that fit the rules of an audit make a consistent report. -/
theorem consistent_of_fits {names : List String} {results : List BatchResult}
    (hnodup : a.checks.Nodup) (hnames : ∀ name ∈ names, ⟨name⟩ ∈ a.checks)
    (hexcluded : ∀ check, a.isExcluded check = true ↔ check.text ∈ names)
    (hfits : Fits a.isExcluded a.checks (results.flatMap (·.findings))
      (results.flatMap (·.skips))) :
    (a.report results).Consistent a.checks names := by
  have hmem : ∀ f ∈ (a.report results).findings, f ∈ results.flatMap (·.findings) :=
    fun f hf => List.mem_eraseDups.1 hf
  have hapart : ∀ f ∈ (a.report results).findings, ∀ k ∈ (a.report results).skips,
      f.check ≠ k.check := fun f hf k hk => hfits.apart f (hmem f hf) k hk
  have hdeclared : ∀ f ∈ (a.report results).findings, f.check ∈ a.checks :=
    fun f hf => (hfits.finding_mem f (hmem f hf)).1
  constructor
  · exact report_checks results
  · exact hnodup
  · intro f hf
    refine ⟨hdeclared f hf, ?_⟩
    rw [← hexcluded, (hfits.finding_mem f (hmem f hf)).2]
    simp
  · exact hfits.skip_nodup
  · exact hapart
  · intro sm hsm
    rw [(mem_report_checks hsm).2, outcomeOf_eq_fail_iff]
  · intro sm hsm
    rw [(mem_report_checks hsm).2, outcomeOf_eq_skip_iff hapart]
  · intro sm hsm
    rw [(mem_report_checks hsm).2, outcomeOf_eq_pass_iff]
  · intro name hname
    have hskip : ⟨⟨name⟩, excludedReason⟩ ∈ (a.report results).skips :=
      hfits.excluded_mem ⟨name⟩ (hnames name hname) ((hexcluded ⟨name⟩).2 hname)
    refine ⟨?_, skipReason?_eq hfits.skip_nodup hskip⟩
    rw [outcome?_report results (hnames name hname), (outcomeOf_eq_skip_iff hapart).2]
    exact ⟨⟨⟨name⟩, excludedReason⟩, hskip, rfl⟩
  · have hfirst : (a.report results).baselines =
        firstOccurrences (results.flatMap (·.records)) := eraseDups_eq_firstOccurrences _
    rw [hfirst]
    exact nodup_firstOccurrences _
  · exact passed_report_iff hdeclared

/--
The report of an audit is consistent, whatever its checkers do: every rule of the registry is listed
once, findings are under rules that are not excluded, no rule has a second skip or a finding beside
a skip, the outcomes say so, and the audit is passed if nothing was found.
-/
theorem report_consistent {checkers : List Checker} {names : List String} {base a : Audit}
    {source : Source} {baselines : Baselines} {r : Report}
    (hcheckers : ofCheckers checkers = .ok base) (hexclude : base.exclude names = .ok a)
    (hrun : a.run source baselines = .ok r) :
    r.Consistent (checkers.flatMap (·.checks)) names := by
  obtain ⟨haccept, hnames, rfl⟩ := eq_of_exclude_ofCheckers hcheckers hexclude
  obtain ⟨rfl, hlegal⟩ := run_eq_ok hrun
  have hfits := fits_contributions haccept.nodup hlegal
  have hchecks : (Audit.mk checkers (names.map CheckId.mk)).checks.Nodup := haccept.nodup
  refine consistent_of_fits hchecks hnames (fun _ => isExcluded_iff) ?_
  rw [List.flatMap_map, List.flatMap_map]
  exact hfits

theorem report_consistent_repeating_needy :
    ∃ base a r, ofCheckers [repeating, needy] = .ok base ∧ base.exclude ["TST-004-1"] = .ok a ∧
      a.run MemoryPackage.empty.source .offline = .ok r ∧
      r.Consistent [⟨"TST-001-1"⟩, ⟨"TST-002-1"⟩, ⟨"TST-003-1"⟩, ⟨"TST-004-1"⟩, ⟨"TST-005-1"⟩]
        ["TST-004-1"] := by
  have hcheckers : ofCheckers [repeating, needy] = .ok ⟨[repeating, needy], []⟩ := rfl
  have hexclude : (Audit.mk [repeating, needy] []).exclude ["TST-004-1"] =
      .ok ⟨[repeating, needy], [⟨"TST-004-1"⟩]⟩ := rfl
  cases hrun : (Audit.mk [repeating, needy] [⟨"TST-004-1"⟩]).run MemoryPackage.empty.source
      .offline with
  | error e => exact absurd hrun (by nofun)
  | ok r => exact ⟨_, _, r, hcheckers, hexclude, hrun, report_consistent hcheckers hexclude hrun⟩

end Audit

end PackageAudit
