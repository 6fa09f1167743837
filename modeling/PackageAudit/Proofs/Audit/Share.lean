import PackageAudit.Proofs.Audit.Exclusion

/-!
# Proofs.Audit.Share — what one checker contributes to a report

Rules have one owner each. So of a report on a package by many checkers, the part that is about the
rules of one of them is what this checker came to, whatever the others found:

* `Report.Shows` — a report says about the rules of a checker what its work came to;
* `Audit.shows_of_run` — every report says so of every checker, if no rule is excluded;
* `Verdict`, `Report.Gives` — what becomes of a rule with one finding at most;
* `Report.LeavesOut` — a rule is left out, for a reason and without a finding.
-/

namespace PackageAudit

/-! ## Reports and results -/

/-- A report says about the rules of a checker what its work came to, and nothing else. -/
structure Report.Shows (r : Report) (c : Checker) (result : BatchResult) : Prop where
  /-- A repeated finding counts once. -/
  findings_eq : r.findings.filter (fun f => f.check ∈ c.checks) = result.findings.eraseDups
  skips_eq : r.skips.filter (fun k => k.check ∈ c.checks) = result.skips
  outcome_eq : ∀ check ∈ c.checks,
    r.outcome? check = some (Audit.outcomeOf result.findings result.skips check)

theorem eraseDups_of_nodup {α : Type} [DecidableEq α] {l : List α} (h : l.Nodup) :
    l.eraseDups = l := by
  induction l with
  | nil => rfl
  | cons x l ih =>
    rcases List.nodup_cons.1 h with ⟨hx, hl⟩
    have hdisjoint : [x].Disjoint l := by simpa using hx
    exact (eraseDups_append_of_disjoint hdisjoint).trans (congrArg (x :: ·) (ih hl))

namespace Report.Shows

variable {r : Report} {c : Checker} {result : BatchResult} {check : CheckId} {f : Finding}

theorem mem_findings_iff (h : r.Shows c result) (hf : f.check ∈ c.checks) :
    f ∈ r.findings ↔ f ∈ result.findings := by
  rw [← List.mem_eraseDups (l := result.findings), ← h.findings_eq, List.mem_filter]
  simp [hf]

theorem mem_findingsFor_iff (h : r.Shows c result) (hcheck : check ∈ c.checks) :
    f ∈ r.findingsFor check ↔ f ∈ result.findings ∧ f.check = check := by
  rw [findingsFor, List.mem_filter, beq_iff_eq]
  exact and_congr_left fun hf => h.mem_findings_iff (hf ▸ hcheck)

theorem outcome?_eq_pass_iff (h : r.Shows c result) (hcheck : check ∈ c.checks) :
    r.outcome? check = some .pass ↔
      (∀ f ∈ result.findings, f.check ≠ check) ∧ ∀ k ∈ result.skips, k.check ≠ check := by
  rw [h.outcome_eq check hcheck, Option.some_inj, Audit.outcomeOf_eq_pass_iff]

theorem findingsFor_eq (h : r.Shows c result) (hcheck : check ∈ c.checks) :
    r.findingsFor check = (result.findings.filter (·.check == check)).eraseDups := by
  have hown : r.findings.filter (·.check == check) =
      (r.findings.filter (fun f => f.check ∈ c.checks)).filter (·.check == check) := by
    rw [List.filter_filter]
    refine List.filter_congr fun f _ => ?_
    by_cases hf : f.check = check
    · simp [hf, hcheck]
    · simp [hf]
  rw [findingsFor, hown, h.findings_eq, ← filter_eraseDups]

/-- The reason for which a rule is left out is that of the first skip, if there are many. -/
theorem skipReason?_eq (h : r.Shows c result) (hcheck : check ∈ c.checks) :
    r.skipReason? check = (result.skips.find? (·.check == check)).map (·.reason) := by
  have hfind : r.skips.find? (·.check == check) = result.skips.find? (·.check == check) := by
    rw [← h.skips_eq, List.find?_filter]
    congr 1
    funext k
    by_cases hk : k.check = check
    · simp [hk, hcheck]
    · simp [hk]
  rw [Report.skipReason?, hfind]

end Report.Shows

/-! ## Verdicts -/

/-- What becomes of a rule that can be broken once: it is met, broken, or left out. -/
inductive Verdict where
  | met
  | broken (message : String)
  | leftOut (reason : String)

namespace Verdict

def findings (check : CheckId) : Verdict → List Finding
  | broken message => [⟨check, message⟩]
  | _ => []

def skips (check : CheckId) : Verdict → List Skip
  | leftOut reason => [⟨check, reason⟩]
  | _ => []

def outcome : Verdict → Outcome
  | met => .pass
  | broken _ => .fail
  | leftOut _ => .skip

def reason? : Verdict → Option String
  | leftOut reason => some reason
  | _ => none

variable {check other : CheckId} {v : Verdict}

theorem mem_findings_iff {f : Finding} :
    f ∈ v.findings check ↔ ∃ message, v = broken message ∧ f = ⟨check, message⟩ := by
  cases v <;> simp [findings]

theorem reverse_findings : (v.findings check).reverse = v.findings check := by
  cases v <;> rfl

theorem filter_findings_self : (v.findings check).filter (·.check == check) = v.findings check := by
  cases v <;> simp [findings]

theorem filter_findings_of_ne (h : check ≠ other) :
    (v.findings check).filter (·.check == other) = [] := by
  cases v <;> simp [findings, h]

theorem filter_skips_self : (v.skips check).filter (·.check == check) = v.skips check := by
  cases v <;> simp [skips]

theorem filter_skips_of_ne (h : check ≠ other) :
    (v.skips check).filter (·.check == other) = [] := by
  cases v <;> simp [skips, h]

end Verdict

/-- A report says of a rule what the verdict on it is. -/
structure Report.Gives (r : Report) (check : CheckId) (v : Verdict) : Prop where
  outcome_eq : r.outcome? check = some v.outcome
  reason_eq : r.skipReason? check = v.reason?
  findings_eq : r.findingsFor check = v.findings check

/-- A rule is left out for a reason, and nothing is found under it. -/
structure Report.LeavesOut (r : Report) (check : CheckId) (reason : String) : Prop where
  outcome_eq : r.outcome? check = some .skip
  reason_eq : r.skipReason? check = some reason
  findings_eq : r.findingsFor check = []

namespace Report

variable {r : Report} {check : CheckId} {v : Verdict} {reason : String}

theorem Gives.leavesOut_iff (h : r.Gives check v) :
    r.LeavesOut check reason ↔ v = .leftOut reason := by
  constructor
  · intro hleft
    have hreason : v.reason? = some reason := h.reason_eq.symm.trans hleft.reason_eq
    cases v with
    | leftOut other => exact congrArg Verdict.leftOut (Option.some.inj hreason)
    | _ => cases hreason
  · rintro rfl
    exact ⟨h.outcome_eq, h.reason_eq, h.findings_eq⟩

theorem Gives.eq_met_of_pass (h : r.Gives check v) (hpass : r.outcome? check = some .pass) :
    v = .met := by
  rw [h.outcome_eq] at hpass
  cases v with
  | met => rfl
  | broken message => cases hpass
  | leftOut reason => cases hpass

/-- What a result holds under a rule is the verdict on it. -/
theorem Shows.gives {c : Checker} {result : BatchResult} (h : r.Shows c result)
    (hcheck : check ∈ c.checks)
    (hfindings : result.findings.filter (·.check == check) = v.findings check)
    (hskips : result.skips.filter (·.check == check) = v.skips check) : r.Gives check v where
  outcome_eq := by
    let kept (id : CheckId) : Bool := id == check
    have hkept : kept check = true := beq_self_eq_true check
    have hfilter : Audit.outcomeOf (v.findings check) (v.skips check) check =
        Audit.outcomeOf result.findings result.skips check := by
      rw [← hfindings, ← hskips]
      exact Audit.outcomeOf_filter hkept
    rw [h.outcome_eq check hcheck, ← hfilter]
    cases v <;> simp [Audit.outcomeOf, Verdict.findings, Verdict.skips, Verdict.outcome]
  reason_eq := by
    rw [h.skipReason?_eq hcheck, ← List.head?_filter, hskips]
    cases v <;> rfl
  findings_eq := by
    rw [h.findingsFor_eq hcheck, hfindings]
    cases v <;> rfl

/-- A result without findings leaves out the rules that it names, each for its reason. -/
theorem Shows.leavesOut_all {c : Checker} {records : List BaselineRecord}
    (h : r.Shows c ⟨[], c.checks.map (⟨·, reason⟩), records⟩) (hnodup : c.checks.Nodup)
    (hcheck : check ∈ c.checks) : r.LeavesOut check reason := by
  have hone : c.checks.filter (· == check) = [check] := by
    rw [List.filter_beq, List.count_eq_one_of_mem hnodup hcheck]
    rfl
  refine (h.gives (v := .leftOut reason) hcheck rfl ?_).leavesOut_iff.2 rfl
  calc (c.checks.map fun check => (⟨check, reason⟩ : Skip)).filter (·.check == check)
      = (c.checks.filter (· == check)).map (⟨·, reason⟩) := List.filter_map ..
    _ = [⟨check, reason⟩] := by rw [hone]; rfl

end Report

/-! ## The share of a checker -/

namespace Audit

section Owners

variable {α : Type} {rule : α → CheckId} {share : Checker → List α} {checkers : List Checker}
  {c : Checker}

/-- Of what all checkers contribute, what is about the rules of one of them is its own share. -/
theorem filter_flatMap_share (hnodup : (checkers.flatMap (·.checks)).Nodup)
    (hshare : ∀ d ∈ checkers, ∀ x ∈ share d, rule x ∈ d.checks) (hc : c ∈ checkers) :
    (checkers.flatMap share).filter (fun x => rule x ∈ c.checks) = share c := by
  induction checkers with
  | nil => exact absurd hc List.not_mem_nil
  | cons d rest ih =>
    rw [List.flatMap_cons, List.nodup_append] at hnodup
    rcases hnodup with ⟨-, hrest, hne⟩
    rw [List.forall_mem_cons] at hshare
    rw [List.flatMap_cons, List.filter_append]
    by_cases hfirst : c = d
    · -- nothing that comes later is about the rules of the first checker
      subst hfirst
      have hown : (share c).filter (fun x => rule x ∈ c.checks) = share c := by
        rw [List.filter_eq_self]
        simpa using hshare.1
      have hother : (rest.flatMap share).filter (fun x => rule x ∈ c.checks) = [] := by
        rw [List.filter_eq_nil_iff]
        intro x hx
        obtain ⟨e, he, hxe⟩ := List.mem_flatMap.1 hx
        have hmem : rule x ∈ rest.flatMap (·.checks) :=
          List.mem_flatMap.2 ⟨e, he, hshare.2 e he x hxe⟩
        simpa using fun hown => hne _ hown _ hmem rfl
      rw [hown, hother, List.append_nil]
    · have hc' : c ∈ rest := (List.mem_cons.1 hc).resolve_left hfirst
      have hother : (share d).filter (fun x => rule x ∈ c.checks) = [] := by
        rw [List.filter_eq_nil_iff]
        intro x hx
        simpa using fun hown =>
          hne _ (hshare.1 x hx) _ (List.mem_flatMap.2 ⟨c, hc', hown⟩) rfl
      rw [hother, List.nil_append, ih hrest hshare.2 hc']

end Owners

variable {checkers : List Checker} {a : Audit} {source : Source} {baselines : Baselines}
  {r : Report} {c : Checker}

theorem isExcluded_of_no_exclusion (h : a.excluded = []) : a.isExcluded = fun _ => false := by
  funext check
  simp [isExcluded, h]

/-- An audit that excludes no rule restricts nothing. -/
theorem restrict_of_no_exclusion (h : a.excluded = []) (c : Checker) (result : BatchResult) :
    a.restrict c result = result := by
  simp [restrict, isExcluded_of_no_exclusion h]

theorem involves_of_no_exclusion (h : a.excluded = []) (hne : c.checks ≠ []) :
    a.involves c = true := by
  rcases hchecks : c.checks with _ | ⟨check, rest⟩
  · exact absurd hchecks hne
  · simp [involves, hchecks, isExcluded_of_no_exclusion h]

theorem outcomeOf_eraseDups (findings : List Finding) (skips : List Skip) (check : CheckId) :
    outcomeOf findings.eraseDups skips check = outcomeOf findings skips check := by
  have hany : findings.eraseDups.any (·.check == check) = findings.any (·.check == check) := by
    rw [Bool.eq_iff_iff]
    simp only [List.any_eq_true, List.mem_eraseDups]
  rw [outcomeOf, outcomeOf, hany]

/-- Results that are each about the rules of their own checker all show in the report. -/
theorem shows_report {results : Checker → BatchResult}
    (hnodup : (checkers.flatMap (·.checks)).Nodup)
    (hfits : ∀ d ∈ checkers,
      Fits (fun _ => false) d.checks (results d).findings (results d).skips)
    (hc : c ∈ checkers) :
    (Audit.report ⟨checkers, []⟩ (checkers.map results)).Shows c (results c) := by
  have hfindings : ((checkers.map results).flatMap (·.findings)).filter
      (fun f => f.check ∈ c.checks) = (results c).findings := by
    rw [List.flatMap_map]
    exact filter_flatMap_share hnodup (fun d hd f hf => ((hfits d hd).finding_mem f hf).1) hc
  have hskips : ((checkers.map results).flatMap (·.skips)).filter
      (fun k => k.check ∈ c.checks) = (results c).skips := by
    rw [List.flatMap_map]
    exact filter_flatMap_share hnodup (fun d hd k hk => (hfits d hd).skip_mem k hk) hc
  refine ⟨?_, hskips, ?_⟩
  · rw [report, ← filter_eraseDups, hfindings]
  · intro check hcheck
    have hmem : check ∈ Audit.checks ⟨checkers, []⟩ := List.mem_flatMap.2 ⟨c, hc, hcheck⟩
    let kept (id : CheckId) : Bool := decide (id ∈ c.checks)
    have hkept : kept check = true := decide_eq_true hcheck
    rw [outcome?_report _ hmem, Option.some_inj]
    calc outcomeOf ((checkers.map results).flatMap (·.findings)).eraseDups
          ((checkers.map results).flatMap (·.skips)) check
        = outcomeOf ((checkers.map results).flatMap (·.findings))
            ((checkers.map results).flatMap (·.skips)) check := outcomeOf_eraseDups _ _ _
      _ = outcomeOf (results c).findings (results c).skips check := by
          rw [← hfindings, ← hskips]
          exact (outcomeOf_filter hkept).symm

/--
Every checker of an audit without exclusions has a result, and the report says about its rules what
this result is.
-/
theorem shows_of_run (hcheckers : ofCheckers checkers = .ok a)
    (hrun : a.run source baselines = .ok r) (hc : c ∈ checkers) :
    ∃ result, c.audit (.of source baselines) = .ok result ∧ r.Shows c result := by
  rcases ofCheckers_eq_ok_iff.1 hcheckers with ⟨haccept, rfl⟩
  let s := Subject.of source baselines
  let results (d : Checker) : BatchResult := ⟨d.reported s, d.leftOut s, d.recorded s⟩
  rcases run_cases ⟨checkers, []⟩ source baselines with
    ⟨hreport, -, hok⟩ | ⟨-, -, e, -, -, hfail, -⟩
  · have hinvolves : ∀ d ∈ checkers, Audit.involves ⟨checkers, []⟩ d = true :=
      fun d hd => involves_of_no_exclusion rfl (haccept.nonempty d hd)
    have haudit : ∀ d ∈ checkers, firstBreach? d.checks (d.log s) = none ∧
        d.audit s = .ok (results d) := by
      intro d hd
      obtain ⟨result, hresult⟩ := hok d (List.mem_filter.2 ⟨hd, hinvolves d hd⟩)
      rcases Checker.audit_eq_ok hresult with ⟨hlegal, rfl⟩
      exact ⟨hlegal, hresult⟩
    -- every checker contributes the whole of its result
    have hshare : checkers.map (contribution ⟨checkers, []⟩ s) = checkers.map results := by
      refine List.map_congr_left fun d hd => ?_
      rw [contribution_of_audit (hinvolves d hd) (haudit d hd).2, restrict_of_no_exclusion rfl]
    obtain rfl : r = Audit.report ⟨checkers, []⟩ (checkers.map results) := by
      rw [← hshare]
      exact Except.ok.inj (hrun.symm.trans hreport)
    exact ⟨results c, (haudit c hc).2,
      shows_report haccept.nodup (fun d hd => fits_history (haudit d hd).1) hc⟩
  · rw [hfail] at hrun
    cases hrun

end Audit

end PackageAudit
