import PackageAudit.Proofs.Rules.OnePass

/-!
# Proofs.Rules.AtOnce — checkers that are done before they see a file

Some checkers do all of their work at once, and others find out first that there is nothing for them
to look for. Their results are what this work makes of an empty batch:

* `Checker.audit_of_build` — the result of a checker that sees no files;
* `Checker.audit_single`, `Checker.ending_single_of_error` — that of work at once, and why it stops;
* `Checker.audit_reportAll`, `Checker.audit_problems` — that of work that only reports findings;
* `Batch.addSkips_of_nodup` — what is left out with all rules that nothing is known about.
-/

namespace PackageAudit

/-- A problem under a rule as a finding. -/
def Finding.ofPair (problem : CheckId × String) : Finding :=
  ⟨problem.1, problem.2⟩

/-! ## Rules left out -/

/-- Of different rules, those are left out that nothing is known about, in order. -/
theorem Batch.addSkips_of_nodup {b : Batch} {declared : List CheckId} {reason : String}
    (h : declared.Nodup) :
    b.addSkips declared reason =
      { b with
        skips := b.skips ++ (declared.filter fun check => !b.knows check).map (⟨·, reason⟩) } := by
  induction declared generalizing b with
  | nil => simp [addSkips]
  | cons check rest ih =>
    obtain ⟨hnew, hrest⟩ := List.nodup_cons.1 h
    have hor : (b.isSkipped check || b.hasFailed check) = b.knows check := rfl
    rw [addSkips, List.foldl_cons, hor]
    cases hknown : b.knows check with
    | true =>
      have hskip : (check :: rest).filter (fun check => !b.knows check) =
          rest.filter fun check => !b.knows check := List.filter_cons_of_neg (by simp [hknown])
      rw [hskip]
      exact ih hrest
    | false =>
      -- a rule that is left out now is none of those to come
      have hsame : rest.filter (fun other => !(b.addSkip check reason).knows other) =
          rest.filter fun other => !b.knows other := by
        refine List.filter_congr fun other hother => ?_
        have hne : check ≠ other := fun heq => hnew (heq ▸ hother)
        simp [hne]
      refine (ih (b := b.addSkip check reason) hrest).trans ?_
      rw [hsame, List.filter_cons_of_pos (by simp [hknown])]
      simp [addSkip]

/-- Where nothing is known about any rule, all of them are left out. -/
theorem Batch.addSkips_of_unknown {b : Batch} {declared : List CheckId} {reason : String}
    (h : declared.Nodup) (hunknown : ∀ check ∈ declared, b.knows check = false) :
    b.addSkips declared reason =
      { b with skips := b.skips ++ declared.map (⟨·, reason⟩) } := by
  have hall : (declared.filter fun check => !b.knows check) = declared :=
    List.filter_eq_self.2 fun check hcheck => by simp [hunknown check hcheck]
  rw [addSkips_of_nodup h, hall]

namespace Checker

variable {c : Checker} {name : String} {checks : List CheckId} {work : Subject → Check Unit}
  {s : Subject} {b : Batch}

/-! ## No files -/

/-- A checker that wants to see no files is done once it is built. -/
theorem audit_of_build (h : (c.build s).perform c.name c.checks .empty = (b, .ok none))
    (hbreach : b.breach = none) :
    c.audit s = .ok ⟨b.findings.reverse, b.skips, b.records.reverse⟩ := by
  have hwork : c.work s = (b, none) := by rw [Checker.work, h]
  simp only [audit, hwork, conclude, hbreach]

/-! ## Work at once -/

theorem work_single : (single name checks work).work s =
    match (work s).perform name checks .empty with
    | (b, .ok _) => (b, none)
    | (b, .error cause) => (b, some cause) := by
  let c := single name checks work
  have hbuild : (c.build s).perform c.name c.checks .empty =
      (work s >>= fun _ => pure none).perform name checks .empty := rfl
  rw [Check.perform_bind] at hbuild
  rw [Checker.work, hbuild]
  rcases (work s).perform name checks .empty with ⟨b, cause | _⟩
  · rfl
  · rfl

/-- Work that comes to its end hands over what is in its batch. -/
theorem audit_single (h : (work s).perform name checks .empty = (b, .ok ()))
    (hbreach : b.breach = none) :
    (single name checks work).audit s = .ok ⟨b.findings.reverse, b.skips, b.records.reverse⟩ := by
  simp only [audit, work_single, h, conclude, hbreach]

/-- Work that gives up before it has reported anything fails all of its rules. -/
theorem audit_single_of_precondition {message : String}
    (h : (work s).perform name checks .empty = (.empty, .error (.precondition message))) :
    (single name checks work).audit s = .ok ⟨checks.map (⟨·, message⟩), [], []⟩ := by
  simp only [audit, work_single, h, conclude]
  rfl

theorem ending_single_of_ok (h : (work s).perform name checks .empty = (b, .ok ())) :
    (single name checks work).ending s = none := by
  rw [ending, work_single, h]

/-- Work gives up as a whole for the reason for which it gives up on the empty batch. -/
theorem ending_single_of_error {cause : Stop}
    (h : (work s).perform name checks .empty = (b, .error cause)) :
    (single name checks work).ending s = some cause := by
  rw [ending, work_single, h]

/-- Work that only reports findings hands them over in order. -/
theorem audit_reportAll {findings : List Finding} (hwork : work s = Check.reportAll findings)
    (hdeclared : ∀ f ∈ findings, f.check ∈ checks) :
    (single name checks work).audit s = .ok ⟨findings, [], []⟩ := by
  obtain ⟨b, hperform, hextends⟩ :=
    Check.perform_reportAll name Batch.isWhole_empty hdeclared
  rw [audit_single (hwork ▸ hperform) hextends.breach, hextends.findings, hextends.skips,
    hextends.records]
  simp [Batch.empty]

theorem audit_problems {problems : List (CheckId × String)}
    (hwork : work s = problems.forM fun (rule, problem) => .finding rule problem)
    (hdeclared : ∀ problem ∈ problems, problem.1 ∈ checks) :
    (single name checks work).audit s = .ok ⟨problems.map Finding.ofPair, [], []⟩ := by
  refine audit_reportAll ?_ (List.forall_mem_map.2 hdeclared)
  exact hwork.trans (Check.forM_finding problems Finding.ofPair)

end Checker

end PackageAudit
