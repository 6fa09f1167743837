import Mathlib.Data.List.Flatten
import PackageAudit.Package.Memory
import PackageAudit.Proofs.Audit.Registry
import PackageAudit.Proofs.Audit.Safety
import PackageAudit.Proofs.Audit.Share
import PackageAudit.Rules.Registry

/-!
# Proofs.Rules.Reporting — every package has a report

No rule of this library breaks the rules of reporting, whatever the package and the services are, so
that a run of its checkers always comes to a report (`Rules.run_ok_of_sublist`). Without exclusions
it says of each of them what its work comes to (`Rules.report_of_sublist`).

Most checkers report nothing but findings once they are at work, and then no rule is left out
(`Batch.IsWhole`). The exception is the checker that asks the registry: it leaves out the one rule
after it is done with the other.
-/

namespace PackageAudit

/-! ## Findings while no rule is left out -/

namespace Batch

/-- No rule is left out. -/
def IsWhole (b : Batch) : Prop :=
  b.skips = []

variable {b : Batch} {declared : List CheckId} {check : CheckId}

theorem isWhole_empty : Batch.empty.IsWhole :=
  rfl

theorem IsWhole.findingBreach? (h : b.IsWhole) (hmem : check ∈ declared) :
    b.findingBreach? declared check = none := by
  have hskips : b.skips = [] := h
  simp [Batch.findingBreach?, isSkipped, hskips, hmem]

end Batch

namespace Check

variable {b : Batch} {declared : List CheckId}

/-- A finding leaves no rule out. -/
theorem safe_finding_of_isWhole {check : CheckId} {message : String} (hmem : check ∈ declared)
    (hb : b.IsWhole) : (finding check message).Safe declared b fun _ => Batch.IsWhole :=
  safe_finding.2 ⟨hb.findingBreach? hmem, hb⟩

theorem safe_findings {problems : List (CheckId × String)}
    (hmem : ∀ problem ∈ problems, problem.1 ∈ declared) (hb : b.IsWhole) :
    (problems.forM fun (rule, problem) => finding rule problem).Safe declared b
      fun _ => Batch.IsWhole :=
  safe_forM (fun problem hproblem _ hb => safe_finding_of_isWhole (hmem problem hproblem) hb) hb

end Check

/-! ## The manifest -/

namespace ManifestRules

theorem rule_mem_of_mem_problems {root : Node} {problem : CheckId × String}
    (h : problem ∈ problems root) : problem.1 ∈ checker.checks := by
  simp only [problems, List.mem_append, List.mem_map] at h
  rcases h with (((⟨_, _, rfl⟩ | ⟨_, _, rfl⟩) | ⟨_, _, rfl⟩) | ⟨_, _, rfl⟩) | ⟨_, _, rfl⟩ <;>
    simp [checker, Checker.single]

theorem reliable_checker (s : Subject) : checker.Reliable s := by
  refine Checker.reliable_single ?_
  unfold work
  split
  · refine (Check.safe_findings ?_ Batch.isWhole_empty).mono fun _ _ _ => trivial
    exact fun problem => rule_mem_of_mem_problems
  · -- the other rules are left out only if nothing is known about them
    rw [Check.safe_bind, Check.safe_finding]
    exact ⟨Batch.isWhole_empty.findingBreach? List.mem_cons_self, trivial⟩
  · exact Check.safe_precondition

end ManifestRules

/-! ## Documents -/

namespace SyntaxRules

theorem rule?_mem {e : Entry} {rule : CheckId} (h : rule? e = some rule) :
    rule ∈ checker.checks := by
  unfold rule? at h
  split at h
  · cases h
    simp [checker]
  · split at h
    · cases h
      simp [checker]
    · cases h

theorem safe_inspect {declared : List CheckId} {b : Batch} (source : Source) (path : String)
    {rule : CheckId} (hmem : rule ∈ declared) (hb : b.IsWhole) :
    (inspect source path rule).Safe declared b fun _ => Batch.IsWhole := by
  unfold inspect
  rw [Check.safe_bind]
  refine Check.safe_ofFile fun size _ => ?_
  split
  · exact Check.safe_finding_of_isWhole hmem hb
  · rw [Check.safe_bind]
    refine Check.safe_ofFile fun content _ => ?_
    split
    · exact Check.safe_finding_of_isWhole hmem hb
    · exact Check.safe_pure.2 hb

theorem reliable_checker (s : Subject) : checker.Reliable s := by
  refine Checker.reliable_of_safe (fun _ => Batch.IsWhole) ?_ ?_ ?_
  · intro state _
    exact Batch.isWhole_empty
  · intro e pass state b hb
    change (visit s e).Safe checker.checks b _
    unfold visit
    split
    · next rule hrule => exact safe_inspect s.source e.path (rule?_mem hrule) hb
    · exact Check.safe_pure.2 hb
  · intro state b hb
    exact Check.safe_pure.2 hb

end SyntaxRules

/-! ## Identifiers -/

namespace IdentityRules

theorem safe_inspect {b : Batch} (source : Source) (path : String) (owners : Owners)
    (hb : b.IsWhole) :
    (inspect source path owners).Safe checker.checks b fun _ => Batch.IsWhole := by
  unfold inspect
  rw [Check.safe_bind]
  refine Check.safe_ofFile fun size _ => ?_
  split
  · exact Check.safe_pure.2 hb
  · rw [Check.safe_bind]
    refine Check.safe_ofFile fun content _ => ?_
    split
    · exact Check.safe_pure.2 hb
    · split
      · exact Check.safe_pure.2 hb
      · rw [Check.safe_bind]
        exact Check.safe_finding_of_isWhole List.mem_cons_self hb

theorem reliable_checker (s : Subject) : checker.Reliable s := by
  refine Checker.reliable_of_safe (fun _ => Batch.IsWhole) ?_ ?_ ?_
  · intro state _
    exact Batch.isWhole_empty
  · intro e pass owners b hb
    change (visit s e owners).Safe checker.checks b _
    unfold visit
    split
    · exact safe_inspect s.source e.path owners hb
    · exact Check.safe_pure.2 hb
  · intro owners b hb
    refine Check.safe_forM ?_ hb
    intro shared _ b hb
    exact Check.safe_finding_of_isWhole (List.mem_cons_of_mem _ List.mem_cons_self) hb

end IdentityRules

/-! ## Companion files -/

namespace ConsistencyRules

theorem rule_mem_of_mem_problems {target : Target} {entries : EntrySet}
    {problem : CheckId × String} (h : problem ∈ problems target entries) :
    problem.1 ∈ checker.checks := by
  obtain ⟨e, -, he⟩ := List.mem_filterMap.1 h
  unfold problem? at he
  split at he
  · obtain ⟨text, -, rfl⟩ := Option.map_eq_some_iff.1 he
    exact List.mem_cons_self
  · split at he
    · cases he
    · cases he
      exact List.mem_cons_of_mem _ List.mem_cons_self

theorem reliable_checker (s : Subject) : checker.Reliable s := by
  refine Checker.reliable_single ?_
  refine (Check.safe_findings ?_ Batch.isWhole_empty).mono fun _ _ _ => trivial
  exact fun problem => rule_mem_of_mem_problems

end ConsistencyRules

/-! ## The registry -/

namespace BaselineRules

variable {b : Batch}

/-- Whatever becomes of the question for the version, nothing is known about the other rule. -/
theorem safe_checkPublished (baselines : Baselines) (name version : String)
    (hunpublished : b.knows unpublishedRule = false) (hbuiltin : b.knows notBuiltinRule = false) :
    (checkPublished baselines name version).Safe checker.checks b
      fun _ b => b.knows notBuiltinRule = false := by
  have hmem : unpublishedRule ∈ checker.checks := List.mem_cons_self
  have hne : (unpublishedRule == notBuiltinRule) = false := by decide
  unfold checkPublished
  split
  · rw [Check.safe_bind, Check.safe_relyOn, Check.safe_finding]
    refine ⟨Batch.findingBreach?_of_unknown (by simpa using hunpublished) hmem, ?_⟩
    simp [hbuiltin, hne]
  · exact Check.safe_pure.2 hbuiltin
  · rw [Check.safe_leaveOut]
    refine ⟨Batch.skipBreach?_of_unknown hunpublished hmem, ?_⟩
    simp [hbuiltin, hne]

theorem safe_leaveOut_builtin (reason : String) (hbuiltin : b.knows notBuiltinRule = false) :
    (Check.leaveOut notBuiltinRule reason).Safe checker.checks b fun _ _ => True :=
  ⟨Batch.skipBreach?_of_unknown hbuiltin (List.mem_cons_of_mem _ List.mem_cons_self), trivial⟩

theorem safe_checkBuiltin (baselines : Baselines) (name : String) (platform : Platform)
    (hbuiltin : b.knows notBuiltinRule = false) :
    (checkBuiltin baselines name platform).Safe checker.checks b fun _ _ => True := by
  unfold checkBuiltin
  split
  · rw [Check.safe_bind, Check.safe_relyOn]
    split
    · refine ⟨Batch.findingBreach?_of_unknown (by simpa using hbuiltin) ?_, trivial⟩
      exact List.mem_cons_of_mem _ List.mem_cons_self
    · exact Check.safe_pure.2 trivial
  · exact safe_leaveOut_builtin unreachedReason hbuiltin

theorem reliable_checker (s : Subject) : checker.Reliable s := by
  refine Checker.reliable_single ?_
  unfold work
  rw [Check.safe_bind]
  refine Check.safe_ofManifest fun manifest _ => ?_
  rw [Check.safe_bind]
  refine Check.safe_ofManifest fun name _ => ?_
  rw [Check.safe_bind]
  refine Check.safe_ofManifest fun version _ => ?_
  rw [Check.safe_bind]
  refine (safe_checkPublished s.baselines name version.text rfl rfl).mono fun _ b hbuiltin => ?_
  -- one call at most is made about the other rule, on each of the three ways
  split
  · exact safe_checkBuiltin s.baselines name _ hbuiltin
  · exact safe_leaveOut_builtin noPlatformReason hbuiltin
  · exact safe_leaveOut_builtin invalidPlatformReason hbuiltin

end BaselineRules

/-! ## Confidential content -/

namespace ConfidentialRules

open Confidential (Index)

variable {b : Batch}

/-- Without an index all rules are left out, and no file is looked at. -/
theorem safe_build (s : Subject) :
    (build s).Safe checker.checks .empty
      fun index? b => ∀ index, index? = some index → b.IsWhole := by
  unfold build
  split
  · -- the service does not answer
    rw [Check.safe_bind, Check.safe_leaveOutRest]
    intro index hindex
    cases hindex
  · rw [Check.safe_bind, Check.safe_relyOn]
    split
    · intro index _
      exact Batch.isWhole_empty
    · -- it answers with something else
      rw [Check.safe_bind, Check.safe_leaveOutRest]
      intro index hindex
      cases hindex

theorem safe_checkPath (index : Index) (e : Entry) (hb : b.IsWhole) :
    (checkPath index e).Safe checker.checks b fun _ => Batch.IsWhole := by
  unfold checkPath
  split
  · exact Check.safe_finding_of_isWhole (by simp [checker]) hb
  · exact Check.safe_pure.2 hb

theorem safe_digestOf {source : Source} {path : String} {known : Option FilteredDigest}
    {post : FilteredDigest → Batch → Prop} (h : ∀ digest, post digest b) :
    (digestOf source path known).Safe checker.checks b post := by
  unfold digestOf
  split
  · exact Check.safe_pure.2 (h _)
  · rw [Check.safe_bind]
    refine Check.safe_ofFile fun stream _ => ?_
    rw [Check.safe_bind]
    exact Check.safe_orStop fun content _ => Check.safe_pure.2 (h _)

theorem safe_search (source : Source) (path : String) (size : Nat) (known : Option FilteredDigest)
    (secrets : List Confidential.Secret) (hb : b.IsWhole) :
    (search source path size known secrets).Safe checker.checks b fun _ => Batch.IsWhole := by
  induction secrets generalizing known with
  | nil =>
    rw [search]
    exact Check.safe_pure.2 hb
  | cons s rest ih =>
    rw [search]
    split
    · exact ih known
    · rw [Check.safe_bind]
      refine safe_digestOf fun digest => ?_
      split
      · exact Check.safe_finding_of_isWhole (by simp [checker]) hb
      · exact ih (some digest)

theorem safe_checkHash (index : Index) (source : Source) (path : String) (size : Nat)
    (hb : b.IsWhole) :
    (checkHash index source path size).Safe checker.checks b fun _ => Batch.IsWhole := by
  unfold checkHash
  split
  · exact Check.safe_pure.2 hb
  · rw [Check.safe_bind]
    exact Check.safe_ofFile fun start _ => safe_search source path size none _ hb

theorem safe_readText (source : Source) (path : String) (size : Nat) (hb : b.IsWhole) :
    (readText source path size).Safe checker.checks b fun _ => Batch.IsWhole := by
  unfold readText
  split
  · exact Check.safe_pure.2 hb
  · rw [Check.safe_bind]
    exact Check.safe_ofFile fun content _ => Check.safe_pure.2 hb

theorem safe_checkContent (index : Index) (source : Source) (e : Entry) (size : Nat)
    (hb : b.IsWhole) :
    (checkContent index source e size).Safe checker.checks b fun _ => Batch.IsWhole := by
  have hmem : contentRule ∈ checker.checks := by simp [checker]
  unfold checkContent
  dsimp only
  split
  · exact Check.safe_pure.2 hb
  · rw [Check.safe_bind]
    refine (safe_readText source e.path size hb).mono fun text? b hb => ?_
    split
    · exact Check.safe_finding_of_isWhole hmem hb
    · exact Check.safe_forM (fun _ _ _ hb => Check.safe_finding_of_isWhole hmem hb) hb

theorem safe_visit (s : Subject) (e : Entry) (index : Index) (hb : b.IsWhole) :
    (visit s e index).Safe checker.checks b fun _ => Batch.IsWhole := by
  unfold visit
  rw [Check.safe_bind]
  refine (safe_checkPath index e hb).mono fun _ b hb => ?_
  rw [Check.safe_bind]
  refine Check.safe_ofFile fun size _ => ?_
  rw [Check.safe_bind]
  refine (safe_checkHash index s.source e.path size hb).mono fun _ b hb => ?_
  rw [Check.safe_bind]
  exact (safe_checkContent index s.source e size hb).mono fun _ _ hb => Check.safe_pure.2 hb

theorem reliable_checker (s : Subject) : checker.Reliable s := by
  -- a checker that has an index leaves nothing out from there on
  refine Checker.reliable_of_safe (fun _ => Batch.IsWhole) (safe_build s) ?_ ?_
  · intro e pass index b hb
    exact safe_visit s e index hb
  · intro index b hb
    exact Check.safe_pure.2 hb

end ConfidentialRules

/-! ## All rules -/

namespace Rules

theorem reliable_of_mem {c : Checker} (h : c ∈ checkers) (s : Subject) : c.Reliable s := by
  simp only [checkers, List.mem_cons, List.not_mem_nil, or_false] at h
  rcases h with rfl | rfl | rfl | rfl | rfl | rfl
  · exact ManifestRules.reliable_checker s
  · exact SyntaxRules.reliable_checker s
  · exact IdentityRules.reliable_checker s
  · exact BaselineRules.reliable_checker s
  · exact ConsistencyRules.reliable_checker s
  · exact ConfidentialRules.reliable_checker s

theorem acceptable_checkers : Audit.Acceptable checkers where
  nonempty := by
    intro c h
    simp only [checkers, List.mem_cons, List.not_mem_nil, or_false] at h
    rcases h with rfl | rfl | rfl | rfl | rfl | rfl <;> exact List.cons_ne_nil _ _
  wellFormed := by decide
  nodup := by decide

/-- A part of the checkers has rules of its own, each with one owner. -/
theorem acceptable_of_sublist {cs : List Checker} (h : cs.Sublist checkers) :
    Audit.Acceptable cs where
  nonempty c hc := acceptable_checkers.nonempty c (h.subset hc)
  wellFormed check hcheck :=
    acceptable_checkers.wellFormed check ((h.flatMap _).subset hcheck)
  nodup := acceptable_checkers.nodup.sublist (h.flatMap _)

/--
Any of the checkers together make an audit, which may leave out any of their rules, and a run of it
comes to a report on every package, whatever its files and the services answer. No checker makes a
report that it may not make.
-/
theorem run_ok_of_sublist {cs : List Checker} (h : cs.Sublist checkers) :
    ∃ base, Audit.ofCheckers cs = .ok base ∧
      ∀ names : List String, (∀ name ∈ names, ⟨name⟩ ∈ cs.flatMap (·.checks)) →
        ∃ a, base.exclude names = .ok a ∧
          ∀ (source : Source) (baselines : Baselines),
            (∀ c ∈ cs, firstBreach? c.checks (c.log (.of source baselines)) = none) ∧
              ∃ r, a.run source baselines = .ok r := by
  refine ⟨⟨cs, []⟩, Audit.ofCheckers_eq_ok_iff.2 ⟨acceptable_of_sublist h, rfl⟩, ?_⟩
  intro names hnames
  refine ⟨_, Audit.exclude_eq_ok_iff.2 ⟨hnames, rfl⟩, ?_⟩
  intro source baselines
  have hreliable : ∀ c ∈ cs, c.Reliable (.of source baselines) :=
    fun c hc => reliable_of_mem (h.subset hc) _
  exact ⟨fun c hc => (hreliable c hc).legal, Audit.run_of_reliable hreliable⟩

/-- A package without files has a report, by two of the checkers and without the rule on names. -/
theorem run_ok_manifest_registry :
    [ManifestRules.checker, BaselineRules.checker].Sublist checkers ∧
      ∃ base, Audit.ofCheckers [ManifestRules.checker, BaselineRules.checker] = .ok base ∧
        ∃ a, base.exclude ["PVP-002-1"] = .ok a ∧
          ∃ r, a.run MemoryPackage.empty.source .offline = .ok r := by
  have hsub : [ManifestRules.checker, BaselineRules.checker].Sublist checkers :=
    .cons_cons _ (.cons _ (.cons _ (.cons_cons _ (.cons _ (.cons _ .slnil)))))
  obtain ⟨base, hbase, hall⟩ := run_ok_of_sublist hsub
  obtain ⟨a, ha, hrun⟩ := hall ["PVP-002-1"] (by decide)
  exact ⟨hsub, base, hbase, a, ha, (hrun _ _).2⟩

/-- The report by some of the checkers says of each of them what its work comes to. -/
theorem report_of_sublist {cs : List Checker} (h : cs.Sublist checkers) (source : Source)
    (baselines : Baselines) :
    ∃ a r, Audit.ofCheckers cs = .ok a ∧ a.run source baselines = .ok r ∧
      ∀ c ∈ cs, ∃ result, c.audit (.of source baselines) = .ok result ∧ r.Shows c result := by
  have hcheckers : Audit.ofCheckers cs = .ok ⟨cs, []⟩ :=
    Audit.ofCheckers_eq_ok_iff.2 ⟨acceptable_of_sublist h, rfl⟩
  have hreliable : ∀ c ∈ (Audit.mk cs []).checkers, c.Reliable (.of source baselines) :=
    fun c hc => reliable_of_mem (h.subset hc) _
  obtain ⟨r, hrun⟩ := Audit.run_of_reliable hreliable
  exact ⟨_, r, hcheckers, hrun, fun c hc => Audit.shows_of_run hcheckers hrun hc⟩

end Rules

end PackageAudit
