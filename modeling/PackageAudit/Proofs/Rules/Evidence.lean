import PackageAudit.Proofs.Rules.Baseline
import PackageAudit.Rules.Registry

/-!
# Proofs.Rules.Evidence — rules on outside knowledge pass only with it

Two checkers ask a service what was published before. A rule that depends on an answer passes only
if this answer was given and nothing in it is against the package. Where the service does not
answer, or not with something of use, the rule is left out and no finding is made up:

* `BaselineRules.publication_eq_met_iff`, `BaselineRules.reservation_eq_met_iff` — good answers;
* `ConfidentialRules.audit_of_unreached`, `ConfidentialRules.audit_of_rejected` — no index;
* `Report.Evidenced` — a report that says no more than the service does;
* `Rules.report_evidenced` — the report by all rules is one.
-/

namespace PackageAudit

/-! ## Answers about names and versions -/

namespace BaselineRules

variable {baselines : Baselines} {name version : String}

theorem publication_eq_met_iff :
    publication baselines name version = .met ↔ baselines.published name version = .ok none := by
  unfold publication
  rcases baselines.published name version with e | _ | manifest
  · exact ⟨nofun, nofun⟩
  · exact ⟨fun _ => rfl, fun _ => rfl⟩
  · exact ⟨nofun, nofun⟩

theorem availability_eq_met_iff {platform : Platform} :
    availability baselines name platform = .met ↔
      ∃ names, baselines.builtins platform = .ok names ∧ name ∉ names := by
  unfold availability
  cases baselines.builtins platform with
  | error e => simp
  | ok names => by_cases hmem : name ∈ names <;> simp [hmem]

theorem reservation_eq_met_iff {platform : Except ManifestError (Option Platform)} :
    reservation baselines name platform = .met ↔
      ∃ p names, platform = .ok (some p) ∧ baselines.builtins p = .ok names ∧ name ∉ names := by
  rcases platform with e | _ | p
  · simp [reservation]
  · simp [reservation]
  · simp [reservation, availability_eq_met_iff]

end BaselineRules

/-! ## Confidential content without an index -/

namespace ConfidentialRules

open Confidential (Index)

variable {s : Subject}

/-- A service that does not answer leaves nothing to look for. -/
theorem audit_of_unreached {e : NetworkError} (h : s.baselines.index = .error e) :
    checker.audit s = .ok ⟨[], checker.checks.map (⟨·, unreachedReason⟩), []⟩ := by
  have hperform : (checker.build s).perform checker.name checker.checks .empty =
      (Batch.empty.addSkips checker.checks unreachedReason, .ok none) := by
    change (build s).perform _ _ _ = _
    rw [build, h]
    rfl
  rw [Batch.addSkips_of_unknown (by decide) fun _ _ => rfl] at hperform
  exact Checker.audit_of_build hperform rfl

/-- So does one that answers with something else; that it was relied on is noted all the same. -/
theorem audit_of_rejected {blob : Bytes} {fault : Confidential.Fault}
    (h : s.baselines.index = .ok blob) (hparse : Index.parse blob = .error fault) :
    checker.audit s =
      .ok ⟨[], checker.checks.map (⟨·, invalidIndexReason⟩), [.of indexName blob]⟩ := by
  let b := Batch.empty.addRecord indexName blob
  have hperform : (checker.build s).perform checker.name checker.checks .empty =
      (b.addSkips checker.checks invalidIndexReason, .ok none) := by
    change (build s).perform _ _ _ = _
    rw [build, h]
    dsimp only
    rw [hparse]
    rfl
  rw [Batch.addSkips_of_unknown (by decide) fun _ _ => rfl] at hperform
  exact Checker.audit_of_build hperform rfl

end ConfidentialRules

/-! ## Reports -/

/--
A report that says no more than the service does. The first three fields are about rules that pass,
the others about answers that are missing.
-/
structure Report.Evidenced (r : Report) (s : Subject) : Prop where
  unpublished_of_pass : r.outcome? BaselineRules.unpublishedRule = some .pass →
    ∃ manifest name version, s.manifest = .ok manifest ∧ manifest.name = .ok name ∧
      manifest.version = .ok version ∧ s.baselines.published name version.text = .ok none
  notBuiltin_of_pass : r.outcome? BaselineRules.notBuiltinRule = some .pass →
    ∃ manifest name p names, s.manifest = .ok manifest ∧ manifest.name = .ok name ∧
      manifest.platform = .ok (some p) ∧ s.baselines.builtins p = .ok names ∧ name ∉ names
  index_of_pass : ∀ check ∈ ConfidentialRules.checker.checks, r.outcome? check = some .pass →
    ∃ blob index, s.baselines.index = .ok blob ∧ Confidential.Index.parse blob = .ok index
  unpublished_of_unreached : ∀ manifest name version e, s.manifest = .ok manifest →
    manifest.name = .ok name → manifest.version = .ok version →
    s.baselines.published name version.text = .error e →
    r.LeavesOut BaselineRules.unpublishedRule "network unavailable"
  notBuiltin_of_unreached : ∀ manifest name version p e, s.manifest = .ok manifest →
    manifest.name = .ok name → manifest.version = .ok version →
    manifest.platform = .ok (some p) → s.baselines.builtins p = .error e →
    r.LeavesOut BaselineRules.notBuiltinRule "network unavailable"
  index_of_unreached : ∀ e, s.baselines.index = .error e →
    ∀ check ∈ ConfidentialRules.checker.checks, r.LeavesOut check "network unavailable"
  index_of_rejected : ∀ blob fault, s.baselines.index = .ok blob →
    Confidential.Index.parse blob = .error fault →
    ∀ check ∈ ConfidentialRules.checker.checks, r.LeavesOut check "invalid baseline"

namespace Rules

variable {r : Report} {s : Subject}

section Registry

variable {result : BatchResult} (haudit : BaselineRules.checker.audit s = .ok result)
  (hshows : r.Shows BaselineRules.checker result)
include haudit hshows

/-- A rule on the registry that passes, passes by its verdict. -/
theorem identity_of_pass {check : CheckId} (hcheck : check ∈ BaselineRules.checker.checks)
    (hpass : r.outcome? check = some .pass) :
    ∃ manifest name version, BaselineRules.identity s = .ok (manifest, name, version) := by
  cases hidentity : BaselineRules.identity s with
  | ok found => exact ⟨_, _, _, rfl⟩
  | error e =>
    -- otherwise there is a finding under both rules
    obtain rfl := Except.ok.inj (haudit.symm.trans (BaselineRules.audit_of_unidentified hidentity))
    rcases (hshows.outcome?_eq_pass_iff hcheck).1 hpass with ⟨hnone, -⟩
    exact absurd rfl (hnone ⟨check, e.message⟩ (List.mem_map_of_mem hcheck))

theorem unpublished_of_pass (hpass : r.outcome? BaselineRules.unpublishedRule = some .pass) :
    ∃ manifest name version, s.manifest = .ok manifest ∧ manifest.name = .ok name ∧
      manifest.version = .ok version ∧ s.baselines.published name version.text = .ok none := by
  rcases identity_of_pass haudit hshows BaselineRules.unpublishedRule_mem hpass with
    ⟨manifest, name, version, hidentity⟩
  rcases BaselineRules.identity_eq_ok_iff.1 hidentity with ⟨hmanifest, hname, hversion⟩
  rcases BaselineRules.gives_of_identity hidentity haudit hshows with ⟨hgives, -⟩
  exact ⟨manifest, name, version, hmanifest, hname, hversion,
    BaselineRules.publication_eq_met_iff.1 (hgives.eq_met_of_pass hpass)⟩

theorem notBuiltin_of_pass (hpass : r.outcome? BaselineRules.notBuiltinRule = some .pass) :
    ∃ manifest name p names, s.manifest = .ok manifest ∧ manifest.name = .ok name ∧
      manifest.platform = .ok (some p) ∧ s.baselines.builtins p = .ok names ∧ name ∉ names := by
  rcases identity_of_pass haudit hshows BaselineRules.notBuiltinRule_mem hpass with
    ⟨manifest, name, version, hidentity⟩
  rcases BaselineRules.identity_eq_ok_iff.1 hidentity with ⟨hmanifest, hname, -⟩
  rcases BaselineRules.gives_of_identity hidentity haudit hshows with ⟨-, hgives⟩
  rcases BaselineRules.reservation_eq_met_iff.1 (hgives.eq_met_of_pass hpass) with
    ⟨p, names, hplatform, hnames, hnew⟩
  exact ⟨manifest, name, p, names, hmanifest, hname, hplatform, hnames, hnew⟩

end Registry

section Index

variable {result : BatchResult} (haudit : ConfidentialRules.checker.audit s = .ok result)
  (hshows : r.Shows ConfidentialRules.checker result) {check : CheckId}
  (hcheck : check ∈ ConfidentialRules.checker.checks)
include haudit hshows hcheck

theorem leavesOut_of_unreached {e : NetworkError} (h : s.baselines.index = .error e) :
    r.LeavesOut check "network unavailable" := by
  obtain rfl := Except.ok.inj (haudit.symm.trans (ConfidentialRules.audit_of_unreached h))
  exact hshows.leavesOut_all (by decide) hcheck

theorem leavesOut_of_rejected {blob : Bytes} {fault : Confidential.Fault}
    (h : s.baselines.index = .ok blob) (hparse : Confidential.Index.parse blob = .error fault) :
    r.LeavesOut check "invalid baseline" := by
  obtain rfl := Except.ok.inj (haudit.symm.trans (ConfidentialRules.audit_of_rejected h hparse))
  exact hshows.leavesOut_all (by decide) hcheck

theorem index_of_pass (hpass : r.outcome? check = some .pass) :
    ∃ blob index, s.baselines.index = .ok blob ∧ Confidential.Index.parse blob = .ok index := by
  have hnever {reason : String} (h : r.LeavesOut check reason) : False := by
    rw [h.outcome_eq] at hpass
    cases hpass
  cases hindex : s.baselines.index with
  | error e => exact (hnever (leavesOut_of_unreached haudit hshows hcheck hindex)).elim
  | ok blob =>
    cases hparse : Confidential.Index.parse blob with
    | error fault =>
      exact (hnever (leavesOut_of_rejected haudit hshows hcheck hindex hparse)).elim
    | ok index => exact ⟨blob, index, rfl, hparse⟩

end Index

/--
No rule on outside knowledge passes without an answer that says so. Where an answer is missing, the
rule is left out for that reason.
-/
theorem report_evidenced (source : Source) (baselines : Baselines) :
    ∃ a r, Audit.ofCheckers checkers = .ok a ∧ a.run source baselines = .ok r ∧
      r.Evidenced (.of source baselines) := by
  obtain ⟨a, r, ha, hrun, hshares⟩ := report_of_sublist (.refl checkers) source baselines
  obtain ⟨registry, hregistry, hshowsRegistry⟩ := hshares BaselineRules.checker (by simp [checkers])
  obtain ⟨content, hcontent, hshowsContent⟩ :=
    hshares ConfidentialRules.checker (by simp [checkers])
  refine ⟨a, r, ha, hrun, ?_⟩
  constructor
  · exact unpublished_of_pass hregistry hshowsRegistry
  · exact notBuiltin_of_pass hregistry hshowsRegistry
  · exact fun check hcheck => index_of_pass hcontent hshowsContent hcheck
  · intro manifest name version e hmanifest hname hversion hanswer
    rcases BaselineRules.gives_of_identity
      (BaselineRules.identity_eq_ok_iff.2 ⟨hmanifest, hname, hversion⟩) hregistry hshowsRegistry
      with ⟨hgives, -⟩
    rw [BaselineRules.publication, hanswer] at hgives
    exact hgives.leavesOut_iff.2 rfl
  · intro manifest name version p e hmanifest hname hversion hplatform hanswer
    rcases BaselineRules.gives_of_identity
      (BaselineRules.identity_eq_ok_iff.2 ⟨hmanifest, hname, hversion⟩) hregistry hshowsRegistry
      with ⟨-, hgives⟩
    simp only [hplatform, BaselineRules.reservation, BaselineRules.availability, hanswer] at hgives
    exact hgives.leavesOut_iff.2 rfl
  · exact fun e he check hcheck => leavesOut_of_unreached hcontent hshowsContent hcheck he
  · exact fun blob fault hblob hfault check hcheck =>
      leavesOut_of_rejected hcontent hshowsContent hcheck hblob hfault

end Rules

end PackageAudit
