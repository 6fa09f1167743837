import PackageAudit.Proofs.Rules.Baseline
import PackageAudit.Rules.Registry

/-!
# Proofs.Rules.Agreement — two checkers agree about the manifest

The rules on the manifest look at its document, and the rules on the registry ask for the values of
its members. What the first find good is good enough for the second, and what they find wrong about
the minimum release is why a rule on the registry is left out:

* `ManifestRules.identity_of_pass` — a manifest that passes has a name and a version;
* `BaselineRules.reservation_eq_invalid_iff`, `BaselineRules.reservation_eq_undeclared_iff` — when
  there is no release to ask about;
* `Report.Agrees` — a report in which both agree;
* `Rules.report_agrees` — every report by both of them is one.
-/

namespace PackageAudit

/-! ## The manifest -/

namespace ManifestRules

variable {s : Subject} {r : Report} {result : BatchResult}

section Passed

variable (haudit : checker.audit s = .ok result) (hshows : r.Shows checker result)
include haudit hshows

/-- The first rule fails unless there is a manifest. -/
theorem exists_manifest_of_pass (hlegible : r.outcome? syntaxRule = some .pass) :
    ∃ manifest, s.manifest = .ok manifest := by
  have hmem : syntaxRule ∈ checker.checks := List.mem_cons_self
  rcases (hshows.outcome?_eq_pass_iff hmem).1 hlegible with ⟨hnone, -⟩
  cases hmanifest : s.manifest with
  | ok manifest => exact ⟨manifest, rfl⟩
  | error e =>
    by_cases hinvalid : ∃ e', e = .invalid e'
    · rcases hinvalid with ⟨e', rfl⟩
      obtain rfl := Except.ok.inj (haudit.symm.trans (audit_of_invalid hmanifest))
      exact absurd rfl (hnone _ List.mem_cons_self)
    · obtain rfl := Except.ok.inj
        (haudit.symm.trans (audit_of_unusable hmanifest (not_exists.1 hinvalid)))
      exact absurd rfl (hnone ⟨syntaxRule, e.message⟩ (List.mem_map_of_mem hmem))

/-- A manifest of which the first three rules hold has a name and a version. -/
theorem identity_of_pass (hlegible : r.outcome? syntaxRule = some .pass)
    (hname : r.outcome? nameRule = some .pass) (hversion : r.outcome? versionRule = some .pass) :
    ∃ manifest name version, BaselineRules.identity s = .ok (manifest, name, version) := by
  rcases exists_manifest_of_pass haudit hshows hlegible with ⟨manifest, hmanifest⟩
  obtain rfl := Except.ok.inj (haudit.symm.trans (audit_of_manifest hmanifest))
  have hnameOk : nameProblem? (manifest.root.get "name") = none := by
    rcases (hshows.outcome?_eq_pass_iff (by decide)).1 hname with ⟨hnone, -⟩
    refine Option.eq_none_iff_forall_ne_some.2 fun message hmessage => ?_
    exact hnone _ (mem_found_name.2 hmessage) rfl
  have hversionOk : versionProblem? (manifest.root.get "version") = none := by
    rcases (hshows.outcome?_eq_pass_iff (by decide)).1 hversion with ⟨hnone, -⟩
    refine Option.eq_none_iff_forall_ne_some.2 fun message hmessage => ?_
    exact hnone _ (mem_found_version.2 hmessage) rfl
  rcases nameProblem?_eq_none_iff.1 hnameOk with ⟨name, hvalue, -⟩
  rcases versionProblem?_eq_none_iff.1 hversionOk with ⟨text, version, htext, hparse⟩
  exact ⟨manifest, name, version, BaselineRules.identity_eq_ok_iff.2 ⟨hmanifest,
    Manifest.name_eq_ok_iff.2 hvalue, Manifest.version_eq_ok_iff.2 ⟨text, htext, hparse⟩⟩⟩

end Passed

end ManifestRules

/-! ## The minimum release -/

namespace BaselineRules

variable {baselines : Baselines} {name : String}

/-- For a release there is one reason only to leave the rule out. -/
theorem reason_of_availability {platform : Platform} {reason : String}
    (h : availability baselines name platform = .leftOut reason) :
    reason = "network unavailable" := by
  unfold availability at h
  split at h
  · split at h
    · cases h
    · cases h
  · cases h
    rfl

theorem message_of_reservation {platform : Except ManifestError (Option Platform)}
    {message : String} (h : reservation baselines name platform = .broken message) :
    ∃ p, platform = .ok (some p) ∧
      message = s!"{name} is built into platform release {p.text}" := by
  rcases platform with e | _ | p
  · cases h
  · cases h
  · rw [reservation, availability] at h
    split at h
    · split at h
      · cases h
        exact ⟨p, rfl, rfl⟩
      · cases h
    · cases h

theorem reservation_eq_undeclared_iff {platform : Except ManifestError (Option Platform)} :
    reservation baselines name platform = .leftOut "no minimum platform version declared" ↔
      platform = .ok none := by
  rcases platform with e | _ | p
  · simp [reservation]
  · simp [reservation]
  · refine iff_of_false (fun h => ?_) (fun h => by cases h)
    exact absurd (reason_of_availability h) (by decide)

theorem reservation_eq_invalid_iff {platform : Except ManifestError (Option Platform)} :
    reservation baselines name platform = .leftOut "invalid minimum platform version" ↔
      ∃ e, platform = .error e := by
  rcases platform with e | _ | p
  · simp [reservation]
  · simp [reservation]
  · refine iff_of_false (fun h => ?_) (by rintro ⟨_, ⟨⟩⟩)
    exact absurd (reason_of_availability h) (by decide)

theorem message_of_publication {version message : String}
    (h : publication baselines name version = .broken message) :
    message = s!"{name}@{version} is already published" := by
  unfold publication at h
  split at h
  · cases h
    rfl
  · cases h
  · cases h

end BaselineRules

/-- The release of a manifest cannot be used if it is declared and a problem is found with it. -/
theorem Manifest.exists_platform_error_iff {m : Manifest} :
    (∃ e, m.platform = .error e) ↔ (m.root.get "unity").isAbsent = false ∧
      ManifestRules.platformProblem? (m.root.get "unity") ≠ none := by
  have hsome : (∃ p, m.platform = .ok (some p)) ↔
      ∃ text p, (m.root.get "unity").string = .ok text ∧ Platform.parse text = .ok p := by
    simp only [platform_eq_some_iff]
    exact exists_comm
  rw [Ne, ManifestRules.platformProblem?_eq_none_iff, not_or, ← platform_eq_none_iff, ← hsome,
    ← Bool.not_eq_true, ← platform_eq_none_iff]
  rcases m.platform with e | _ | p <;> simp

/-! ## Reports -/

open ManifestRules (syntaxRule nameRule versionRule platformRule)
open BaselineRules (unpublishedRule notBuiltinRule)

/--
A report in which the rules on the manifest and those on the registry agree. If the first three
rules hold, the manifest is all that the rules on the registry need, and then a finding of theirs is
about what the registry knows. What they make of the minimum release is what is found about it.
-/
structure Report.Agrees (r : Report) (s : Subject) : Prop where
  sufficient : r.outcome? syntaxRule = some .pass → r.outcome? nameRule = some .pass →
    r.outcome? versionRule = some .pass → ∃ manifest name version, s.manifest = .ok manifest ∧
      manifest.name = .ok name ∧ manifest.version = .ok version ∧
      (∀ message, BaselineRules.checker.ending s ≠ some (.precondition message)) ∧
      (∀ f ∈ r.findingsFor unpublishedRule,
        f.message = s!"{name}@{version.text} is already published") ∧
      ∀ f ∈ r.findingsFor notBuiltinRule, ∃ p, manifest.platform = .ok (some p) ∧
        f.message = s!"{name} is built into platform release {p.text}"
  release : (∀ message, BaselineRules.checker.ending s ≠ some (.precondition message)) →
    ∃ manifest, s.manifest = .ok manifest ∧
      (r.LeavesOut notBuiltinRule "invalid minimum platform version" ↔
        (manifest.root.get "unity").isAbsent = false ∧
          ∃ f ∈ r.findingsFor platformRule, ∃ rest, f.message = ".unity: " ++ rest) ∧
      (r.LeavesOut notBuiltinRule "no minimum platform version declared" ↔
        (manifest.root.get "unity").isAbsent = true)

namespace Rules

/-- The rules on the manifest and those on the registry agree in every report by both of them. -/
theorem report_agrees {cs : List Checker} (h : cs.Sublist checkers)
    (hmanifest : ManifestRules.checker ∈ cs) (hregistry : BaselineRules.checker ∈ cs)
    (source : Source) (baselines : Baselines) :
    ∃ a r, Audit.ofCheckers cs = .ok a ∧ a.run source baselines = .ok r ∧
      r.Agrees (.of source baselines) := by
  obtain ⟨a, r, ha, hrun, hshares⟩ := report_of_sublist h source baselines
  obtain ⟨first, hfirst, hshowsFirst⟩ := hshares _ hmanifest
  obtain ⟨second, hsecond, hshowsSecond⟩ := hshares _ hregistry
  refine ⟨a, r, ha, hrun, ?_, ?_⟩
  · intro hlegible hname hversion
    rcases ManifestRules.identity_of_pass hfirst hshowsFirst hlegible hname hversion with
      ⟨manifest, name, version, hidentity⟩
    rcases BaselineRules.identity_eq_ok_iff.1 hidentity with ⟨hmanifest, hname, hversion⟩
    rcases BaselineRules.gives_of_identity hidentity hsecond hshowsSecond with
      ⟨hpublication, hreservation⟩
    refine ⟨manifest, name, version, hmanifest, hname, hversion,
      BaselineRules.applicable_iff.2 ⟨_, _, _, hidentity⟩, ?_, ?_⟩
    · intro f hf
      rw [hpublication.findings_eq] at hf
      rcases Verdict.mem_findings_iff.1 hf with ⟨message, hbroken, rfl⟩
      exact BaselineRules.message_of_publication hbroken
    · intro f hf
      rw [hreservation.findings_eq] at hf
      rcases Verdict.mem_findings_iff.1 hf with ⟨message, hbroken, rfl⟩
      exact BaselineRules.message_of_reservation hbroken
  · intro happlicable
    rcases BaselineRules.applicable_iff.1 happlicable with ⟨manifest, name, version, hidentity⟩
    rcases BaselineRules.identity_eq_ok_iff.1 hidentity with ⟨hmanifest, -, -⟩
    rcases BaselineRules.gives_of_identity hidentity hsecond hshowsSecond with ⟨-, hreservation⟩
    -- findings about the minimum release in the report are those of the document
    have hfindings : (∃ f ∈ r.findingsFor platformRule, ∃ rest, f.message = ".unity: " ++ rest) ↔
        ManifestRules.platformProblem? (manifest.root.get "unity") ≠ none := by
      obtain rfl := Except.ok.inj (hfirst.symm.trans (ManifestRules.audit_of_manifest hmanifest))
      rw [← ManifestRules.exists_platformProblem?_iff]
      simp only [hshowsFirst.mem_findingsFor_iff (show platformRule ∈ _ by decide), and_assoc]
    refine ⟨manifest, hmanifest, ?_, ?_⟩
    · rw [hreservation.leavesOut_iff, BaselineRules.reservation_eq_invalid_iff,
        Manifest.exists_platform_error_iff, hfindings]
    · rw [hreservation.leavesOut_iff, BaselineRules.reservation_eq_undeclared_iff,
        Manifest.platform_eq_none_iff]

/-- A package with a good name and version, and a `null` for its minimum release. -/
def nullPlatform : MemoryPackage :=
  ⟨[(Manifest.path, textBytes
    "\x7b\"name\": \"org.example\", \"version\": \"1.0.0\", \"unity\": null\x7d")]⟩

/-- A `null` is no release, and the rule on names that are built into one is left out. -/
theorem report_agrees_null :
    [ManifestRules.checker, BaselineRules.checker].Sublist checkers ∧
      ∃ a r, Audit.ofCheckers [ManifestRules.checker, BaselineRules.checker] = .ok a ∧
        a.run nullPlatform.source .offline = .ok r ∧
        r.LeavesOut notBuiltinRule "invalid minimum platform version" := by
  have hsub : [ManifestRules.checker, BaselineRules.checker].Sublist checkers :=
    .cons_cons _ (.cons _ (.cons _ (.cons_cons _ (.cons _ (.cons _ .slnil)))))
  obtain ⟨a, r, ha, hrun, hagrees⟩ := report_agrees hsub List.mem_cons_self
    (List.mem_cons_of_mem _ List.mem_cons_self) nullPlatform.source .offline
  refine ⟨hsub, a, r, ha, hrun, ?_⟩
  rcases Audit.ofCheckers_eq_ok_iff.1 ha with ⟨-, rfl⟩
  let s := Subject.of nullPlatform.source .offline
  have hending : BaselineRules.checker.ending s = none := by decide +kernel
  have hdeclared : s.manifest.map (fun m => (m.root.get "unity").isAbsent) = .ok false := by
    decide +kernel
  let found : Finding := ⟨platformRule, ".unity: " ++ "expected string, found null"⟩
  have hfound : ((Audit.mk [ManifestRules.checker, BaselineRules.checker] []).run
      nullPlatform.source .offline).map (·.findingsFor platformRule) =
        .ok [found] := by decide +kernel
  rw [hrun] at hfound
  have hreported : r.findingsFor platformRule = [found] := Except.ok.inj hfound
  rcases hagrees.release (fun message h => nomatch hending.symm.trans h) with
    ⟨manifest, hmanifest, hinvalid, -⟩
  rw [hmanifest] at hdeclared
  refine hinvalid.2 ⟨Except.ok.inj hdeclared, found, ?_, "expected string, found null", rfl⟩
  rw [hreported]
  exact List.mem_cons_self

end Rules

end PackageAudit
