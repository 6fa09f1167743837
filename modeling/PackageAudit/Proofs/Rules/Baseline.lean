import PackageAudit.Proofs.Rules.Manifest

/-!
# Proofs.Rules.Baseline — what the rules on the registry come to

Both rules need a manifest with a name and a version. With these, each rule gets a verdict, which
depends on the answers to its own question only:

* `Batch.Judged` — what a verdict adds to a batch;
* `BaselineRules.identity` — what the rules need of the manifest;
* `BaselineRules.publication`, `BaselineRules.reservation` — the two verdicts;
* `BaselineRules.audit_of_identity`, `BaselineRules.audit_of_unidentified` — the result;
* `BaselineRules.gives_of_identity` — what reports say of the two rules;
* `BaselineRules.applicable_iff` — when the rules can be applied.
-/

namespace PackageAudit

/-! ## Verdicts on a batch -/

/-- A batch becomes another one by the verdict on a rule; of other rules it knows what it knew. -/
structure Batch.Judged (b : Batch) (check : CheckId) (v : Verdict) (b' : Batch) : Prop where
  findings : b'.findings = v.findings check ++ b.findings
  skips : b'.skips = b.skips ++ v.skips check
  breach : b'.breach = b.breach
  knows : ∀ other, other ≠ check → b'.knows other = b.knows other

namespace Batch

variable {b : Batch} {check : CheckId} {text : String}

theorem judged_met (b : Batch) (check : CheckId) : b.Judged check .met b :=
  ⟨rfl, (List.append_nil _).symm, rfl, fun _ _ => rfl⟩

theorem judged_addFinding : b.Judged check (.broken text) (b.addFinding check text) where
  findings := rfl
  skips := (List.append_nil _).symm
  breach := rfl
  knows other hother := by simp [hother.symm]

theorem judged_addSkip : b.Judged check (.leftOut text) (b.addSkip check text) where
  findings := rfl
  skips := rfl
  breach := rfl
  knows other hother := by simp [hother.symm]

/-- Records are no matter of verdicts. -/
theorem Judged.of_addRecord {v : Verdict} {b' : Batch} {name : String} {content : Bytes}
    (h : (b.addRecord name content).Judged check v b') : b.Judged check v b' :=
  ⟨h.findings, h.skips, h.breach, h.knows⟩

end Batch

namespace BaselineRules

variable {s : Subject} {b : Batch} {baselines : Baselines} {name version : String}

/-! ## The two questions -/

/-- The verdict on the version. -/
def publication (baselines : Baselines) (name version : String) : Verdict :=
  match baselines.published name version with
  | .ok (some _) => .broken s!"{name}@{version} is already published"
  | .ok none => .met
  | .error _ => .leftOut "network unavailable"

/-- The verdict on the name for a release. -/
def availability (baselines : Baselines) (name : String) (platform : Platform) : Verdict :=
  match baselines.builtins platform with
  | .ok names =>
    if name ∈ names then .broken s!"{name} is built into platform release {platform.text}"
    else .met
  | .error _ => .leftOut "network unavailable"

/-- The verdict on the name for what is declared. -/
def reservation (baselines : Baselines) (name : String) :
    Except ManifestError (Option Platform) → Verdict
  | .ok (some platform) => availability baselines name platform
  | .ok none => .leftOut "no minimum platform version declared"
  | .error _ => .leftOut "invalid minimum platform version"

/-- Ask about the name, if there is a release to ask about. -/
def checkPlatform (baselines : Baselines) (name : String) :
    Except ManifestError (Option Platform) → Check Unit
  | .ok (some platform) => checkBuiltin baselines name platform
  | .ok none => .leaveOut notBuiltinRule noPlatformReason
  | .error _ => .leaveOut notBuiltinRule invalidPlatformReason

theorem unpublishedRule_mem : unpublishedRule ∈ checker.checks :=
  List.mem_cons_self

theorem notBuiltinRule_mem : notBuiltinRule ∈ checker.checks :=
  List.mem_cons_of_mem _ List.mem_cons_self

theorem perform_checkPublished (baselines : Baselines) (name version : String)
    (hunknown : b.knows unpublishedRule = false) :
    ∃ b', (checkPublished baselines name version).perform checker.name checker.checks b =
        (b', .ok ()) ∧
      b.Judged unpublishedRule (publication baselines name version) b' := by
  unfold checkPublished publication
  rcases baselines.published name version with e | _ | manifest
  · exact ⟨_, Check.perform_leaveOut _ _
      (Batch.skipBreach?_of_unknown hunknown unpublishedRule_mem), Batch.judged_addSkip⟩
  · exact ⟨b, rfl, Batch.judged_met b _⟩
  · let b₁ := b.addRecord s!"registry:{name}@{version}" (textBytes manifest.render)
    refine ⟨b₁.addFinding unpublishedRule s!"{name}@{version} is already published", ?_,
      .of_addRecord Batch.judged_addFinding⟩
    exact Check.perform_finding (b := b₁) _ _
      (Batch.findingBreach?_of_unknown hunknown unpublishedRule_mem)

theorem perform_checkPlatform (baselines : Baselines) (name : String)
    (platform : Except ManifestError (Option Platform))
    (hunknown : b.knows notBuiltinRule = false) :
    ∃ b', (checkPlatform baselines name platform).perform checker.name checker.checks b =
        (b', .ok ()) ∧
      b.Judged notBuiltinRule (reservation baselines name platform) b' := by
  have hskip (reason : String) := Check.perform_leaveOut checker.name reason
    (Batch.skipBreach?_of_unknown hunknown notBuiltinRule_mem)
  rcases platform with e | _ | platform
  · exact ⟨_, hskip _, Batch.judged_addSkip⟩
  · exact ⟨_, hskip _, Batch.judged_addSkip⟩
  · simp only [checkPlatform, checkBuiltin, reservation, availability]
    rcases baselines.builtins platform with e | names
    · exact ⟨_, hskip _, Batch.judged_addSkip⟩
    · let b₁ := b.addRecord s!"builtins:{platform.text}" (textBytes ("\n".intercalate names))
      by_cases hmem : name ∈ names
      · simp only [hmem, List.contains_iff_mem, if_true]
        refine ⟨b₁.addFinding notBuiltinRule _, ?_, .of_addRecord Batch.judged_addFinding⟩
        exact Check.perform_finding (b := b₁) _ _
          (Batch.findingBreach?_of_unknown hunknown notBuiltinRule_mem)
      · simp only [hmem, List.contains_iff_mem, if_false]
        exact ⟨b₁, rfl, .of_addRecord (Batch.judged_met b₁ _)⟩

/-! ## The checker -/

/-- The manifest with the name and the version that it declares. -/
def identity (s : Subject) : Except ManifestError (Manifest × String × Version) := do
  let manifest ← s.manifest
  let name ← manifest.name
  let version ← manifest.version
  pure (manifest, name, version)

theorem identity_eq_ok_iff {manifest : Manifest} {version : Version} :
    identity s = .ok (manifest, name, version) ↔
      s.manifest = .ok manifest ∧ manifest.name = .ok name ∧ manifest.version = .ok version := by
  simp only [identity, bind_eq_ok_iff]
  constructor
  · rintro ⟨m, hm, n, hn, v, hv, ⟨⟩⟩
    exact ⟨hm, hn, hv⟩
  · rintro ⟨hm, hn, hv⟩
    exact ⟨_, hm, _, hn, _, hv, rfl⟩

/-- What is needed of the manifest is asked for first. -/
theorem work_eq : work s = Check.ofManifest (identity s) >>= fun (manifest, name, version) =>
    checkPublished s.baselines name version.text >>= fun _ =>
      checkPlatform s.baselines name manifest.platform := by
  have hbind {α β γ : Type} (x : Except ManifestError α) (f : α → Except ManifestError β)
      (g : β → Check γ) :
      (Check.ofManifest (x >>= f) >>= g) =
        Check.ofManifest x >>= fun a => Check.ofManifest (f a) >>= g := by
    cases x <;> rfl
  rw [identity, hbind]
  simp only [hbind]
  rfl

theorem perform_work_of_unidentified {e : ManifestError} (h : identity s = .error e) :
    (work s).perform checker.name checker.checks .empty =
      (.empty, .error (.precondition e.message)) := by
  rw [work_eq, h]
  rfl

/-- One question after the other, each about its own rule. -/
theorem perform_work_of_identity {manifest : Manifest} {version : Version}
    (h : identity s = .ok (manifest, name, version)) :
    ∃ b₁ b₂, (work s).perform checker.name checker.checks .empty = (b₂, .ok ()) ∧
      Batch.empty.Judged unpublishedRule (publication s.baselines name version.text) b₁ ∧
      b₁.Judged notBuiltinRule (reservation s.baselines name manifest.platform) b₂ := by
  obtain ⟨b₁, hfirst, hjudged₁⟩ :=
    perform_checkPublished (b := .empty) s.baselines name version.text rfl
  have hunknown : b₁.knows notBuiltinRule = false := hjudged₁.knows notBuiltinRule (by decide)
  obtain ⟨b₂, hsecond, hjudged₂⟩ :=
    perform_checkPlatform s.baselines name manifest.platform hunknown
  refine ⟨b₁, b₂, ?_, hjudged₁, hjudged₂⟩
  rw [work_eq, h]
  change (checkPublished _ _ _ >>= fun _ => _).perform _ _ _ = _
  rw [Check.perform_bind, hfirst]
  exact hsecond

/-- Without the name and the version of a manifest both rules fail, with the same message. -/
theorem audit_of_unidentified {e : ManifestError} (h : identity s = .error e) :
    checker.audit s = .ok ⟨checker.checks.map (⟨·, e.message⟩), [], []⟩ :=
  Checker.audit_single_of_precondition (perform_work_of_unidentified h)

/-- With them, each rule gets its own verdict. -/
theorem audit_of_identity {manifest : Manifest} {version : Version}
    (h : identity s = .ok (manifest, name, version)) :
    ∃ records, checker.audit s = .ok
      ⟨(publication s.baselines name version.text).findings unpublishedRule ++
          (reservation s.baselines name manifest.platform).findings notBuiltinRule,
        (publication s.baselines name version.text).skips unpublishedRule ++
          (reservation s.baselines name manifest.platform).skips notBuiltinRule, records⟩ := by
  obtain ⟨b₁, b₂, hperform, hjudged₁, hjudged₂⟩ := perform_work_of_identity h
  have haudit : checker.audit s = .ok ⟨b₂.findings.reverse, b₂.skips, b₂.records.reverse⟩ :=
    Checker.audit_single hperform (hjudged₂.breach.trans hjudged₁.breach)
  refine ⟨b₂.records.reverse, haudit.trans ?_⟩
  rw [hjudged₂.findings, hjudged₁.findings, hjudged₂.skips, hjudged₁.skips]
  simp [Batch.empty, Verdict.reverse_findings]

/-- A report says of each of the two rules what its own verdict is. -/
theorem gives_of_identity {manifest : Manifest} {version : Version} {r : Report}
    {result : BatchResult} (h : identity s = .ok (manifest, name, version))
    (haudit : checker.audit s = .ok result) (hshows : r.Shows checker result) :
    r.Gives unpublishedRule (publication s.baselines name version.text) ∧
      r.Gives notBuiltinRule (reservation s.baselines name manifest.platform) := by
  obtain ⟨records, hresult⟩ := audit_of_identity h
  obtain rfl := Except.ok.inj (haudit.symm.trans hresult)
  have hne : unpublishedRule ≠ notBuiltinRule := by decide
  constructor
  · apply hshows.gives unpublishedRule_mem
    · simp [Verdict.filter_findings_self, Verdict.filter_findings_of_ne hne.symm]
    · simp [Verdict.filter_skips_self, Verdict.filter_skips_of_ne hne.symm]
  · apply hshows.gives notBuiltinRule_mem
    · simp [Verdict.filter_findings_self, Verdict.filter_findings_of_ne hne]
    · simp [Verdict.filter_skips_self, Verdict.filter_skips_of_ne hne]

/-- The rules cannot be applied for want of a manifest, a name or a version; nothing else counts. -/
theorem applicable_iff :
    (∀ message, checker.ending s ≠ some (.precondition message)) ↔
      ∃ manifest name version, identity s = .ok (manifest, name, version) := by
  constructor
  · intro h
    cases hidentity : identity s with
    | error e =>
      have hending : checker.ending s = some (.precondition e.message) :=
        Checker.ending_single_of_error (perform_work_of_unidentified hidentity)
      exact absurd hending (h e.message)
    | ok found => exact ⟨found.1, found.2.1, found.2.2, rfl⟩
  · rintro ⟨manifest, name, version, h⟩ message hprecondition
    rcases perform_work_of_identity h with ⟨-, b₂, hperform, -, -⟩
    have hending : checker.ending s = none := Checker.ending_single_of_ok hperform
    rw [hending] at hprecondition
    cases hprecondition

end BaselineRules

end PackageAudit
