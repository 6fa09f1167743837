import PackageAudit.Proofs.Basic
import PackageAudit.Proofs.Document.Value
import PackageAudit.Proofs.Rules.AtOnce
import PackageAudit.Rules.Manifest

/-!
# Proofs.Rules.Manifest — what the rules on the manifest come to

A member of the manifest is looked at twice, by a rule on the document and by whatever needs its
value. Both accept the same members:

* `Manifest.name_eq_ok_iff`, `Manifest.version_eq_ok_iff`, `Manifest.platform_eq_some_iff`,
  `Manifest.platform_eq_none_iff` — the members that have a value, and those that need none;
* `ManifestRules.nameProblem?_eq_none_iff`, `ManifestRules.versionProblem?_eq_none_iff`,
  `ManifestRules.platformProblem?_eq_none_iff` — the members that have no problem;
* `ManifestRules.audit_of_manifest`, `ManifestRules.audit_of_invalid`,
  `ManifestRules.audit_of_unusable` — the result, for every manifest and for none;
* `ManifestRules.exists_platformProblem?_iff` — which findings are about the minimum release itself.
-/

namespace PackageAudit

/-! ## Members -/

namespace Manifest

variable {m : Manifest} {name : String}

/-- Where a member of a manifest lies. -/
theorem path_get (m : Manifest) (key : String) :
    (m.root.get key).path = formatPath [.member key] :=
  congrArg formatPath (Node.keys_get m.root key)

theorem name_eq_ok_iff : m.name = .ok name ↔ (m.root.get "name").string = .ok name :=
  mapError_eq_ok_iff

theorem version_eq_ok_iff {version : Version} :
    m.version = .ok version ↔
      ∃ text, (m.root.get "version").string = .ok text ∧ Version.parse text = .ok version := by
  simp only [Manifest.version, bind_eq_ok_iff, mapError_eq_ok_iff]

theorem ofText_eq_ok_iff {text : String} {p : Platform} :
    Platform.ofText text = .ok p ↔ Platform.parse text = .ok p :=
  mapError_eq_ok_iff

theorem platform_of_absent (h : (m.root.get "unity").isAbsent = true) : m.platform = .ok none := by
  simp only [platform, Node.optionalString, h, if_true]
  rfl

theorem platform_of_present (h : (m.root.get "unity").isAbsent = false) :
    m.platform = ((m.root.get "unity").string.mapError .invalid >>= Platform.ofText).map some := by
  simp only [platform, Node.optionalString, h, Bool.false_eq_true, if_false]
  cases (m.root.get "unity").string <;> rfl

/-- Nothing is declared if and only if the member is not there; a `null` is a declaration. -/
theorem platform_eq_none_iff :
    m.platform = .ok none ↔ (m.root.get "unity").isAbsent = true := by
  constructor
  · intro h
    by_contra hpresent
    rw [platform_of_present (Bool.not_eq_true _ ▸ hpresent), map_eq_ok_iff] at h
    rcases h with ⟨p, -, hp⟩
    cases hp
  · exact platform_of_absent

theorem platform_eq_some_iff {p : Platform} :
    m.platform = .ok (some p) ↔
      ∃ text, (m.root.get "unity").string = .ok text ∧ Platform.parse text = .ok p := by
  constructor
  · intro h
    cases habsent : (m.root.get "unity").isAbsent with
    | true =>
      rw [platform_of_absent habsent] at h
      cases h
    | false =>
      rw [platform_of_present habsent, map_eq_ok_iff] at h
      rcases h with ⟨_, hvalue, ⟨⟩⟩
      simpa only [bind_eq_ok_iff, mapError_eq_ok_iff, ofText_eq_ok_iff] using hvalue
  · rintro ⟨text, htext, hparse⟩
    rw [platform_of_present (Node.isAbsent_of_string htext), htext]
    change (Platform.ofText text).map some = _
    rw [ofText_eq_ok_iff.2 hparse]
    rfl

end Manifest

namespace ManifestRules

variable {n : Node} {s : Subject} {m : Manifest}

/-! ## Problems -/

theorem nameProblem?_eq_none_iff :
    nameProblem? n = none ↔ ∃ name, n.string = .ok name ∧ isDomainName name = true := by
  unfold nameProblem?
  cases n.string with
  | error e => simp
  | ok name => simp

theorem versionProblem?_eq_none_iff :
    versionProblem? n = none ↔
      ∃ text version, n.string = .ok text ∧ Version.parse text = .ok version := by
  unfold versionProblem?
  cases n.string with
  | error e => simp
  | ok text => cases hparse : Version.parse text <;> simp [hparse]

theorem platformProblem?_eq_none_iff :
    platformProblem? n = none ↔ n.isAbsent = true ∨
      ∃ text p, n.string = .ok text ∧ Platform.parse text = .ok p := by
  unfold platformProblem?
  cases habsent : n.isAbsent with
  | true => simp
  | false =>
    cases n.string with
    | error e => simp
    | ok text =>
      cases hparse : Platform.parse text <;> simp [hparse, Platform.ofText, Except.mapError]

/-- What is said of the minimum release begins with its place. -/
theorem message_of_platformProblem? {message : String} (h : platformProblem? n = some message) :
    ∃ rest, message = n.path ++ (": " ++ rest) := by
  unfold platformProblem? at h
  split at h
  · cases h
  · split at h
    · next e he =>
      cases h
      exact Node.exists_message_of_string he
    · split at h
      · cases h
      · cases h
        exact ⟨_, String.append_assoc⟩

/-- So does what is said of its refinement. -/
theorem message_of_releaseProblem? {platform : Node} {message : String}
    (h : releaseProblem? n platform = some message) :
    ∃ rest, message = n.path ++ (": " ++ rest) := by
  unfold releaseProblem? at h
  split at h
  · cases h
  · split at h
    · next e he =>
      cases h
      exact Node.exists_message_of_string he
    · split at h
      · cases h
        have hword : (": requires " : String) = ": " ++ "requires " := by decide +kernel
        exact ⟨"requires " ++ platform.path, by rw [hword]; simp only [String.append_assoc]⟩
      · split at h
        · cases h
        · cases h
          exact ⟨_, by simp only [String.append_assoc]; rfl⟩

/-! ## Findings by rule -/

/-- What is wrong with the members, as findings. -/
def found (root : Node) : List Finding :=
  (problems root).map Finding.ofPair

theorem mem_found_name {root : Node} {message : String} :
    ⟨nameRule, message⟩ ∈ found root ↔ nameProblem? (root.get "name") = some message := by
  simp [found, problems, Finding.ofPair, nameRule, versionRule, platformRule, dependencyRule]

theorem mem_found_version {root : Node} {message : String} :
    ⟨versionRule, message⟩ ∈ found root ↔
      versionProblem? (root.get "version") = some message := by
  simp [found, problems, Finding.ofPair, nameRule, versionRule, platformRule, dependencyRule]

theorem mem_found_platform {root : Node} {message : String} :
    ⟨platformRule, message⟩ ∈ found root ↔
      platformProblem? (root.get "unity") = some message ∨
        releaseProblem? (root.get "unityRelease") (root.get "unity") = some message := by
  simp [found, problems, Finding.ofPair, nameRule, versionRule, platformRule, dependencyRule]

/--
What is said of the minimum release itself can be told from what is said of its refinement, which is
under the same rule: it names another place.
-/
theorem exists_platformProblem?_iff :
    (∃ f ∈ found m.root, f.check = platformRule ∧ ∃ rest, f.message = ".unity: " ++ rest) ↔
      platformProblem? (m.root.get "unity") ≠ none := by
  have hunity : (m.root.get "unity").path = ".unity" := by
    rw [Manifest.path_get]
    decide +kernel
  have hrelease : (m.root.get "unityRelease").path = ".unityRelease" := by
    rw [Manifest.path_get]
    decide +kernel
  have hplace : (".unity: " : String) = ".unity" ++ ": " := by decide +kernel
  constructor
  · rintro ⟨⟨_, message⟩, hf, rfl, rest, hmessage⟩
    rcases mem_found_platform.1 hf with hplatform | hother
    · exact Option.ne_none_iff_exists'.2 ⟨message, hplatform⟩
    · rcases message_of_releaseProblem? hother with ⟨rest', hmessage'⟩
      rw [hrelease] at hmessage'
      -- behind the common start one place goes on with a colon, the other with a letter
      have htext : (".unity: " ++ rest : String).toList =
          (".unityRelease" ++ (": " ++ rest')).toList :=
        congrArg String.toList (hmessage.symm.trans hmessage')
      rw [String.toList_append, String.toList_append] at htext
      have hletter : some ':' = some 'R' := congrArg (fun text : List Char => text[6]?) htext
      exact absurd hletter (by decide)
  · intro h
    obtain ⟨message, hmessage⟩ := Option.ne_none_iff_exists'.1 h
    rcases message_of_platformProblem? hmessage with ⟨rest, hrest⟩
    refine ⟨⟨platformRule, message⟩, mem_found_platform.2 (.inl hmessage), rfl, rest, ?_⟩
    rw [hrest, hunity, hplace, String.append_assoc]

/-! ## Results -/

/-- A manifest that can be used is broken where its members are. -/
theorem audit_of_manifest (h : s.manifest = .ok m) :
    checker.audit s = .ok ⟨found m.root, [], []⟩ := by
  refine Checker.audit_problems ?_ fun _ => rule_mem_of_mem_problems
  rw [work, h]

/-- A text that is no manifest breaks the first rule, and leaves nothing to say of the others. -/
theorem audit_of_invalid {e : DocumentError} (h : s.manifest = .error (.invalid e)) :
    checker.audit s = .ok ⟨[⟨syntaxRule, e.message⟩],
      [nameRule, versionRule, platformRule, dependencyRule].map
        (⟨·, "package manifest is invalid"⟩), []⟩ := by
  have hperform : (work s).perform checker.name checker.checks .empty =
      ((Batch.empty.addFinding syntaxRule e.message).addSkips checker.checks
        "package manifest is invalid", .ok ()) := by
    rw [work, h]
    change (Check.finding _ _ >>= fun _ => _).perform _ _ _ = _
    have hfinding :
        (Check.finding syntaxRule e.message).perform checker.name checker.checks .empty =
          (Batch.empty.addFinding syntaxRule e.message, .ok ()) :=
      Check.perform_finding _ _ (Batch.isWhole_empty.findingBreach? List.mem_cons_self)
    rw [Check.perform_bind, hfinding]
    rfl
  rw [Batch.addSkips_of_nodup (by decide)] at hperform
  exact Checker.audit_single hperform rfl

/-- Without a text all rules fail, for the reason for which there is none. -/
theorem audit_of_unusable {e : ManifestError} (h : s.manifest = .error e)
    (hother : ∀ e', e ≠ .invalid e') :
    checker.audit s = .ok ⟨checker.checks.map (⟨·, e.message⟩), [], []⟩ := by
  have hwork : work s = .stop (.ofManifest e) := by
    rw [work, h]
    cases e with
    | invalid e' => exact absurd rfl (hother e')
    | _ => rfl
  refine Checker.audit_single_of_precondition ?_
  rw [hwork]
  rfl

end ManifestRules

end PackageAudit
