import PackageAudit.Proofs.Package.Entries
import PackageAudit.Proofs.Rules.AtOnce
import PackageAudit.Rules.Registry

/-!
# Proofs.Rules.Consistency — assets and companions are paired up

The two rules together say that companions and assets belong to each other one by one. Each rule
looks at one entry and at what lies under one other path:

* `ConsistencyRules.Paired` — the pairing, as a property of all entries;
* `ConsistencyRules.Offends` — what is wrong with one entry;
* `ConsistencyRules.paired_iff` — entries are paired up if and only if none offends;
* `ConsistencyRules.paired_iff_bijOn` — the pairing as a bijection;
* `Rules.report_showsProblems` — what stands in a report by these rules, together with any others;
* `Rules.report_tellsPairing` — the report says so, with one finding for each entry that offends.
-/

namespace PackageAudit

namespace ConsistencyRules

variable {target : Target} {files : List String} {entries : List Entry} {e t : Entry}

/-! ## The pairing -/

/-- A visible entry that accompanies nothing. -/
def IsAsset (e : Entry) : Prop :=
  e.isHidden = false ∧ e.isCompanion = false

/-- The platform handles plugin directories as a whole, and the entry is in one. -/
def Exempt (target : Target) (e : Entry) : Prop :=
  (∃ p, target.minimum = some p ∧ p.atLeast ⟨2021, 2⟩ = true) ∧ e.inPlugin = true

/-- Companions and assets among entries belong to each other. -/
structure Paired (target : Target) (entries : List Entry) : Prop where
  /-- No visible directory is a companion. -/
  file : ∀ e ∈ entries, e.isHidden = false → e.isDirectory = true → e.isCompanion = false
  /-- Every visible companion is that of an asset. -/
  asset : ∀ e ∈ entries, e.isHidden = false → e.isCompanion = true →
    ∃ t ∈ entries, IsAsset t ∧ e.path = t.path ++ ".meta"
  /-- Every asset has a companion, unless it needs none. -/
  companion : ∀ t ∈ entries, IsAsset t → ¬ Exempt target t →
    ∃ e ∈ entries, e.IsCompanionFile ∧ e.path = t.path ++ ".meta"

/-- What is wrong with one entry: it is at odds with itself or with what lies under another path. -/
inductive Offends (target : Target) (entries : List Entry) (e : Entry) : Prop where
  | directory (visible : e.isHidden = false) (companion : e.isCompanion = true)
      (directory : e.isDirectory = true)
  | orphan (visible : e.isHidden = false) (companion : e.isCompanion = true)
      (alone : ∀ t ∈ entries, IsAsset t → e.path ≠ t.path ++ ".meta")
  | missing (asset : IsAsset e) (needed : ¬ Exempt target e)
      (alone : ∀ c ∈ entries, c.path ≠ e.path ++ ".meta")

theorem isCompanion_of_path {c : Entry} (h : c.path = t.path ++ ".meta") : c.isCompanion = true :=
  Entry.isCompanion_iff.2 ⟨t.path, h⟩

/-- What lies in the place of the companion of an asset is visible. -/
theorem isHidden_of_path {c : Entry} (hfiles : ∀ path ∈ files, validatePath path = .ok ())
    (ht : t ∈ (EntrySet.ofFiles target files).entries)
    (hc : c ∈ (EntrySet.ofFiles target files).entries) (hasset : IsAsset t)
    (hpath : c.path = t.path ++ ".meta") : c.isHidden = false := by
  rcases EntrySet.mem_entries_iff.1 ht with ⟨-, hclassify⟩
  rcases EntrySet.mem_entries_iff.1 hc with ⟨-, hclassify'⟩
  have hvisible := hasset.1
  rw [hclassify] at hvisible
  rw [hclassify', hpath]
  have hname := PathText.filename_ne_nil (EntrySet.name_ne_nil hfiles ht)
  exact Entry.isHidden_classify_companion hname hvisible

/--
Entries are paired up if and only if none offends. The entry in the place of a companion may be a
directory; then it is not the asset that offends but this directory.
-/
theorem paired_iff (hfiles : ∀ path ∈ files, validatePath path = .ok ()) :
    Paired target (EntrySet.ofFiles target files).entries ↔
      ∀ e ∈ (EntrySet.ofFiles target files).entries,
        ¬ Offends target (EntrySet.ofFiles target files).entries e := by
  constructor
  · rintro hpaired e he (⟨hvisible, hcompanion, hdirectory⟩ | ⟨hvisible, hcompanion, halone⟩ |
      ⟨hasset, hneeded, halone⟩)
    · have hother := hpaired.file e he hvisible hdirectory
      exact absurd hcompanion (Bool.eq_false_iff.1 hother)
    · rcases hpaired.asset e he hvisible hcompanion with ⟨t, ht, hasset, hpath⟩
      exact halone t ht hasset hpath
    · rcases hpaired.companion e he hasset hneeded with ⟨c, hc, -, hpath⟩
      exact halone c hc hpath
  · intro h
    constructor
    · intro e he hvisible hdirectory
      by_contra hcompanion
      exact h e he (.directory hvisible (Bool.not_eq_false _ ▸ hcompanion) hdirectory)
    · intro e he hvisible hcompanion
      by_contra hnone
      refine h e he (.orphan hvisible hcompanion fun t ht hasset hpath => ?_)
      exact hnone ⟨t, ht, hasset, hpath⟩
    · intro t ht hasset hneeded
      have hplace : ∃ c ∈ (EntrySet.ofFiles target files).entries, c.path = t.path ++ ".meta" := by
        by_contra hnone
        exact h t ht (.missing hasset hneeded fun c hc hpath => hnone ⟨c, hc, hpath⟩)
      rcases hplace with ⟨c, hc, hpath⟩
      have hvisible : c.isHidden = false := isHidden_of_path hfiles ht hc hasset hpath
      have hcompanion : c.isCompanion = true := isCompanion_of_path hpath
      refine ⟨c, hc, ⟨hvisible, hcompanion, ?_⟩, hpath⟩
      by_contra hdirectory
      exact h c hc (.directory hvisible hcompanion (Bool.not_eq_false _ ▸ hdirectory))

/-! ## The pairing as a bijection -/

/-- The paths of the assets. -/
def assets (entries : List Entry) : Set String :=
  {path | ∃ t ∈ entries, IsAsset t ∧ t.path = path}

/-- The paths of the visible companion files. -/
def companions (entries : List Entry) : Set String :=
  {path | ∃ e ∈ entries, e.IsCompanionFile ∧ e.path = path}

/-- Where no asset is exempt, the suffix takes the assets one by one to the companion files. -/
theorem paired_iff_bijOn (hneeded : ∀ t ∈ entries, IsAsset t → ¬ Exempt target t) :
    Paired target entries ↔
      (∀ e ∈ entries, e.isHidden = false → e.isDirectory = true → e.isCompanion = false) ∧
        Set.BijOn (· ++ ".meta") (assets entries) (companions entries) := by
  constructor
  · intro h
    refine ⟨h.file, ?_, fun p _ q _ hpq => (String.append_left_inj _).1 hpq, ?_⟩
    · rintro path ⟨t, ht, hasset, rfl⟩
      exact h.companion t ht hasset (hneeded t ht hasset)
    · rintro path ⟨e, he, ⟨hvisible, hcompanion, -⟩, rfl⟩
      rcases h.asset e he hvisible hcompanion with ⟨t, ht, hasset, hpath⟩
      exact ⟨t.path, ⟨t, ht, hasset, rfl⟩, hpath.symm⟩
  · rintro ⟨hfile, hmaps, -, honto⟩
    refine ⟨hfile, ?_, fun t ht hasset _ => hmaps ⟨t, ht, hasset, rfl⟩⟩
    intro e he hvisible hcompanion
    have hdirectory : e.isDirectory = false := by
      by_contra hdirectory
      have hother := hfile e he hvisible (Bool.not_eq_false _ ▸ hdirectory)
      exact absurd hcompanion (Bool.eq_false_iff.1 hother)
    rcases honto ⟨e, he, ⟨hvisible, hcompanion, hdirectory⟩, rfl⟩ with
      ⟨_, ⟨t, ht, hasset, rfl⟩, hpath⟩
    exact ⟨t, ht, hasset, hpath.symm⟩

/-! ## Problems of entries -/

theorem assetPath_append (path : String) : assetPath (path ++ ".meta") = path := by
  apply String.toList_injective
  rw [assetPath, String.toList_ofList, String.toList_append, List.length_append]
  exact List.take_left' (Nat.add_sub_cancel _ _).symm

theorem isExempt_iff : isExempt target e = true ↔ Exempt target e := by
  rw [isExempt, Bool.and_eq_true, Target.reaches, Option.any_eq_true]
  rfl

/-- Nothing is wrong with a companion that is a file and that of an asset. -/
theorem companionProblem?_eq_none_iff (hcompanion : e.isCompanion = true) :
    companionProblem? (.ofFiles target files) e = none ↔
      e.isDirectory = false ∧ ∃ t ∈ (EntrySet.ofFiles target files).entries,
        IsAsset t ∧ e.path = t.path ++ ".meta" := by
  rcases Entry.isCompanion_iff.1 hcompanion with ⟨path, hpath⟩
  have hplace : assetPath e.path = path := by rw [hpath, assetPath_append]
  -- the asset of the companion is what is found under the path without the suffix
  have hasset : (∃ t ∈ (EntrySet.ofFiles target files).entries,
      IsAsset t ∧ e.path = t.path ++ ".meta") ↔
        ∃ t, (EntrySet.ofFiles target files).get? path = some t ∧ IsAsset t := by
    refine exists_congr fun t => ?_
    rw [EntrySet.get?_eq_some_iff, hpath, String.append_left_inj, and_assoc, eq_comm,
      and_comm (a := IsAsset t)]
  rw [hasset]
  unfold companionProblem?
  rw [hplace]
  cases hdirectory : e.isDirectory with
  | true => simp
  | false =>
    rcases (EntrySet.ofFiles target files).get? path with _ | asset
    · simp
    · cases hhidden : asset.isHidden <;> cases hother : asset.isCompanion <;>
        simp [IsAsset, hhidden, hother]

/-- Something is wrong with a visible entry if and only if it offends. -/
theorem problem?_eq_none_iff (hvisible : e.isHidden = false) :
    problem? target (.ofFiles target files) e = none ↔
      ¬ Offends target (EntrySet.ofFiles target files).entries e := by
  unfold problem?
  cases hcompanion : e.isCompanion with
  | true =>
    rw [if_pos rfl, Option.map_eq_none_iff, companionProblem?_eq_none_iff hcompanion]
    constructor
    · rintro ⟨hfile, t, ht, hasset, hpath⟩
        (⟨-, -, hdirectory⟩ | ⟨-, -, halone⟩ | ⟨⟨-, hother⟩, -, -⟩)
      · exact absurd hdirectory (Bool.eq_false_iff.1 hfile)
      · exact halone t ht hasset hpath
      · exact absurd hcompanion (Bool.eq_false_iff.1 hother)
    · intro h
      constructor
      · by_contra hdirectory
        exact h (.directory hvisible hcompanion (Bool.not_eq_false _ ▸ hdirectory))
      · by_contra hnone
        refine h (.orphan hvisible hcompanion fun t ht hasset hpath => ?_)
        exact hnone ⟨t, ht, hasset, hpath⟩
  | false =>
    have hfound : (isExempt target e ||
        (EntrySet.ofFiles target files).contains (e.path ++ companionSuffix)) = true ↔
          Exempt target e ∨ ∃ c ∈ (EntrySet.ofFiles target files).entries,
            c.path = e.path ++ ".meta" := by
      rw [Bool.or_eq_true, isExempt_iff, EntrySet.contains_iff]
      rfl
    rw [if_neg (by decide)]
    constructor
    · intro hnone hoffends
      have hor : Exempt target e ∨ ∃ c ∈ (EntrySet.ofFiles target files).entries,
          c.path = e.path ++ ".meta" := by
        rw [← hfound]
        by_contra hor
        rw [if_neg hor] at hnone
        cases hnone
      rcases hoffends with ⟨-, hother, -⟩ | ⟨-, hother, -⟩ | ⟨-, hneeded, halone⟩
      · exact absurd hother (Bool.eq_false_iff.1 hcompanion)
      · exact absurd hother (Bool.eq_false_iff.1 hcompanion)
      · rcases hor with hexempt | ⟨c, hc, hpath⟩
        · exact hneeded hexempt
        · exact halone c hc hpath
    · intro h
      refine if_pos (hfound.2 ?_)
      by_contra hor
      rw [not_or] at hor
      exact h (.missing ⟨hvisible, hcompanion⟩ hor.1 fun c hc hpath => hor.2 ⟨c, hc, hpath⟩)

/-! ## Findings -/

/-- A finding names an entry, by the rule that is about it and with its path behind a colon. -/
def Names (e : Entry) (f : Finding) : Prop :=
  f.check = (if e.isCompanion then orphanRule else missingRule) ∧
    ∃ text : String, ':' ∉ text.toList ∧ f.message = text ++ ": " ++ e.path

/-- No finding names two entries. -/
theorem Names.path_eq {e' : Entry} {f : Finding} (h : Names e f) (h' : Names e' f) :
    e.path = e'.path := by
  rcases h with ⟨-, text, htext, hmessage⟩
  rcases h' with ⟨-, text', htext', hmessage'⟩
  have hsame : text.toList ++ ':' :: ' ' :: e.path.toList =
      text'.toList ++ ':' :: ' ' :: e'.path.toList := by
    have hlists := congrArg String.toList (hmessage.symm.trans hmessage')
    simp only [String.toList_append, List.append_assoc] at hlists
    exact hlists
  -- the first colon ends the text in both readings of the message
  have hfirst : text.toList = text'.toList := by
    have hsplit := congrArg (List.splitOn ':') hsame
    rw [List.splitOn_append_cons_self_of_not_mem htext,
      List.splitOn_append_cons_self_of_not_mem htext'] at hsplit
    exact (List.cons.inj hsplit).1
  rw [hfirst] at hsame
  have hbehind := List.append_cancel_left hsame
  exact String.toList_injective (List.cons.inj (List.cons.inj hbehind).2).2

theorem not_mem_of_companionProblem? {set : EntrySet} {text : String}
    (h : companionProblem? set e = some text) : ':' ∉ text.toList := by
  unfold companionProblem? at h
  split at h
  · cases h
    decide
  · split at h
    · cases h
      decide
    · split at h
      · cases h
        decide
      · split at h
        · cases h
          decide
        · cases h

theorem names_of_problem? {problem : CheckId × String} {set : EntrySet}
    (h : problem? target set e = some problem) : Names e (Finding.ofPair problem) := by
  unfold problem? at h
  split at h
  · next hcompanion =>
    rcases Option.map_eq_some_iff.1 h with ⟨text, htext, rfl⟩
    exact ⟨(if_pos hcompanion).symm, text, not_mem_of_companionProblem? htext, rfl⟩
  · split at h
    · cases h
    · next hcompanion _ =>
      cases h
      exact ⟨(if_neg hcompanion).symm, "missing companion file", by decide, rfl⟩

/-- The entries that offend, one by one with the problems that are found. -/
theorem forall₂_names (set : EntrySet) (l : List Entry) :
    List.Forall₂ Names (l.filter fun e => (problem? target set e).isSome)
      ((l.filterMap (problem? target set)).map Finding.ofPair) := by
  induction l with
  | nil => exact .nil
  | cons e l ih =>
    cases hproblem : problem? target set e with
    | none =>
      rw [List.filter_cons_of_neg (by simp [hproblem]), List.filterMap_cons_none hproblem]
      exact ih
    | some problem =>
      rw [List.filter_cons_of_pos (by simp [hproblem]), List.filterMap_cons_some hproblem]
      exact .cons (names_of_problem? hproblem) ih

theorem exists_of_forall₂ {l : List Entry} {fs : List Finding} {f : Finding}
    (h : List.Forall₂ Names l fs) (hf : f ∈ fs) : ∃ e ∈ l, Names e f := by
  induction h with
  | nil => exact absurd hf List.not_mem_nil
  | @cons e g l fs hnames hrest ih =>
    rcases List.mem_cons.1 hf with rfl | hf
    · exact ⟨e, List.mem_cons_self, hnames⟩
    · rcases ih hf with ⟨e', he', hnames'⟩
      exact ⟨e', List.mem_cons_of_mem e he', hnames'⟩

theorem nodup_of_forall₂_names {l : List Entry} {fs : List Finding} (h : List.Forall₂ Names l fs)
    (hpaths : (l.map Entry.path).Nodup) : fs.Nodup := by
  induction h with
  | nil => exact List.nodup_nil
  | @cons e f l fs hnames hrest ih =>
    rcases List.nodup_cons.1 hpaths with ⟨hnew, hpaths⟩
    refine List.nodup_cons.2 ⟨fun hf => ?_, ih hpaths⟩
    -- a finding that comes again would name an entry with the same path
    obtain ⟨e', he', hnames'⟩ := exists_of_forall₂ hrest hf
    exact hnew (List.mem_map.2 ⟨e', he', (hnames.path_eq hnames').symm⟩)

/-- The entries that something is wrong with, in the order of their paths. -/
def offenders (target : Target) (set : EntrySet) : List Entry :=
  (set.entries.filter fun e => !e.isHidden).filter fun e => (problem? target set e).isSome

theorem mem_offenders_iff :
    e ∈ offenders target (.ofFiles target files) ↔
      e ∈ (EntrySet.ofFiles target files).entries ∧
        Offends target (EntrySet.ofFiles target files).entries e := by
  rw [offenders, List.mem_filter, List.mem_filter, Bool.not_eq_true', and_assoc]
  refine and_congr_right fun _ => ?_
  constructor
  · rintro ⟨hvisible, hsome⟩
    by_contra hnone
    rw [(problem?_eq_none_iff hvisible).2 hnone] at hsome
    cases hsome
  · intro h
    have hvisible : e.isHidden = false := by
      rcases h with ⟨hvisible, -, -⟩ | ⟨hvisible, -, -⟩ | ⟨⟨hvisible, -⟩, -, -⟩
      · exact hvisible
      · exact hvisible
      · exact hvisible
    refine ⟨hvisible, ?_⟩
    rw [Option.isSome_iff_ne_none, Ne, problem?_eq_none_iff hvisible, not_not]
    exact h

theorem offenders_ascending :
    ((offenders target (.ofFiles target files)).map Entry.path).Pairwise (· < ·) := by
  have hsublist : (offenders target (.ofFiles target files)).Sublist
      (EntrySet.ofFiles target files).entries := List.filter_sublist.trans List.filter_sublist
  exact (EntrySet.entries_ascending target files).sublist (hsublist.map Entry.path)

theorem nodup_problems : ((problems target (.ofFiles target files)).map Finding.ofPair).Nodup :=
  nodup_of_forall₂_names (forall₂_names _ _) (offenders_ascending.imp ne_of_lt)

theorem audit_eq (s : Subject) :
    checker.audit s = .ok ⟨(problems s.target s.entries).map Finding.ofPair, [], []⟩ :=
  Checker.audit_problems rfl fun _ => rule_mem_of_mem_problems

end ConsistencyRules

/-! ## Reports -/

section Reports

open ConsistencyRules

/-- Every report by the rules on companions, together with any others, shows what they find. -/
theorem Rules.report_showsProblems {cs : List Checker} (h : cs.Sublist checkers)
    (hc : ConsistencyRules.checker ∈ cs) :
    ∃ a, Audit.ofCheckers cs = .ok a ∧ ∀ (source : Source) (baselines : Baselines),
      let s := Subject.of source baselines
      ∃ r, a.run source baselines = .ok r ∧ r.Shows ConsistencyRules.checker
        ⟨(problems s.target s.entries).map Finding.ofPair, [], []⟩ := by
  refine ⟨⟨cs, []⟩, Audit.ofCheckers_eq_ok_iff.2 ⟨acceptable_of_sublist h, rfl⟩, ?_⟩
  intro source baselines s
  obtain ⟨a, r, ha, hrun, hshares⟩ := report_of_sublist h source baselines
  obtain ⟨result, haudit, hshows⟩ := hshares _ hc
  obtain ⟨-, rfl⟩ := Audit.ofCheckers_eq_ok_iff.1 ha
  obtain rfl := Except.ok.inj (haudit.symm.trans (audit_eq s))
  exact ⟨r, hrun, hshows⟩

/-- A report that tells of every entry that keeps companions and assets from being paired up. -/
structure Report.TellsPairing (r : Report) (s : Subject) : Prop where
  /-- Both rules hold if and only if all entries are paired up. -/
  holds_iff : (r.findingsFor orphanRule = [] ∧ r.findingsFor missingRule = []) ↔
    Paired s.target s.entries.entries
  /-- Where every asset needs a companion, this is to say that the suffix is a bijection. -/
  bijection : (∀ t ∈ s.entries.entries, IsAsset t → ¬ Exempt s.target t) →
    (Paired s.target s.entries.entries ↔
      (∀ e ∈ s.entries.entries, e.isHidden = false → e.isDirectory = true →
        e.isCompanion = false) ∧
      Set.BijOn (· ++ ".meta") (assets s.entries.entries) (companions s.entries.entries))
  /-- There is one finding for each entry that offends, and they stand in the order of the paths. -/
  findings : ∃ offending : List Entry,
    (∀ e, e ∈ offending ↔ e ∈ s.entries.entries ∧ Offends s.target s.entries.entries e) ∧
      (offending.map Entry.path).Pairwise (· < ·) ∧
      List.Forall₂ Names offending
        (r.findings.filter fun f => f.check ∈ [orphanRule, missingRule])

/--
Every report by the rules on companions, together with any others, tells of what keeps companions
and assets from being paired up, for every package whose files have good paths.
-/
theorem Rules.report_tellsPairing {cs : List Checker} (h : cs.Sublist checkers)
    (hc : ConsistencyRules.checker ∈ cs) {source : Source}
    (hfiles : ∀ path ∈ source.files, validatePath path = .ok ()) (baselines : Baselines) :
    ∃ a r, Audit.ofCheckers cs = .ok a ∧ a.run source baselines = .ok r ∧
      r.TellsPairing (.of source baselines) := by
  obtain ⟨a, r, ha, hrun, hshares⟩ := report_of_sublist h source baselines
  obtain ⟨result, haudit, hshows⟩ := hshares _ hc
  refine ⟨a, r, ha, hrun, ?_⟩
  let s := Subject.of source baselines
  obtain rfl := Except.ok.inj (haudit.symm.trans (audit_eq s))
  have hnames : List.Forall₂ Names (offenders s.target s.entries)
      ((problems s.target s.entries).map Finding.ofPair) := forall₂_names s.entries _
  have hnodup : ((problems s.target s.entries).map Finding.ofPair).Nodup :=
    nodup_of_forall₂_names hnames (offenders_ascending.imp ne_of_lt)
  have hfindings : r.findings.filter (fun f => f.check ∈ [orphanRule, missingRule]) =
      (problems s.target s.entries).map Finding.ofPair :=
    hshows.findings_eq.trans (eraseDups_of_nodup hnodup)
  constructor
  · have hnone : (r.findingsFor orphanRule = [] ∧ r.findingsFor missingRule = []) ↔
        r.findings.filter (fun f => f.check ∈ [orphanRule, missingRule]) = [] := by
      simp only [Report.findingsFor, List.filter_eq_nil_iff, beq_iff_eq, List.mem_cons,
        List.not_mem_nil, or_false, decide_eq_true_eq, not_or, ← forall₂_and]
    calc (r.findingsFor orphanRule = [] ∧ r.findingsFor missingRule = [])
        ↔ offenders s.target s.entries = [] := by
          rw [hnone, hfindings, ← List.length_eq_zero_iff, ← hnames.length_eq,
            List.length_eq_zero_iff]
      _ ↔ ∀ e ∈ s.entries.entries, ¬ Offends s.target s.entries.entries e := by
          rw [List.eq_nil_iff_forall_not_mem]
          exact forall_congr' fun e => (not_congr mem_offenders_iff).trans not_and
      _ ↔ Paired s.target s.entries.entries := (paired_iff hfiles).symm
  · exact fun hneeded => paired_iff_bijOn hneeded
  · exact ⟨offenders s.target s.entries, fun e => mem_offenders_iff, offenders_ascending,
      hfindings ▸ hnames⟩

/-- A package with nothing but a companion. -/
def orphanPackage : MemoryPackage :=
  ⟨[("a.meta", [])]⟩

/-- What is found in this package tells that its entries are not paired up. -/
theorem Rules.report_tellsPairing_of_orphan :
    [ConsistencyRules.checker].Sublist checkers ∧
      (∀ path ∈ orphanPackage.source.files, validatePath path = .ok ()) ∧
      ¬ Paired ⟨none⟩ (EntrySet.ofFiles ⟨none⟩ orphanPackage.source.files).entries := by
  have hsub : [ConsistencyRules.checker].Sublist checkers := by
    rw [List.singleton_sublist]
    simp [checkers]
  have hfiles : ∀ path ∈ orphanPackage.source.files, validatePath path = .ok () := by
    decide +kernel
  obtain ⟨a, r, ha, hrun, htells⟩ :=
    report_tellsPairing hsub List.mem_cons_self hfiles .offline
  rcases Audit.ofCheckers_eq_ok_iff.1 ha with ⟨-, rfl⟩
  have hfound : ((Audit.mk [ConsistencyRules.checker] []).run orphanPackage.source .offline).map
      (·.findingsFor orphanRule) =
        .ok [⟨orphanRule, "companion file without target: a.meta"⟩] := by decide +kernel
  rw [hrun] at hfound
  have horphan : r.findingsFor orphanRule =
      [⟨orphanRule, "companion file without target: a.meta"⟩] := Except.ok.inj hfound
  refine ⟨hsub, hfiles, fun hpaired => ?_⟩
  rcases htells.holds_iff.2 hpaired with ⟨hnone, -⟩
  rw [horphan] at hnone
  cases hnone

end Reports

end PackageAudit
