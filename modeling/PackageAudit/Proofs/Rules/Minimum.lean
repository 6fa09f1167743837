import PackageAudit.Proofs.Package.Synthesis
import PackageAudit.Proofs.Rules.Consistency

/-!
# Proofs.Rules.Minimum — packages for later releases only

The minimum release of a package decides on its entries in two ways. Some extensions make a plugin
of a directory from a release on, and the contents of plugins need no companions from a release on.
With a later minimum more entries lie in plugins, and more of these are exempt:

* `Target.AtMost` — a minimum and one that is not earlier, where none at all is the lowest;
* `PathText.inPlugin_mono`, `PathText.inPlugin_below` — what lies in a plugin stays there;
* `ConsistencyRules.problemAt?_cases` — the problem of a path stays, or is that of an exempt entry;
* `Rules.report_of_later_minimum` — the report on a package for later releases has no new finding.
-/

namespace PackageAudit

/-! ## Minimum releases -/

theorem Platform.atLeast_trans {p q r : Platform} (hpq : p.atLeast q = true)
    (hqr : q.atLeast r = true) : p.atLeast r = true := by
  simp only [atLeast, Bool.or_eq_true, decide_eq_true_eq, Bool.and_eq_true, beq_iff_eq] at *
  omega

/-- One minimum is not later than the other; no minimum is the lowest. -/
def Target.AtMost (t t' : Target) : Prop :=
  ∀ p, t.minimum = some p → ∃ p', t'.minimum = some p' ∧ p'.atLeast p = true

variable {t t' : Target}

/-- With a later minimum all releases are still late enough. -/
theorem Target.AtMost.reaches (h : t.AtMost t') {p : Platform} (hp : t.reaches p = true) :
    t'.reaches p = true := by
  rw [Target.reaches, Option.any_eq_true] at hp ⊢
  rcases hp with ⟨least, hleast, hlate⟩
  rcases h least hleast with ⟨least', hleast', hlater⟩
  exact ⟨least', hleast', Platform.atLeast_trans hlater hlate⟩

namespace PathText

/-! ## Plugins -/

theorem isPluginName_mono (h : t.AtMost t') {name : List Char}
    (hname : isPluginName t name = true) : isPluginName t' name = true := by
  rw [isPluginName, List.any_eq_true] at hname ⊢
  rcases hname with ⟨⟨plugin, since⟩, hmem, hplugin⟩
  rcases Bool.and_eq_true_iff.1 hplugin with ⟨hextension, hsince⟩
  refine ⟨(plugin, since), hmem, Bool.and_eq_true_iff.2 ⟨hextension, ?_⟩⟩
  cases since with
  | none => rfl
  | some release => exact h.reaches hsince

theorem inPlugin_mono (h : t.AtMost t') {path : List Char} (hpath : inPlugin t path = true) :
    inPlugin t' path = true := by
  rw [inPlugin, List.any_eq_true] at hpath ⊢
  rcases hpath with ⟨name, hname, hplugin⟩
  exact ⟨name, hname, isPluginName_mono h hplugin⟩

/-- The directories around a path are around everything below it, too. -/
theorem inPlugin_below {path below : String} (habove : IsAbove path below)
    (hpath : inPlugin t path.toList = true) : inPlugin t below.toList = true := by
  rcases habove with ⟨behind, rfl⟩
  have hnames : components (path ++ "/" ++ behind).toList =
      components path.toList ++ components behind.toList := by
    rw [String.toList_append, String.toList_append, List.append_assoc]
    exact List.splitOn_append_cons_self ..
  rw [inPlugin, List.any_eq_true] at hpath ⊢
  rcases hpath with ⟨name, hname, hplugin⟩
  refine ⟨name, ?_, hplugin⟩
  have hne : components behind.toList ≠ [] := List.splitOn_ne_nil _ _
  rw [hnames, List.dropLast_append_of_ne_nil hne]
  exact List.mem_append_left _ ((List.dropLast_sublist _).mem hname)

end PathText

namespace ConsistencyRules

variable {files : List String} {path : String} {set set' : EntrySet} {e e' : Entry}

/-! ## Problems of paths -/

/-- The paths of a package that are in sight, whatever it is made for. -/
def visiblePaths (files : List String) : List String :=
  (Sorted.ofList (files ++ files.flatMap EntrySet.ancestors)).filter fun path =>
    !PathText.isHidden path.toList

/-- What is wrong with a path of a package. -/
def problemAt? (target : Target) (files : List String) (path : String) :
    Option (CheckId × String) :=
  problem? target (.ofFiles target files) (.classify target (!files.contains path) path)

theorem problems_eq (target : Target) (files : List String) :
    problems target (.ofFiles target files) =
      (visiblePaths files).filterMap (problemAt? target files) := by
  rw [problems, EntrySet.ofFiles, List.filter_map, List.filterMap_map]
  rfl

theorem isCompanion_congr (hpath : e'.path = e.path) : e'.isCompanion = e.isCompanion := by
  rw [Entry.isCompanion, Entry.isCompanion, hpath]

/-- A finding names an entry by its path alone. -/
theorem Names.congr {f : Finding} (h : Names e f) (hpath : e'.path = e.path) : Names e' f := by
  rw [Names, isCompanion_congr hpath, hpath]
  exact h

/-- A companion has a problem by its path and by what its asset is. -/
theorem companionProblem?_congr (hpath : e'.path = e.path)
    (hdirectory : e'.isDirectory = e.isDirectory)
    (hasset : (set'.get? (assetPath e.path)).map (fun a => (a.isHidden, a.isCompanion)) =
      (set.get? (assetPath e.path)).map fun a => (a.isHidden, a.isCompanion)) :
    companionProblem? set' e' = companionProblem? set e := by
  unfold companionProblem?
  rw [hpath, hdirectory]
  cases hold : set.get? (assetPath e.path) with
  | none =>
    rw [hold, Option.map_none, Option.map_eq_none_iff] at hasset
    rw [hasset]
  | some asset =>
    rw [hold, Option.map_some, Option.map_eq_some_iff] at hasset
    rcases hasset with ⟨asset', hnew, hsame⟩
    obtain ⟨hhidden, hcompanion⟩ := Prod.mk.inj hsame
    rw [hnew]
    simp only [hhidden, hcompanion]

/--
An entry goes on to have the problem that it has if it stays the same, but for becoming exempt. Then
the problem can be that of a missing companion, which it has no more.
-/
theorem problem?_cases (hpath : e'.path = e.path)
    (hproblem : companionProblem? set' e' = companionProblem? set e)
    (hcontains : set'.contains (e.path ++ companionSuffix) =
      set.contains (e.path ++ companionSuffix))
    (hexempt : isExempt t e = true → isExempt t' e' = true) :
    problem? t' set' e' = problem? t set e ∨
      problem? t' set' e' = none ∧ isExempt t' e' = true ∧
        ∃ message, problem? t set e = some (missingRule, message) := by
  unfold problem?
  rw [isCompanion_congr hpath, hproblem, hpath, hcontains]
  cases e.isCompanion with
  | true => exact .inl rfl
  | false =>
    cases hold : isExempt t e with
    | true =>
      rw [hexempt hold]
      exact .inl rfl
    | false =>
      -- only an entry that is not exempt before, but then, can have another problem
      cases hnew : isExempt t' e' with
      | false => exact .inl rfl
      | true =>
        cases set.contains (e.path ++ companionSuffix) with
        | true => exact .inl rfl
        | false => exact .inr ⟨rfl, rfl, _, rfl⟩

/-- The same is found under a path, but for what releases have to do with it. -/
theorem get?_retarget {α : Type} (t t' : Target) (files : List String) (path : String)
    {f : Entry → α} (hf : ∀ isDirectory path,
      f (.classify t' isDirectory path) = f (.classify t isDirectory path)) :
    ((EntrySet.ofFiles t' files).get? path).map f =
      ((EntrySet.ofFiles t files).get? path).map f := by
  rw [EntrySet.get?_eq_ite, EntrySet.get?_eq_ite]
  split
  · rw [Option.map_some, Option.map_some, hf]
  · rfl

theorem contains_retarget (t t' : Target) (files : List String) (path : String) :
    (EntrySet.ofFiles t' files).contains path = (EntrySet.ofFiles t files).contains path := by
  have hfound := get?_retarget (f := Entry.path) t t' files path fun isDirectory path => by
    simp only [Entry.classify]
  rw [EntrySet.contains, ← Option.isSome_map, hfound, Option.isSome_map, EntrySet.contains]

theorem isExempt_mono (h : t.AtMost t') {isDirectory : Bool}
    (hexempt : isExempt t (.classify t isDirectory path) = true) :
    isExempt t' (.classify t' isDirectory path) = true := by
  rcases Bool.and_eq_true_iff.1 hexempt with ⟨hreaches, hplugin⟩
  exact Bool.and_eq_true_iff.2 ⟨h.reaches hreaches, PathText.inPlugin_mono h hplugin⟩

/-- A path goes on to have the problem that it has, unless it comes to need no companion. -/
theorem problemAt?_cases (h : t.AtMost t') :
    problemAt? t' files path = problemAt? t files path ∨
      problemAt? t' files path = none ∧
        isExempt t' (.classify t' (!files.contains path) path) = true ∧
        ∃ message, problemAt? t files path = some (missingRule, message) := by
  let isDirectory := !files.contains path
  have hpath : (Entry.classify t' isDirectory path).path =
      (Entry.classify t isDirectory path).path := by simp only [Entry.classify]
  have hdirectory : (Entry.classify t' isDirectory path).isDirectory =
      (Entry.classify t isDirectory path).isDirectory := by simp only [Entry.classify]
  refine problem?_cases hpath (companionProblem?_congr hpath hdirectory ?_)
    (contains_retarget t t' files _) (isExempt_mono h)
  refine get?_retarget t t' files _ fun isDirectory path => ?_
  simp only [Entry.classify, Entry.isCompanion]

/-! ## Problems of packages -/

theorem filterMap_sublist_filterMap {α β : Type} {f g : α → Option β} {l : List α}
    (h : ∀ a ∈ l, g a = f a ∨ g a = none) : (l.filterMap g).Sublist (l.filterMap f) := by
  induction l with
  | nil => exact .slnil
  | cons a l ih =>
    have hrest := ih fun b hb => h b (List.mem_cons_of_mem a hb)
    rcases h a List.mem_cons_self with hsame | hnone
    · rw [List.filterMap_cons, List.filterMap_cons, hsame]
      cases f a with
      | none => exact hrest
      | some b => exact hrest.cons_cons b
    · rw [List.filterMap_cons_none hnone, List.filterMap_cons]
      cases f a with
      | none => exact hrest
      | some b => exact hrest.cons b

/-- The problems under one rule, path by path. -/
theorem filter_problems (target : Target) (files : List String) (rule : CheckId) :
    (problems target (.ofFiles target files)).filter (·.1 == rule) =
      (visiblePaths files).filterMap fun path =>
        (problemAt? target files path).filter (·.1 == rule) := by
  rw [problems_eq, List.filter_filterMap]

theorem problems_orphan_eq (h : t.AtMost t') :
    (problems t' (.ofFiles t' files)).filter (·.1 == orphanRule) =
      (problems t (.ofFiles t files)).filter (·.1 == orphanRule) := by
  rw [filter_problems, filter_problems]
  refine List.filterMap_congr fun path _ => ?_
  rcases problemAt?_cases h with hsame | ⟨hnone, -, message, hmissing⟩
  · rw [hsame]
  · rw [hnone, hmissing]
    rfl

theorem problems_missing_sublist (h : t.AtMost t') :
    ((problems t' (.ofFiles t' files)).filter (·.1 == missingRule)).Sublist
      ((problems t (.ofFiles t files)).filter (·.1 == missingRule)) := by
  rw [filter_problems, filter_problems]
  refine filterMap_sublist_filterMap fun path _ => ?_
  rcases problemAt?_cases h with hsame | ⟨hnone, -, -⟩
  · rw [hsame]
    exact .inl rfl
  · rw [hnone]
    exact .inr rfl

/-- A problem that is none any more names an entry that needs no companion now. -/
theorem exempt_of_settled (h : t.AtMost t') {problem : CheckId × String}
    (hold : problem ∈ problems t (.ofFiles t files))
    (hnew : problem ∉ problems t' (.ofFiles t' files)) :
    ∃ e ∈ (EntrySet.ofFiles t' files).entries,
      Names e (Finding.ofPair problem) ∧ Exempt t' e := by
  rw [problems_eq, List.mem_filterMap] at hold hnew
  rcases hold with ⟨path, hpath, hproblem⟩
  rcases problemAt?_cases h with hsame | ⟨-, hexempt, -⟩
  · exact absurd ⟨path, hpath, hsame.trans hproblem⟩ hnew
  · let e := Entry.classify t' (!files.contains path) path
    have hmem : e ∈ (EntrySet.ofFiles t' files).entries :=
      List.mem_map_of_mem (List.mem_filter.1 hpath).1
    have hpath : e.path = (Entry.classify t (!files.contains path) path).path := by
      simp only [e, Entry.classify]
    exact ⟨e, hmem, (names_of_problem? hproblem).congr hpath, isExempt_iff.1 hexempt⟩

end ConsistencyRules

/-! ## Reports -/

section Reports

open ConsistencyRules

/-- The findings under one rule are the problems under it. -/
theorem Report.Shows.findingsFor_problems {r : Report} {target : Target} {files : List String}
    {rule : CheckId} (hshows : r.Shows ConsistencyRules.checker
      ⟨(problems target (.ofFiles target files)).map Finding.ofPair, [], []⟩)
    (hrule : rule ∈ ConsistencyRules.checker.checks) :
    r.findingsFor rule =
      ((problems target (.ofFiles target files)).filter (·.1 == rule)).map Finding.ofPair := by
  rw [hshows.findingsFor_eq hrule, eraseDups_of_nodup (nodup_problems.filter _), List.filter_map]
  rfl

/--
Two packages with the same files, the second of which is made for the same or later releases, have
the same findings about companions without an asset, and the second one has no finding about a
missing companion that the first one does not have; where it has one less, this names an entry that
needs no companion any more. What lies in a plugin of the first one lies in one of the second one,
and so does whatever is below it.
-/
theorem Rules.report_of_later_minimum {cs : List Checker} (h : cs.Sublist checkers)
    (hc : ConsistencyRules.checker ∈ cs) {source source' : Source}
    (hfiles : source'.files = source.files) (baselines baselines' : Baselines)
    (hminimum : (Subject.of source baselines).target.AtMost
      (Subject.of source' baselines').target) :
    let s := Subject.of source baselines
    let s' := Subject.of source' baselines'
    (∃ a r r', Audit.ofCheckers cs = .ok a ∧ a.run source baselines = .ok r ∧
      a.run source' baselines' = .ok r' ∧
      r'.findingsFor orphanRule = r.findingsFor orphanRule ∧
      (r'.findingsFor missingRule).Sublist (r.findingsFor missingRule) ∧
      ∀ f ∈ r.findingsFor missingRule, f ∉ r'.findingsFor missingRule →
        ∃ e ∈ s'.entries.entries, Names e f ∧ Exempt s'.target e) ∧
    ∀ isDirectory isDirectory' path below,
      (Entry.classify s.target isDirectory path).inPlugin = true →
      below = path ∨ IsAbove path below →
      (Entry.classify s.target isDirectory' below).inPlugin = true ∧
        (Entry.classify s'.target isDirectory' below).inPlugin = true := by
  intro s s'
  constructor
  · obtain ⟨a, ha, hruns⟩ := report_showsProblems h hc
    obtain ⟨r, hrun, hshows⟩ := hruns source baselines
    obtain ⟨r', hrun', hshows'⟩ := hruns source' baselines'
    have hentries' : s'.entries = .ofFiles s'.target source.files := by
      rw [← hfiles]
      rfl
    rw [hentries'] at hshows'
    refine ⟨a, r, r', ha, hrun, hrun', ?_, ?_, ?_⟩
    · rw [hshows'.findingsFor_problems (by decide), hshows.findingsFor_problems (by decide),
        problems_orphan_eq hminimum]
    · rw [hshows'.findingsFor_problems (by decide), hshows.findingsFor_problems (by decide)]
      exact (problems_missing_sublist hminimum).map Finding.ofPair
    · rw [hshows'.findingsFor_problems (by decide), hshows.findingsFor_problems (by decide)]
      intro f hold hnew
      rcases List.mem_map.1 hold with ⟨problem, hproblem, rfl⟩
      rcases List.mem_filter.1 hproblem with ⟨hmem, hrule⟩
      rw [hentries']
      refine exempt_of_settled hminimum hmem fun hmem' => hnew ?_
      exact List.mem_map_of_mem (List.mem_filter.2 ⟨hmem', hrule⟩)
  · intro isDirectory isDirectory' path below hplugin hbelow
    have hinside : PathText.inPlugin s.target below.toList = true := by
      rcases hbelow with rfl | habove
      · exact hplugin
      · exact PathText.inPlugin_below habove hplugin
    exact ⟨hinside, PathText.inPlugin_mono hminimum hinside⟩

/-- A package with a plugin in it, one of whose files has no companion. -/
def pluginPackage (minimum : String) : MemoryPackage :=
  ⟨[("Plugins.meta", []), ("Plugins/Lib.bundle.meta", []), ("Plugins/Lib.bundle/Info.plist", []),
    ("package.json", textBytes ("\x7b\"unity\":\"" ++ minimum ++ "\"\x7d")),
    ("package.json.meta", [])]⟩

/-- What is wrong with this package is no problem any more if it is for later releases only. -/
theorem Rules.report_of_later_minimum_plugin :
    let old := (pluginPackage "2020.3").source
    let new := (pluginPackage "2021.2").source
    let lacking := "missing companion file: Plugins/Lib.bundle/Info.plist"
    new.files = old.files ∧
      (Subject.of old .offline).target.AtMost (Subject.of new .offline).target ∧
      problems ⟨some ⟨2020, 3⟩⟩ (Subject.of old .offline).entries = [(missingRule, lacking)] ∧
      problems ⟨some ⟨2021, 2⟩⟩ (Subject.of new .offline).entries = [] ∧
      ∃ a r r', Audit.ofCheckers [ConsistencyRules.checker] = .ok a ∧
        a.run old .offline = .ok r ∧ a.run new .offline = .ok r' ∧
        r'.findingsFor orphanRule = r.findingsFor orphanRule ∧
        (r'.findingsFor missingRule).Sublist (r.findingsFor missingRule) ∧
        ∀ f ∈ r.findingsFor missingRule, f ∉ r'.findingsFor missingRule →
          ∃ e ∈ (Subject.of new .offline).entries.entries,
            Names e f ∧ Exempt (Subject.of new .offline).target e := by
  intro old new lacking
  have hsub : [ConsistencyRules.checker].Sublist checkers :=
    List.singleton_sublist.2 (by simp [checkers])
  have hfiles : new.files = old.files := by decide +kernel
  have hold : (Subject.of old .offline).target.minimum = some ⟨2020, 3⟩ := by decide +kernel
  have hnew : (Subject.of new .offline).target.minimum = some ⟨2021, 2⟩ := by decide +kernel
  have hminimum : (Subject.of old .offline).target.AtMost (Subject.of new .offline).target := by
    intro p hp
    obtain rfl := Option.some.inj (hold.symm.trans hp)
    exact ⟨_, hnew, by decide⟩
  refine ⟨hfiles, hminimum, ?_, ?_,
    (report_of_later_minimum hsub List.mem_cons_self hfiles .offline .offline hminimum).1⟩
  · change problems _ (.ofFiles (Subject.of old .offline).target old.files) = _
    rw [← EntrySet.kinds_eq]
    decide +kernel
  · change problems _ (.ofFiles (Subject.of new .offline).target new.files) = _
    rw [← EntrySet.kinds_eq]
    decide +kernel

end Reports

end PackageAudit
