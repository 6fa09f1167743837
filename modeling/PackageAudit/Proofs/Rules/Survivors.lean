import PackageAudit.Proofs.Package.Synthesis
import PackageAudit.Proofs.Rules.Consistency

/-!
# Proofs.Rules.Survivors — one side of a pair without the other

Where companions and assets are paired up, a file that goes leaves its partner alone. This is all
that goes wrong: an entry looks at one other path only, and its partner keeps the directories around
the file in place.

* `Source.Lacks` — a package without one file of another package;
* `EntrySet.Detached` — a file that goes without any other entry;
* `ConsistencyRules.partner` — the path that an entry looks at;
* `ConsistencyRules.problems_of_survivor` — of all entries only the partner comes to have a problem;
* `Rules.report_names_survivor` — the report has one finding, and it names the partner.
-/

namespace PackageAudit

/-! ## Packages without one of their files -/

/-- The files of a package but one, with the same answers for each of them. -/
structure Source.Lacks (source' source : Source) (gone : String) : Prop where
  mem_files_iff : ∀ file, file ∈ source'.files ↔ file ∈ source.files ∧ file ≠ gone
  contains_eq : ∀ file, file ≠ gone → source'.contains file = source.contains file
  read_eq : ∀ file, file ≠ gone → source'.read file = source.read file

/-- Without a file that is not the manifest, the manifest says the same. -/
theorem Source.Lacks.manifestOf_eq {source' source : Source} {gone : String}
    (h : source'.Lacks source gone) (hgone : gone ≠ Manifest.path) :
    Subject.manifestOf source' = Subject.manifestOf source := by
  rw [Subject.manifestOf, Subject.manifestOf, h.contains_eq _ hgone.symm, h.read_eq _ hgone.symm]

namespace MemoryPackage

/-- Take a file out. -/
def without (p : MemoryPackage) (path : String) : MemoryPackage :=
  ⟨p.contents.filter (·.1 != path)⟩

theorem get?_without {p : MemoryPackage} {path other : String} (hne : other ≠ path) :
    (p.without path).get? other = p.get? other := by
  rcases p with ⟨contents⟩
  rw [get?, get?, without]
  induction contents with
  | nil => rfl
  | cons file rest ih =>
    by_cases hfile : file.1 = path
    · have hother : (other == file.1) = false := beq_eq_false_iff_ne.2 (hfile ▸ hne)
      rw [List.filter_cons_of_neg (by simp [hfile]), ih, List.lookup_cons, hother]
    · rw [List.filter_cons_of_pos (by simp [hfile]), List.lookup_cons, List.lookup_cons, ih]

theorem lacks_without (p : MemoryPackage) (path : String) :
    (p.without path).source.Lacks p.source path where
  mem_files_iff file := by
    change file ∈ (p.without path).contents.map Prod.fst ↔ file ∈ p.contents.map Prod.fst ∧ _
    simp only [without, List.mem_map, List.mem_filter, bne_iff_ne]
    constructor
    · rintro ⟨found, ⟨hmem, hne⟩, rfl⟩
      exact ⟨⟨found, hmem, rfl⟩, hne⟩
    · rintro ⟨⟨found, hmem, rfl⟩, hne⟩
      exact ⟨found, ⟨hmem, hne⟩, rfl⟩
  contains_eq file hne := congrArg Option.isSome (get?_without hne)
  read_eq file hne := by
    change (p.without path).read file = p.read file
    rw [read, read, get?_without hne]

end MemoryPackage

/-! ## Paths around a file and its companion -/

theorem IsAbove.trans {path between file : String} (h : IsAbove path between)
    (h' : IsAbove between file) : IsAbove path file := by
  rcases h with ⟨behind, rfl⟩
  rcases h' with ⟨behind', rfl⟩
  exact ⟨behind ++ "/" ++ behind', by simp only [String.append_assoc]⟩

/-- The same directories are around a file and its companion. -/
theorem isAbove_append_companion {path file : String} :
    IsAbove path (file ++ ".meta") ↔ IsAbove path file := by
  simp only [← EntrySet.mem_ancestors, EntrySet.mem_ancestors_iff, String.toList_append]
  constructor
  · rintro ⟨behind, hboth⟩
    -- the slash is not in the suffix
    rcases List.append_eq_append_iff.1 hboth with ⟨rest, -, hsuffix⟩ | ⟨rest, hfile, hrest⟩
    · have hslash : '/' ∈ ".meta".toList := by
        rw [hsuffix]
        exact List.mem_append_right rest List.mem_cons_self
      exact absurd hslash (by decide)
    · cases rest with
      | nil => exact absurd hrest (by simp)
      | cons c rest =>
        obtain ⟨rfl, -⟩ := List.cons.inj hrest
        exact ⟨rest, hfile⟩
  · rintro ⟨behind, hfile⟩
    exact ⟨behind ++ ".meta".toList, by rw [hfile, List.append_assoc]; rfl⟩

theorem not_isAbove_companion (path : String) : ¬ IsAbove path (path ++ ".meta") := by
  rw [← EntrySet.mem_ancestors, EntrySet.mem_ancestors_iff, String.toList_append]
  rintro ⟨behind, hboth⟩
  have hsuffix := List.append_cancel_left hboth
  simp at hsuffix

/-! ## Entries without a file -/

namespace EntrySet

/-- A file goes that is around no other one, and what is around it is around one that stays. -/
structure Detached (files files' : List String) (gone : String) : Prop where
  mem_iff : ∀ file, file ∈ files' ↔ file ∈ files ∧ file ≠ gone
  alone : ∀ file ∈ files, ¬ IsAbove gone file
  kept : ∀ path, IsAbove path gone → ∃ file ∈ files', IsAbove path file

namespace Detached

variable {target : Target} {files files' : List String} {gone path : String} {e : Entry}

/-- No other path goes with the file. -/
theorem mem_paths_iff (h : Detached files files' gone) :
    (path ∈ files' ∨ ∃ file ∈ files', path ∈ ancestors file) ↔
      (path ∈ files ∨ ∃ file ∈ files, path ∈ ancestors file) ∧ path ≠ gone := by
  simp only [mem_ancestors]
  constructor
  · rintro (hfile | ⟨file, hfile, habove⟩)
    · rcases (h.mem_iff path).1 hfile with ⟨hfile, hne⟩
      exact ⟨.inl hfile, hne⟩
    · have hold : file ∈ files := ((h.mem_iff file).1 hfile).1
      refine ⟨.inr ⟨file, hold, habove⟩, ?_⟩
      rintro rfl
      exact h.alone file hold habove
  · rintro ⟨hfile | ⟨file, hfile, habove⟩, hne⟩
    · exact .inl ((h.mem_iff path).2 ⟨hfile, hne⟩)
    · right
      by_cases hgone : file = gone
      · exact h.kept path (hgone ▸ habove)
      · exact ⟨file, (h.mem_iff file).2 ⟨hfile, hgone⟩, habove⟩

theorem get?_gone (h : Detached files files' gone) : (ofFiles target files').get? gone = none := by
  rw [get?_eq_ite, if_neg]
  exact fun hpath => (h.mem_paths_iff.1 hpath).2 rfl

/-- Under every other path there is what there was. -/
theorem get?_eq (h : Detached files files' gone) (hne : path ≠ gone) :
    (ofFiles target files').get? path = (ofFiles target files).get? path := by
  have hkind : files'.contains path = files.contains path := by
    rw [Bool.eq_iff_iff, List.contains_iff_mem, List.contains_iff_mem, h.mem_iff]
    exact and_iff_left hne
  simp only [get?_eq_ite, h.mem_paths_iff, hkind, hne, ne_eq, not_false_eq_true, and_true]

theorem mem_entries_iff (h : Detached files files' gone) :
    e ∈ (ofFiles target files').entries ↔ e ∈ (ofFiles target files).entries ∧ e.path ≠ gone := by
  have hfound (files : List String) : e ∈ (ofFiles target files).entries ↔
      (ofFiles target files).get? e.path = some e :=
    ⟨fun he => get?_eq_some_iff.2 ⟨he, rfl⟩, fun he => (get?_eq_some_iff.1 he).1⟩
  rw [hfound, hfound]
  by_cases hne : e.path = gone
  · rw [hne, h.get?_gone]
    exact iff_of_false (fun hnone => nomatch hnone) fun hand => hand.2 rfl
  · rw [h.get?_eq hne]
    exact (and_iff_left hne).symm

end Detached

end EntrySet

namespace ConsistencyRules

open EntrySet (Detached)

variable {target : Target} {files files' : List String} {gone : String} {e t c : Entry}
  {set set' : EntrySet}

/-! ## Partners -/

/-- The path that an entry looks at: that of its asset, or of its companion. -/
def partner (e : Entry) : String :=
  if e.isCompanion then assetPath e.path else e.path ++ companionSuffix

theorem partner_of_companion {path : String} (h : e.path = path ++ ".meta") : partner e = path := by
  rw [partner, if_pos (Entry.isCompanion_iff.2 ⟨path, h⟩), h, assetPath_append]

theorem partner_of_other (h : e.isCompanion = false) : partner e = e.path ++ ".meta" :=
  if_neg (Bool.eq_false_iff.1 h)

/-- The problem of an entry depends on what lies under one path. -/
theorem problem?_congr (h : set'.get? (partner e) = set.get? (partner e)) :
    problem? target set' e = problem? target set e := by
  unfold partner at h
  unfold problem?
  cases hcompanion : e.isCompanion with
  | true =>
    rw [hcompanion, if_pos rfl] at h
    rw [if_pos rfl, if_pos rfl, companionProblem?, companionProblem?, h]
  | false =>
    rw [hcompanion, if_neg Bool.false_ne_true] at h
    rw [if_neg Bool.false_ne_true, if_neg Bool.false_ne_true, EntrySet.contains,
      EntrySet.contains, h]

/-- A companion file that nothing lies beside has no target. -/
theorem problem?_of_lost_asset (hc : c.IsCompanionFile) (h : set.get? (partner c) = none) :
    problem? target set c = some (orphanRule, "companion file without target: " ++ c.path) := by
  rw [partner, if_pos hc.companion] at h
  rw [problem?, if_pos hc.companion, companionProblem?, if_neg (Bool.eq_false_iff.1 hc.file), h]
  rfl

/-- An asset that nothing lies beside misses a companion. -/
theorem problem?_of_lost_companion (ht : IsAsset t) (hneeded : ¬ Exempt target t)
    (h : set.get? (partner t) = none) :
    problem? target set t = some (missingRule, "missing companion file: " ++ t.path) := by
  have hother : ¬ t.isCompanion = true := Bool.eq_false_iff.1 ht.2
  rw [partner, if_neg hother] at h
  have hexempt : isExempt target t = false := by
    rw [← Bool.not_eq_true, isExempt_iff]
    exact hneeded
  rw [problem?, if_neg hother, hexempt, EntrySet.contains, h]
  rfl

/-! ## One entry that is left alone -/

theorem filterMap_eq_singleton {α β : Type} {f : α → Option β} {l : List α} {a : α} {b : β}
    (hnodup : l.Nodup) (ha : a ∈ l) (hb : f a = some b) (hother : ∀ x ∈ l, x ≠ a → f x = none) :
    l.filterMap f = [b] := by
  obtain ⟨front, behind, rfl⟩ := List.append_of_mem ha
  have hnot : a ∉ front ++ behind := (List.nodup_cons.1 (List.nodup_middle.1 hnodup)).1
  have hfront : front.filterMap f = [] := by
    refine List.filterMap_eq_nil_iff.2 fun x hx => hother x (List.mem_append_left _ hx) ?_
    rintro rfl
    exact hnot (List.mem_append_left _ hx)
  have hbehind : behind.filterMap f = [] := by
    refine List.filterMap_eq_nil_iff.2 fun x hx => hother x ?_ ?_
    · exact List.mem_append_right _ (List.mem_cons_of_mem a hx)
    · rintro rfl
      exact hnot (List.mem_append_right _ hx)
  rw [List.filterMap_append, List.filterMap_cons_some hb, hfront, hbehind]
  rfl

section Clean

variable (hclean : problems target (.ofFiles target files) = [])
include hclean

theorem problem?_of_clean (he : e ∈ (EntrySet.ofFiles target files).entries)
    (hvisible : e.isHidden = false) : problem? target (.ofFiles target files) e = none :=
  List.filterMap_eq_nil_iff.1 hclean e (List.mem_filter.2 ⟨he, by rw [hvisible]; rfl⟩)

theorem not_offends_of_clean (he : e ∈ (EntrySet.ofFiles target files).entries)
    (hvisible : e.isHidden = false) :
    ¬ Offends target (EntrySet.ofFiles target files).entries e :=
  (problem?_eq_none_iff hvisible).1 (problem?_of_clean hclean he hvisible)

/--
Where nothing is wrong and a file goes that only one visible entry looks at, this entry comes to
have a problem, and no other one does.
-/
theorem problems_of_survivor {s : Entry} {problem : CheckId × String}
    (h : Detached files files' gone) (hs : s ∈ (EntrySet.ofFiles target files).entries)
    (hvisible : s.isHidden = false) (hstays : s.path ≠ gone)
    (honly : ∀ e ∈ (EntrySet.ofFiles target files).entries, e.isHidden = false →
      partner e = gone → e = s)
    (hproblem : problem? target (.ofFiles target files') s = some problem) :
    problems target (.ofFiles target files') = [problem] := by
  have hnodup : (EntrySet.ofFiles target files').entries.Nodup :=
    .of_map _ ((EntrySet.entries_ascending target files').imp ne_of_lt)
  have hseen : s ∈ (EntrySet.ofFiles target files').entries.filter fun e => !e.isHidden :=
    List.mem_filter.2 ⟨h.mem_entries_iff.2 ⟨hs, hstays⟩, by rw [hvisible]; rfl⟩
  refine filterMap_eq_singleton (hnodup.filter _) hseen hproblem fun e he hne => ?_
  rcases List.mem_filter.1 he with ⟨hmem, hsight⟩
  have hold : e ∈ (EntrySet.ofFiles target files).entries := (h.mem_entries_iff.1 hmem).1
  have hvisible' : e.isHidden = false := by simpa using hsight
  -- what the entry looks at is as it was before
  have hpartner : partner e ≠ gone := fun hgone => hne (honly e hold hvisible' hgone)
  rw [problem?_congr (h.get?_eq hpartner)]
  exact problem?_of_clean hclean hold hvisible'

end Clean

/-! ## Pairs -/

/-- A companion file of a package and the asset that it belongs to. -/
structure Pair (target : Target) (files : List String) (t c : Entry) : Prop where
  asset_mem : t ∈ (EntrySet.ofFiles target files).entries
  asset : IsAsset t
  companion_mem : c ∈ (EntrySet.ofFiles target files).entries
  companion : c.IsCompanionFile
  path : c.path = t.path ++ ".meta"

/-- Where nothing is wrong, every companion file is that of an asset. -/
theorem exists_pair_of_companion (hclean : problems target (.ofFiles target files) = [])
    (hc : c ∈ (EntrySet.ofFiles target files).entries) (hcompanion : c.IsCompanionFile) :
    ∃ t, Pair target files t c := by
  by_contra hnone
  refine not_offends_of_clean hclean hc hcompanion.visible ?_
  refine .orphan hcompanion.visible hcompanion.companion fun t ht hasset hpath => ?_
  exact hnone ⟨t, ht, hasset, hc, hcompanion, hpath⟩

/-- What lies in the place of the companion of an asset is a companion file. -/
theorem exists_pair_of_asset (hclean : problems target (.ofFiles target files) = [])
    (ht : t ∈ (EntrySet.ofFiles target files).entries) (hasset : IsAsset t)
    (hname : PathText.filename t.path.toList ≠ [])
    (hpresent : (EntrySet.ofFiles target files).contains (t.path ++ ".meta") = true) :
    ∃ c, Pair target files t c := by
  obtain ⟨c, hc, hpath⟩ := EntrySet.contains_iff.1 hpresent
  have hcompanion : c.isCompanion = true := isCompanion_of_path hpath
  have hvisible : c.isHidden = false := by
    have hsight := hasset.1
    rw [(EntrySet.mem_entries_iff.1 ht).2] at hsight
    rw [(EntrySet.mem_entries_iff.1 hc).2, hpath]
    exact Entry.isHidden_classify_companion hname hsight
  -- a directory in this place would be found to have the name of a companion
  have hfile : c.isDirectory = false := by
    by_contra hdirectory
    refine not_offends_of_clean hclean hc hvisible (.directory hvisible hcompanion ?_)
    exact Bool.not_eq_false _ ▸ hdirectory
  exact ⟨c, ht, hasset, hc, ⟨hvisible, hcompanion, hfile⟩, hpath⟩

namespace Pair

variable (h : Pair target files t c)
include h

theorem path_ne : c.path ≠ t.path := by
  intro hsame
  have hkind : t.isCompanion = true := isCompanion_of_path (hsame.symm.trans h.path)
  exact absurd hkind (Bool.eq_false_iff.1 h.asset.2)

/-- No entry but the companion looks at an asset. -/
theorem eq_companion (he : e ∈ (EntrySet.ofFiles target files).entries)
    (hlooks : partner e = t.path) : e = c := by
  cases hkind : e.isCompanion with
  | true =>
    rcases Entry.isCompanion_iff.1 hkind with ⟨path, hpath⟩
    rw [partner_of_companion hpath] at hlooks
    exact EntrySet.eq_of_path_eq he h.companion_mem (by rw [hpath, hlooks, h.path])
  | false =>
    -- the asset would have the name of a companion
    rw [partner_of_other hkind] at hlooks
    exact absurd (isCompanion_of_path hlooks.symm) (Bool.eq_false_iff.1 h.asset.2)

/-- Where nothing is wrong, no visible entry but the asset looks at a companion. -/
theorem eq_asset (hclean : problems target (.ofFiles target files) = [])
    (he : e ∈ (EntrySet.ofFiles target files).entries) (hvisible : e.isHidden = false)
    (hlooks : partner e = c.path) : e = t := by
  cases hkind : e.isCompanion with
  | true =>
    -- the companion of a companion would be found to be one
    refine absurd (.orphan hvisible hkind ?_) (not_offends_of_clean hclean he hvisible)
    intro t' _ hasset hpath
    rw [partner_of_companion hpath, h.path] at hlooks
    exact absurd (isCompanion_of_path hlooks) (Bool.eq_false_iff.1 hasset.2)
  | false =>
    rw [partner_of_other hkind, h.path, String.append_left_inj] at hlooks
    exact EntrySet.eq_of_path_eq he h.asset_mem hlooks

variable (hleaves : ∀ file ∈ files, ∀ other ∈ files, ¬ IsAbove file other)
include hleaves

/-- The companion of a file keeps the directories around it. -/
theorem detached_asset (hfile : t.isDirectory = false)
    (hrest : ∀ file, file ∈ files' ↔ file ∈ files ∧ file ≠ t.path) :
    Detached files files' t.path where
  mem_iff := hrest
  alone := hleaves t.path (EntrySet.mem_files_of_file h.asset_mem hfile)
  kept path habove := by
    have hcompanion : c.path ∈ files :=
      EntrySet.mem_files_of_file h.companion_mem h.companion.file
    refine ⟨c.path, (hrest _).2 ⟨hcompanion, h.path_ne⟩, ?_⟩
    rw [h.path]
    exact isAbove_append_companion.2 habove

/-- So does the asset of a companion, be it a file or a directory. -/
theorem detached_companion (hrest : ∀ file, file ∈ files' ↔ file ∈ files ∧ file ≠ c.path) :
    Detached files files' c.path where
  mem_iff := hrest
  alone := hleaves c.path (EntrySet.mem_files_of_file h.companion_mem h.companion.file)
  kept path habove := by
    rw [h.path, isAbove_append_companion] at habove
    rcases (EntrySet.mem_entries_iff.1 h.asset_mem).1 with hfile | ⟨file, hfile, hancestor⟩
    · exact ⟨t.path, (hrest _).2 ⟨hfile, h.path_ne.symm⟩, habove⟩
    · rw [EntrySet.mem_ancestors] at hancestor
      refine ⟨file, (hrest _).2 ⟨hfile, ?_⟩, habove.trans hancestor⟩
      rintro rfl
      exact not_isAbove_companion t.path (h.path ▸ hancestor)

variable (hclean : problems target (.ofFiles target files) = [])
include hclean

/-- Without the asset all that is wrong is that the companion has no target. -/
theorem problems_without_asset (hfile : t.isDirectory = false)
    (hrest : ∀ file, file ∈ files' ↔ file ∈ files ∧ file ≠ t.path) :
    problems target (.ofFiles target files') =
      [(orphanRule, "companion file without target: " ++ c.path)] := by
  have hdetached : Detached files files' t.path := h.detached_asset hleaves hfile hrest
  have hlost : (EntrySet.ofFiles target files').get? (partner c) = none := by
    rw [partner_of_companion h.path]
    exact hdetached.get?_gone
  refine problems_of_survivor hclean hdetached h.companion_mem h.companion.visible h.path_ne ?_ ?_
  · exact fun e he _ hlooks => h.eq_companion he hlooks
  · exact problem?_of_lost_asset h.companion hlost

/-- Without the companion all that is wrong is that the asset misses it. -/
theorem problems_without_companion (hneeded : ¬ Exempt target t)
    (hrest : ∀ file, file ∈ files' ↔ file ∈ files ∧ file ≠ c.path) :
    problems target (.ofFiles target files') =
      [(missingRule, "missing companion file: " ++ t.path)] := by
  have hdetached : Detached files files' c.path := h.detached_companion hleaves hrest
  have hlost : (EntrySet.ofFiles target files').get? (partner t) = none := by
    rw [partner_of_other h.asset.2, ← h.path]
    exact hdetached.get?_gone
  refine problems_of_survivor hclean hdetached h.asset_mem h.asset.1 h.path_ne.symm ?_ ?_
  · exact fun e he hvisible hlooks => h.eq_asset hclean he hvisible hlooks
  · exact problem?_of_lost_companion h.asset hneeded hlost

end Pair

end ConsistencyRules

/-! ## Reports -/

section Reports

open ConsistencyRules

/-- What is found by the rules on companions. -/
def Report.onPairing (r : Report) : List Finding :=
  r.findings.filter fun f => f.check ∈ [orphanRule, missingRule]

/-- Without a file of a package there is one finding by the rules on companions. -/
def Audit.FindsWithout (a : Audit) (source : Source) (path : String) (f : Finding) : Prop :=
  ∀ (source' : Source) (baselines : Baselines), source'.Lacks source path →
    ∃ r, a.run source' baselines = .ok r ∧ r.onPairing = [f]

theorem Report.Shows.onPairing_problems {r : Report} {target : Target} {files : List String}
    (hshows : r.Shows ConsistencyRules.checker
      ⟨(problems target (.ofFiles target files)).map Finding.ofPair, [], []⟩) :
    r.onPairing = (problems target (.ofFiles target files)).map Finding.ofPair :=
  hshows.findings_eq.trans (eraseDups_of_nodup nodup_problems)

/-- An audit finds what is wrong with the other files. -/
theorem Rules.findsWithout {a : Audit} {source : Source} (baselines : Baselines) {path : String}
    {rule : CheckId} {message : String} (hpath : path ≠ Manifest.path)
    (hruns : ∀ (source : Source) (baselines : Baselines),
      let s := Subject.of source baselines
      ∃ r, a.run source baselines = .ok r ∧ r.Shows ConsistencyRules.checker
        ⟨(problems s.target s.entries).map Finding.ofPair, [], []⟩)
    (hproblems : ∀ files' : List String,
      (∀ file, file ∈ files' ↔ file ∈ source.files ∧ file ≠ path) →
      problems (Subject.of source baselines).target
        (.ofFiles (Subject.of source baselines).target files') = [(rule, message)]) :
    a.FindsWithout source path ⟨rule, message⟩ := by
  intro source' baselines' hlacks
  obtain ⟨r', hrun', hshows'⟩ := hruns source' baselines'
  have htarget : (Subject.of source' baselines').target = (Subject.of source baselines).target :=
    congrArg Subject.targetOf (hlacks.manifestOf_eq hpath)
  refine ⟨r', hrun', ?_⟩
  have hfound := hshows'.onPairing_problems
  rw [htarget, hproblems _ hlacks.mem_files_iff] at hfound
  exact hfound

/--
Where no file is around another one and nothing is found by the rules on companions, either side of
a pair names the other one when it goes. Without a file there is one finding, that its companion has
no target. Every companion belongs to an asset, and without it there is one finding, that this asset
misses it, unless it needs none. A file whose path ends with a slash has no name, so that what is
called its companion is hidden; no package can have such a file.
-/
theorem Rules.report_names_survivor {cs : List Checker} (h : cs.Sublist checkers)
    (hc : ConsistencyRules.checker ∈ cs) {source : Source}
    (hleaves : ∀ file ∈ source.files, ∀ other ∈ source.files, ¬ IsAbove file other)
    (baselines : Baselines) :
    let s := Subject.of source baselines
    ∃ a r, Audit.ofCheckers cs = .ok a ∧ a.run source baselines = .ok r ∧ (r.onPairing = [] →
      (∀ t ∈ s.entries.entries, IsAsset t → t.isDirectory = false → t.path ≠ Manifest.path →
        PathText.filename t.path.toList ≠ [] → s.entries.contains (t.path ++ ".meta") = true →
        a.FindsWithout source t.path
          ⟨orphanRule, "companion file without target: " ++ (t.path ++ ".meta")⟩) ∧
      ∀ c ∈ s.entries.entries, c.IsCompanionFile →
        ∃ t ∈ s.entries.entries, IsAsset t ∧ c.path = t.path ++ ".meta" ∧
          (¬ Exempt s.target t →
            a.FindsWithout source c.path ⟨missingRule, "missing companion file: " ++ t.path⟩)) := by
  intro s
  obtain ⟨a, ha, hruns⟩ := report_showsProblems h hc
  obtain ⟨r, hrun, hshows⟩ := hruns source baselines
  refine ⟨a, r, ha, hrun, fun hnone => ?_⟩
  have hclean : problems s.target (.ofFiles s.target source.files) = [] := by
    rw [hshows.onPairing_problems, List.map_eq_nil_iff] at hnone
    exact hnone
  constructor
  · intro t ht hasset hfile hmanifest hname hpresent
    obtain ⟨c, hpair⟩ := exists_pair_of_asset hclean ht hasset hname hpresent
    refine findsWithout baselines hmanifest hruns fun files' hrest => ?_
    rw [← hpair.path]
    exact hpair.problems_without_asset hleaves hclean hfile hrest
  · intro c hmem hcompanion
    obtain ⟨t, hpair⟩ := exists_pair_of_companion hclean hmem hcompanion
    refine ⟨t, hpair.asset_mem, hpair.asset, hpair.path, fun hneeded => ?_⟩
    have hmanifest : c.path ≠ Manifest.path := by
      intro hmanifest
      have hkind := hcompanion.companion
      rw [Entry.isCompanion, hmanifest] at hkind
      exact absurd hkind (by decide)
    refine findsWithout baselines hmanifest hruns fun files' hrest => ?_
    exact hpair.problems_without_companion hleaves hclean hneeded hrest

/-- A file in a directory, each of them with its companion. -/
def pairPackage : MemoryPackage :=
  ⟨[("a.meta", []), ("a/b.txt", []), ("a/b.txt.meta", [])]⟩

/-- Nothing is wrong with this package, and either file in the directory names the other one. -/
theorem Rules.report_names_survivor_either :
    (∀ file ∈ pairPackage.source.files, ∀ other ∈ pairPackage.source.files,
        ¬ IsAbove file other) ∧
      ∃ a r, Audit.ofCheckers [ConsistencyRules.checker] = .ok a ∧
        a.run pairPackage.source .offline = .ok r ∧ r.onPairing = [] ∧
        (∃ r', a.run (pairPackage.without "a/b.txt").source .offline = .ok r' ∧
          r'.onPairing = [⟨orphanRule, "companion file without target: a/b.txt.meta"⟩]) ∧
        ∃ r', a.run (pairPackage.without "a/b.txt.meta").source .offline = .ok r' ∧
          r'.onPairing = [⟨missingRule, "missing companion file: a/b.txt"⟩] := by
  have hsub : [ConsistencyRules.checker].Sublist checkers :=
    List.singleton_sublist.2 (by simp [checkers])
  have hleaves : ∀ file ∈ pairPackage.source.files, ∀ other ∈ pairPackage.source.files,
      ¬ IsAbove file other := by
    simp only [← EntrySet.mem_ancestors]
    decide +kernel
  obtain ⟨a, r, ha, hrun, hnames⟩ :=
    report_names_survivor hsub List.mem_cons_self hleaves .offline
  have hnone : r.onPairing = [] := by
    obtain ⟨a', ha', hruns⟩ := report_showsProblems hsub List.mem_cons_self
    obtain rfl := Except.ok.inj (ha.symm.trans ha')
    obtain ⟨r', hrun', hshows⟩ := hruns pairPackage.source .offline
    obtain rfl := Except.ok.inj (hrun.symm.trans hrun')
    rw [hshows.onPairing_problems, ← EntrySet.kinds_eq]
    decide +kernel
  obtain ⟨hasset, hcompanion⟩ := hnames hnone
  have hentry : ∀ path ∈ pairPackage.files, Entry.classify ⟨none⟩ false path ∈
      (Subject.of pairPackage.source .offline).entries.entries :=
    fun path hpath => (EntrySet.get?_eq_some_iff.1 (EntrySet.get?_file hpath)).1
  refine ⟨hleaves, a, r, ha, hrun, hnone, ?_, ?_⟩
  · refine hasset _ (hentry "a/b.txt" (by decide)) ⟨by decide, by decide⟩ rfl (by decide)
      (by decide) ?_ _ .offline (pairPackage.lacks_without "a/b.txt")
    exact congrArg Option.isSome
      (EntrySet.get?_file (show "a/b.txt.meta" ∈ pairPackage.files by decide))
  · obtain ⟨t, ht, -, hpath, hfinds⟩ := hcompanion _ (hentry "a/b.txt.meta" (by decide))
      ⟨by decide, by decide, rfl⟩
    have hsame : "a/b.txt" ++ ".meta" = t.path ++ ".meta" := hpath
    have htarget : t.path = "a/b.txt" := ((String.append_left_inj _).1 hsame).symm
    rw [htarget] at hfinds
    refine hfinds ?_ _ .offline (pairPackage.lacks_without "a/b.txt.meta")
    rintro ⟨⟨p, hminimum, -⟩, -⟩
    cases hminimum

end Reports

end PackageAudit
