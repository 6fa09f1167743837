import Mathlib.Data.String.Basic
import PackageAudit.Proofs.Package.Memory
import PackageAudit.Proofs.Text.Order

/-!
# Proofs.Package.Entries — the entries of a package and the names in their paths

The entries of a package are its files and the directories around them, each path once and in
ascending order. No name in their paths is empty, so that a suffix changes the last name only:

* `Sorted.ofList_ascending` — texts in strictly ascending order;
* `PathText.components_append` — what a suffix does to the names of a path;
* `PathText.isHidden_append_companion` — a companion is as visible as what it accompanies;
* `EntrySet.mem_entries_iff`, `EntrySet.get?_eq_ite` — the entries, and what is found under a path;
* `Entry.isCompanion_iff` — which entries are companions.
-/

namespace PackageAudit

/-! ## Texts in order -/

namespace Sorted

theorem distinct_ascending {texts : List String} (h : texts.Pairwise (· ≤ ·)) :
    (distinct texts).Pairwise (· < ·) := by
  -- Along the recursion: what comes first is not greater than the others, and not the same as any
  -- of them once those that are the same as the next one are dropped.
  induction texts using distinct.induct with
  | case1 => exact .nil
  | case2 a => exact List.pairwise_singleton _ _
  | case3 a rest ih =>
    rw [distinct, if_pos rfl]
    exact ih h.of_cons
  | case4 a b rest hne ih =>
    rw [distinct, if_neg hne]
    refine List.pairwise_cons.2 ⟨fun c hc => ?_, ih h.of_cons⟩
    have hab : a < b := lt_of_le_of_ne (List.rel_of_pairwise_cons h List.mem_cons_self) hne
    rcases List.mem_cons.1 (mem_distinct.1 hc) with rfl | hrest
    · exact hab
    · exact lt_of_lt_of_le hab (List.rel_of_pairwise_cons h.of_cons hrest)

theorem ofList_ascending (texts : List String) : (ofList texts).Pairwise (· < ·) :=
  distinct_ascending (pairwise_mergeSort_texts texts)

end Sorted

/-! ## Names -/

namespace PathText

variable {path more : List Char}

/-- A suffix without slashes becomes a part of the last name. -/
theorem components_append (h : '/' ∉ more) (path : List Char) :
    ∃ names name, components path = names ++ [name] ∧
      components (path ++ more) = names ++ [name ++ more] := by
  unfold components
  induction path with
  | nil => exact ⟨[], [], List.splitOn_nil _, List.splitOn_eq_singleton h⟩
  | cons c path ih =>
    rcases ih with ⟨names, name, hpath, hmore⟩
    rw [List.cons_append, List.splitOn_cons_eq_if_modifyHead, List.splitOn_cons_eq_if_modifyHead,
      hpath, hmore]
    split
    · exact ⟨[] :: names, name, rfl, rfl⟩
    · cases names with
      | nil => exact ⟨[], c :: name, rfl, rfl⟩
      | cons first names => exact ⟨(c :: first) :: names, name, rfl, rfl⟩

/-- The names of a path that can name a file are not empty. -/
theorem ne_nil_of_fault? (h : fault? path = none) : ∀ name ∈ components path, name ≠ [] := by
  unfold fault? at h
  split at h
  · cases h
  · split at h
    · cases h
    · split at h
      · cases h
      · rintro name hname rfl
        have hnone := List.findSome?_eq_none_iff.1 h [] hname
        cases hnone

theorem filename_ne_nil (h : ∀ name ∈ components path, name ≠ []) : filename path ≠ [] := by
  rcases components_append List.not_mem_nil path with ⟨names, name, hpath, -⟩
  rw [filename, hpath, List.getLast?_concat]
  exact h name (hpath ▸ List.mem_append_right names List.mem_cons_self)

/-- A name that hides nothing does not come to do so by the suffix of companions. -/
theorem isHiddenName_append_companion {name : List Char} (hne : name ≠ [])
    (h : isHiddenName name = false) : isHiddenName (name ++ ".meta".toList) = false := by
  simp only [isHiddenName, Bool.or_eq_false_iff, beq_eq_false_iff_ne] at h ⊢
  rcases h with ⟨⟨hfirst, -⟩, -⟩
  refine ⟨⟨?_, ?_⟩, ?_⟩
  · rwa [List.head?_append_of_ne_nil _ hne]
  · rw [List.getLast?_append_of_ne_nil _ (by decide)]
    decide
  · intro hreserved
    have hlength := congrArg List.length hreserved
    simp [lower] at hlength

/-- The companion of what is in sight is in sight. -/
theorem isHidden_append_companion (hne : filename path ≠ [])
    (h : isHidden path = false) : isHidden (path ++ ".meta".toList) = false := by
  rcases components_append (show '/' ∉ ".meta".toList by decide) path with
    ⟨names, name, hpath, hmore⟩
  rw [isHidden, Bool.or_eq_false_iff, List.any_eq_false] at h ⊢
  rcases h with ⟨hnames, -⟩
  rw [filename, hpath, List.getLast?_concat] at hne
  rw [hpath] at hnames
  constructor
  · intro other hother
    rw [hmore, List.mem_append, List.mem_singleton] at hother
    rcases hother with hbefore | rfl
    · exact hnames other (List.mem_append_left _ hbefore)
    · have hlast : name ∈ names ++ [name] := List.mem_append_right _ List.mem_cons_self
      rw [Bool.not_eq_true]
      exact isHiddenName_append_companion hne (Bool.not_eq_true _ ▸ hnames name hlast)
  · -- one suffix ends with another letter than the other
    rw [← Bool.not_eq_true, List.isSuffixOf_iff_suffix]
    rintro ⟨front, hfront⟩
    have hlast := congrArg List.getLast? hfront
    rw [lower, List.map_append, List.getLast?_append_of_ne_nil _ (by decide),
      List.getLast?_append_of_ne_nil _ (by decide)] at hlast
    exact absurd hlast (by decide)

end PathText

/-! ## Companions -/

namespace Entry

/-- A visible file that accompanies something. -/
structure IsCompanionFile (e : Entry) : Prop where
  visible : e.isHidden = false
  companion : e.isCompanion = true
  file : e.isDirectory = false

variable {e : Entry}

/-- A companion has the path of something else with a suffix behind it. -/
theorem isCompanion_iff : e.isCompanion = true ↔ ∃ path : String, e.path = path ++ ".meta" := by
  rw [isCompanion, List.isSuffixOf_iff_suffix]
  constructor
  · rintro ⟨front, hfront⟩
    refine ⟨.ofList front, String.toList_injective ?_⟩
    rw [String.toList_append, String.toList_ofList, ← hfront]
    rfl
  · rintro ⟨path, hpath⟩
    exact ⟨path.toList, by rw [hpath, String.toList_append]; rfl⟩

theorem isHidden_classify_companion {target : Target} {isDirectory isDirectory' : Bool}
    {path : String} (hne : PathText.filename path.toList ≠ [])
    (h : (classify target isDirectory path).isHidden = false) :
    (classify target isDirectory' (path ++ ".meta")).isHidden = false := by
  change PathText.isHidden (path ++ ".meta").toList = false
  rw [String.toList_append]
  exact PathText.isHidden_append_companion hne h

end Entry

/-! ## Entries -/

namespace EntrySet

variable {target : Target} {files : List String} {path : String} {e e' : Entry}

theorem mem_ancestorsFrom {front rest : List Char} :
    path ∈ ancestorsFrom front rest ↔
      ∃ before behind, rest = before ++ '/' :: behind ∧
        path = .ofList (front.reverse ++ before) := by
  induction rest generalizing front with
  | nil =>
    constructor
    · exact fun h => absurd h List.not_mem_nil
    · rintro ⟨before, behind, h, -⟩
      exact absurd h.symm (List.append_ne_nil_of_right_ne_nil _ (List.cons_ne_nil _ _))
  | cons c rest ih =>
    have hshift (before : List Char) :
        (c :: front).reverse ++ before = front.reverse ++ c :: before := by
      rw [List.reverse_cons, List.append_assoc]
      rfl
    have hlater : path ∈ ancestorsFrom (c :: front) rest ↔
        ∃ before behind, c :: rest = c :: before ++ '/' :: behind ∧
          path = .ofList (front.reverse ++ c :: before) := by
      simp only [ih, hshift, List.cons_append, List.cons.injEq, true_and]
    -- what stands in front of the slash is nothing, or begins with the same character
    rw [ancestorsFrom]
    constructor
    · intro h
      split at h
      · next hslash =>
        rcases List.mem_cons.1 h with rfl | h
        · exact ⟨[], rest, by rw [hslash]; rfl, by rw [List.append_nil]⟩
        · rcases hlater.1 h with ⟨before, behind, hrest, hpath⟩
          exact ⟨c :: before, behind, hrest, hpath⟩
      · rcases hlater.1 h with ⟨before, behind, hrest, hpath⟩
        exact ⟨c :: before, behind, hrest, hpath⟩
    · rintro ⟨before, behind, hrest, hpath⟩
      cases before with
      | nil =>
        obtain ⟨rfl, rfl⟩ := List.cons.inj hrest
        rw [if_pos rfl, hpath, List.append_nil]
        exact List.mem_cons_self
      | cons d before =>
        obtain ⟨rfl, -⟩ := List.cons.inj hrest
        have hmem := hlater.2 ⟨before, behind, hrest, hpath⟩
        split
        · exact List.mem_cons_of_mem _ hmem
        · exact hmem

/-- A directory around a path is what stands in front of one of its slashes. -/
theorem mem_ancestors_iff {file : String} :
    path ∈ ancestors file ↔ ∃ behind, file.toList = path.toList ++ '/' :: behind := by
  rw [ancestors, mem_ancestorsFrom]
  constructor
  · rintro ⟨before, behind, hfile, rfl⟩
    exact ⟨behind, by rw [hfile, String.toList_ofList]; rfl⟩
  · rintro ⟨behind, hfile⟩
    exact ⟨path.toList, behind, hfile, String.ofList_toList.symm⟩

theorem mem_entries_iff :
    e ∈ (ofFiles target files).entries ↔
      (e.path ∈ files ∨ ∃ file ∈ files, e.path ∈ ancestors file) ∧
        e = .classify target (!files.contains e.path) e.path := by
  rw [ofFiles, List.mem_map]
  simp only [Sorted.mem_ofList, List.mem_append, List.mem_flatMap]
  constructor
  · rintro ⟨path, hpath, rfl⟩
    exact ⟨hpath, rfl⟩
  · rintro ⟨hpath, he⟩
    exact ⟨e.path, hpath, he.symm⟩

/-- What is no directory is one of the files. -/
theorem mem_files_of_file (h : e ∈ (ofFiles target files).entries) (hfile : e.isDirectory = false) :
    e.path ∈ files := by
  rw [(mem_entries_iff.1 h).2] at hfile
  simpa [Entry.classify] using hfile

/-- Entries stand in the order of their paths. -/
theorem entries_ascending (target : Target) (files : List String) :
    ((ofFiles target files).entries.map Entry.path).Pairwise (· < ·) := by
  have hpaths : (ofFiles target files).entries.map Entry.path =
      Sorted.ofList (files ++ files.flatMap ancestors) := by
    rw [ofFiles, List.map_map]
    exact List.map_id _
  rw [hpaths]
  exact Sorted.ofList_ascending _

/-- Each path has one entry. -/
theorem eq_of_path_eq (h : e ∈ (ofFiles target files).entries)
    (h' : e' ∈ (ofFiles target files).entries) (hpath : e.path = e'.path) : e = e' := by
  rw [(mem_entries_iff.1 h).2, (mem_entries_iff.1 h').2, hpath]

theorem get?_eq_some_iff :
    (ofFiles target files).get? path = some e ↔
      e ∈ (ofFiles target files).entries ∧ e.path = path := by
  constructor
  · exact fun h => ⟨List.mem_of_find?_eq_some h, path_of_get? h⟩
  · rintro ⟨hmem, rfl⟩
    have hsome : ((ofFiles target files).get? e.path).isSome = true := by
      rw [get?, List.find?_isSome]
      exact ⟨e, hmem, beq_self_eq_true _⟩
    obtain ⟨found, hfound⟩ := Option.isSome_iff_exists.1 hsome
    rw [hfound, eq_of_path_eq (List.mem_of_find?_eq_some hfound) hmem (path_of_get? hfound)]

/-- What is found under a path, by the path alone. -/
theorem get?_eq_ite :
    (ofFiles target files).get? path =
      if path ∈ files ∨ ∃ file ∈ files, path ∈ ancestors file then
        some (.classify target (!files.contains path) path)
      else none := by
  split
  · next hpath => exact get?_eq_some_iff.2 ⟨mem_entries_iff.2 ⟨hpath, rfl⟩, rfl⟩
  · next hpath =>
    refine Option.eq_none_iff_forall_ne_some.2 fun e he => hpath ?_
    obtain ⟨hmem, rfl⟩ := get?_eq_some_iff.1 he
    exact (mem_entries_iff.1 hmem).1

/-- The entry of a file is that of a file. -/
theorem get?_file (h : path ∈ files) :
    (ofFiles target files).get? path = some (.classify target false path) := by
  rw [get?_eq_ite, if_pos (.inl h), List.contains_iff_mem.2 h]
  rfl

/-- The entries of the files, one for each time that a file is listed. -/
theorem filterMap_get?_files :
    files.filterMap (ofFiles target files).get? = files.map (Entry.classify target false) := by
  rw [← List.filterMap_eq_map]
  exact List.filterMap_congr fun _ hpath => get?_file hpath

theorem contains_iff :
    (ofFiles target files).contains path = true ↔
      ∃ e ∈ (ofFiles target files).entries, e.path = path := by
  rw [contains, Option.isSome_iff_exists]
  exact exists_congr fun e => get?_eq_some_iff

/-- In a package of files with good paths no entry has an empty name. -/
theorem name_ne_nil (hfiles : ∀ path ∈ files, validatePath path = .ok ())
    (h : e ∈ (ofFiles target files).entries) :
    ∀ name ∈ PathText.components e.path.toList, name ≠ [] := by
  have hgood : ∀ file ∈ files, ∀ name ∈ PathText.components file.toList, name ≠ [] := by
    intro file hfile
    have hvalid := hfiles file hfile
    unfold validatePath at hvalid
    split at hvalid
    · cases hvalid
    · next hfault => exact PathText.ne_nil_of_fault? hfault
  rcases (mem_entries_iff.1 h).1 with hfile | ⟨file, hfile, hancestor⟩
  · exact hgood e.path hfile
  · -- the names of a directory are names of the file as well
    rcases mem_ancestors_iff.1 hancestor with ⟨behind, htext⟩
    intro name hname
    refine hgood file hfile name ?_
    rw [htext, PathText.components, List.splitOn_append_cons_self]
    exact List.mem_append_left _ hname

end EntrySet

end PackageAudit
