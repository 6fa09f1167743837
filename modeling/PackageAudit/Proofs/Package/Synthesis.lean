import Mathlib.Data.List.Induction
import Mathlib.Data.List.Sort
import PackageAudit.Proofs.Package.Entries

/-!
# Proofs.Package.Synthesis — the directories around the files of a package

A package lists files only, in any order and perhaps more than once. Its entries are those files
and the directories around them. One way to come by them is to write down what each file says: that
its own path is a file, and that the paths in front of its slashes are directories. Many files say
something about one path, so what is written there is written over or kept:

* `IsAbove` — a path stands in front of a slash of another one;
* `Kinds.ofFiles` — what is written down after file by file;
* `EntrySet.Surrounds` — the entries of a package, said without any order of its files;
* `EntrySet.Surrounds.eq` — this leaves no choice;
* `EntrySet.ofFiles_surrounds` — the entries are these, by either way and for any order.
-/

namespace PackageAudit

/-- A path stands in front of a slash of another one. -/
def IsAbove (path file : String) : Prop :=
  ∃ behind : String, file = path ++ "/" ++ behind

namespace EntrySet

theorem mem_ancestors {path file : String} : path ∈ ancestors file ↔ IsAbove path file := by
  rw [mem_ancestors_iff]
  constructor
  · rintro ⟨behind, hfile⟩
    refine ⟨.ofList behind, String.toList_injective ?_⟩
    simp only [hfile, String.toList_append, String.toList_ofList, List.append_assoc]
    rfl
  · rintro ⟨behind, rfl⟩
    refine ⟨behind.toList, ?_⟩
    rw [String.toList_append, String.toList_append]
    exact List.append_assoc ..

end EntrySet

/-! ## File by file -/

/-- What is known about paths: whether each of them is a directory. -/
abbrev Kinds := Std.TreeMap String Bool

namespace Kinds

variable {kinds : Kinds} {paths files : List String} {path file : String}

/-- Note directories, except where something is known already. -/
def addDirectories (kinds : Kinds) (paths : List String) : Kinds :=
  paths.foldl (fun kinds path => kinds.insertIfNew path true) kinds

/-- Note a file, whatever is known about its path, and the directories around it. -/
def addFile (kinds : Kinds) (file : String) : Kinds :=
  addDirectories (kinds.insert file false) (EntrySet.ancestors file)

/-- Note one file after the other. -/
def ofFiles (files : List String) : Kinds :=
  files.foldl addFile ∅

/-- The entries that are known. -/
def entries (target : Target) (kinds : Kinds) : EntrySet :=
  ⟨kinds.toList.map fun (path, isDirectory) => .classify target isDirectory path⟩

theorem getElem?_addDirectories :
    (addDirectories kinds paths)[path]? =
      kinds[path]?.or (if path ∈ paths then some true else none) := by
  induction paths generalizing kinds with
  | nil => exact (Option.or_none).symm
  | cons first rest ih =>
    -- the first path is new or not, and the path in question or not
    rw [addDirectories, List.foldl_cons]
    refine ih.trans ?_
    simp only [Std.TreeMap.getElem?_insertIfNew, Std.compare_eq_iff_eq, List.mem_cons]
    by_cases hfirst : first = path
    · subst hfirst
      cases hknown : kinds[first]? with
      | none =>
        have hnew : first ∉ kinds := by rw [Std.TreeMap.mem_iff_isSome_getElem?, hknown]; simp
        simp [hnew]
      | some kind =>
        have hold : first ∈ kinds := by rw [Std.TreeMap.mem_iff_isSome_getElem?, hknown]; rfl
        simp [hold]
    · simp [hfirst, Ne.symm hfirst]

/-- A file is one from then on, and nothing else that is known changes. -/
theorem getElem?_addFile :
    (addFile kinds file)[path]? =
      if path = file then some false
      else kinds[path]?.or (if path ∈ EntrySet.ancestors file then some true else none) := by
  simp only [addFile, getElem?_addDirectories, Std.TreeMap.getElem?_insert, Std.compare_eq_iff_eq]
  by_cases hfile : path = file
  · subst hfile
    simp
  · rw [if_neg (Ne.symm hfile), if_neg hfile]

/--
In the end a path is a file if it is one of them, and else a directory if it is around one of them,
whichever of them comes last.
-/
theorem getElem?_ofFiles :
    (ofFiles files)[path]? =
      if path ∈ files then some false
      else if ∃ file ∈ files, path ∈ EntrySet.ancestors file then some true
      else none := by
  induction files using List.reverseRecOn with
  | nil => simp [ofFiles]
  | append_singleton files last ih =>
    have hlast : ofFiles (files ++ [last]) = addFile (ofFiles files) last := by
      rw [ofFiles, List.foldl_append]
      rfl
    rw [hlast, getElem?_addFile, ih]
    by_cases hpath : path = last
    · simp [hpath]
    · by_cases hfile : path ∈ files
      · simp [hpath, hfile]
      · by_cases habove : ∃ file ∈ files, path ∈ EntrySet.ancestors file <;>
          simp [hpath, hfile, habove, or_and_right, exists_or]

end Kinds

/-! ## All at once -/

namespace EntrySet

variable {target : Target} {files files' : List String} {set set' : EntrySet}

/-- Entries are the files of a list and the directories around them. -/
structure Surrounds (set : EntrySet) (target : Target) (files : List String) : Prop where
  ascending : (set.entries.map Entry.path).Pairwise (· < ·)
  mem_iff : ∀ path, (∃ e ∈ set.entries, e.path = path) ↔
    path ∈ files ∨ ∃ file ∈ files, IsAbove path file
  /-- A path that is a file and around a file counts as the file. -/
  isDirectory_iff : ∀ e ∈ set.entries, e.isDirectory = true ↔ e.path ∉ files
  classified : ∀ e ∈ set.entries, e = .classify target e.isDirectory e.path

namespace Surrounds

/-- Nothing but the set of the files matters. -/
theorem congr (h : set.Surrounds target files) (hsame : ∀ path, path ∈ files ↔ path ∈ files') :
    set.Surrounds target files' where
  ascending := h.ascending
  mem_iff path := by
    rw [h.mem_iff, hsame]
    exact or_congr_right (exists_congr fun file => and_congr_left fun _ => hsame file)
  isDirectory_iff e he := (h.isDirectory_iff e he).trans (not_congr (hsame e.path))
  classified := h.classified

/-- An entry is what its path says, and whether this is a file. -/
theorem eq_classify (h : set.Surrounds target files) {e : Entry} (he : e ∈ set.entries) :
    e = .classify target (!files.contains e.path) e.path := by
  have hkind : e.isDirectory = !files.contains e.path := by
    rw [Bool.eq_iff_iff, h.isDirectory_iff e he]
    simp
  rw [← hkind]
  exact h.classified e he

/-- The order of the paths is that of their bytes. -/
theorem ascending_bytes (h : set.Surrounds target files) :
    (set.entries.map fun e => textBytes e.path).Pairwise (· < ·) := by
  have hpaths := List.pairwise_map.1 h.ascending
  exact List.pairwise_map.2 (hpaths.imp textBytes_lt_iff.2)

/-- There is only one such set of entries. -/
theorem eq (h : set.Surrounds target files) (h' : set'.Surrounds target files) : set = set' := by
  have hpaths : set.entries.map Entry.path = set'.entries.map Entry.path := by
    refine h.ascending.eq_of_mem_iff h'.ascending fun path => ?_
    rw [List.mem_map, List.mem_map, h.mem_iff, h'.mem_iff]
  -- the paths say everything else
  have hentries {set : EntrySet} (h : set.Surrounds target files) :
      (set.entries.map Entry.path).map (fun path => .classify target (!files.contains path) path) =
        set.entries := by
    rw [List.map_map]
    exact (List.map_congr_left fun e he => (h.eq_classify he).symm).trans (List.map_id _)
  have hsame : set.entries = set'.entries := by rw [← hentries h, hpaths, hentries h']
  cases set
  cases set'
  exact congrArg EntrySet.mk hsame

end Surrounds

theorem surrounds_ofFiles (target : Target) (files : List String) :
    (ofFiles target files).Surrounds target files where
  ascending := entries_ascending target files
  mem_iff path := by
    simp only [← mem_ancestors]
    constructor
    · rintro ⟨e, he, rfl⟩
      exact (mem_entries_iff.1 he).1
    · intro hpath
      exact ⟨.classify target (!files.contains path) path, mem_entries_iff.2 ⟨hpath, rfl⟩, rfl⟩
  isDirectory_iff e he := by
    rw [(mem_entries_iff.1 he).2]
    simp [Entry.classify]
  classified e he := by
    rw [(mem_entries_iff.1 he).2]
    rfl

theorem surrounds_kinds (target : Target) (files : List String) :
    (Kinds.entries target (Kinds.ofFiles files)).Surrounds target files := by
  have hmem {e : Entry} (he : e ∈ (Kinds.entries target (Kinds.ofFiles files)).entries) :
      (Kinds.ofFiles files)[e.path]? = some e.isDirectory ∧
        e = .classify target e.isDirectory e.path := by
    obtain ⟨⟨path, isDirectory⟩, hkind, rfl⟩ := List.mem_map.1 he
    exact ⟨Std.TreeMap.mem_toList_iff_getElem?_eq_some.1 hkind, rfl⟩
  constructor
  · have hordered := Std.TreeMap.ordered_keys_toList (t := Kinds.ofFiles files)
    rw [Kinds.entries, List.map_map, List.pairwise_map]
    exact hordered.imp compare_lt_iff_lt.1
  · intro path
    simp only [← mem_ancestors]
    constructor
    · rintro ⟨e, he, rfl⟩
      have hknown := (hmem he).1
      rw [Kinds.getElem?_ofFiles] at hknown
      split_ifs at hknown with hfile habove
      · exact .inl hfile
      · exact .inr habove
    · intro hpath
      have hknown : ∃ kind, (Kinds.ofFiles files)[path]? = some kind := by
        rw [Kinds.getElem?_ofFiles]
        split_ifs with hfile habove
        · exact ⟨false, rfl⟩
        · exact ⟨true, rfl⟩
        · exact absurd hpath (not_or.2 ⟨hfile, habove⟩)
      obtain ⟨kind, hkind⟩ := hknown
      have hnoted := Std.TreeMap.mem_toList_iff_getElem?_eq_some.2 hkind
      exact ⟨.classify target kind path, List.mem_map.2 ⟨(path, kind), hnoted, rfl⟩, rfl⟩
  · intro e he
    have hknown := (hmem he).1
    rw [Kinds.getElem?_ofFiles] at hknown
    split_ifs at hknown with hfile habove
    · simp [← Option.some.inj hknown, hfile]
    · simp [← Option.some.inj hknown, hfile]
  · exact fun e he => (hmem he).2

/-- To note one file after the other comes to the entries of the files. -/
theorem kinds_eq (target : Target) (files : List String) :
    Kinds.entries target (Kinds.ofFiles files) = ofFiles target files :=
  (surrounds_kinds target files).eq (surrounds_ofFiles target files)

/--
The entries of a list of files are the files and the directories around them, and they are found by
their paths. Neither the order of the files nor their number matters, and to note one file after the
other comes to the same.
-/
theorem ofFiles_surrounds (target : Target) {files files' : List String}
    (hsame : ∀ path, path ∈ files ↔ path ∈ files') :
    (ofFiles target files).Surrounds target files ∧
      ((ofFiles target files).entries.map fun e => textBytes e.path).Pairwise (· < ·) ∧
      (∀ path e, (ofFiles target files).get? path = some e ↔
        e ∈ (ofFiles target files).entries ∧ e.path = path) ∧
      (∀ path, (ofFiles target files).contains path = true ↔
        path ∈ files ∨ ∃ file ∈ files, IsAbove path file) ∧
      ofFiles target files' = ofFiles target files ∧
      Kinds.entries target (Kinds.ofFiles files) = ofFiles target files := by
  have hsurrounds := surrounds_ofFiles target files
  refine ⟨hsurrounds, hsurrounds.ascending_bytes, ?_, ?_, ?_, kinds_eq target files⟩
  · intro path e
    exact get?_eq_some_iff
  · intro path
    rw [contains_iff, hsurrounds.mem_iff]
  · exact (surrounds_ofFiles target files').eq (hsurrounds.congr hsame)

/-- A path before a slash at the front, a file around a file, and a file that is listed twice. -/
theorem ofFiles_surrounds_malformed :
    let files := ["a/b/c", "a/b", "/x", "a/b/c"]
    let files' := ["/x", "a/b", "a/b/c"]
    (∀ path, path ∈ files ↔ path ∈ files') ∧ ofFiles ⟨none⟩ files' = ofFiles ⟨none⟩ files ∧
      (ofFiles ⟨none⟩ files).entries.map (fun e => (e.path, e.isDirectory)) =
        [("", true), ("/x", false), ("a", true), ("a/b", false), ("a/b/c", false)] := by
  intro files files'
  have hsame : ∀ path, path ∈ files ↔ path ∈ files' := by
    intro path
    simp only [files, files', List.mem_cons, List.not_mem_nil, or_false]
    tauto
  obtain ⟨-, -, -, -, hcongr, hkinds⟩ := ofFiles_surrounds ⟨none⟩ hsame
  refine ⟨hsame, hcongr, ?_⟩
  rw [← hkinds]
  decide +kernel

end EntrySet

end PackageAudit
