import Mathlib.Data.List.Perm.Basic
import PackageAudit.Package.EntrySet
import PackageAudit.Package.Memory

/-!
# Proofs.Package.Memory — packages that hold what they were given

* `MemoryPackage.perm_of_ofFiles` — a package holds the files it was made of, each path once;
* `MemoryPackage.get?_eq_some` — the content of a file by its path, and what the package answers
  for that path;
* `Source.Readable` — all files of a package can be used, as in `MemoryPackage.readable`.
-/

namespace PackageAudit

namespace MemoryPackage

variable {p q : MemoryPackage} {path : String} {content : Bytes}

/-! ## Files -/

theorem place_perm (l : List (String × Bytes)) :
    (place path content l).Perm ((path, content) :: l) := by
  induction l with
  | nil => exact .refl _
  | cons file l ih =>
    rw [place]
    split
    · exact .refl _
    · exact (ih.cons file).trans (.swap _ _ _)

/-- A package with one more file, whose path is new. -/
theorem of_insert (h : p.insert path content = .ok q) :
    path ∉ p.files ∧ q.contents.Perm ((path, content) :: p.contents) := by
  unfold insert at h
  cases hpath : validatePath path with
  | error e =>
    rw [hpath] at h
    cases h
  | ok _ =>
    rw [hpath] at h
    change (if (p.get? path).isSome = true then _ else _) = _ at h
    split at h
    · cases h
    next hnew =>
    cases h
    refine ⟨fun hmem => ?_, place_perm p.contents⟩
    have hnone : p.contents.lookup path = none := Option.not_isSome_iff_eq_none.1 hnew
    obtain ⟨file, hfile, rfl⟩ := List.mem_map.1 hmem
    exact absurd (List.lookup_eq_none_iff.1 hnone file hfile) (by simp)

/-- Files that are added one by one are all there in the end, and no path is there twice. -/
theorem of_foldlM {files : List (String × Bytes)}
    (h : files.foldlM (fun p file => p.insert file.1 file.2) p = .ok q) (hp : p.files.Nodup) :
    q.files.Nodup ∧ q.contents.Perm (p.contents ++ files) := by
  induction files generalizing p with
  | nil =>
    cases h
    exact ⟨hp, by rw [List.append_nil]⟩
  | cons file files ih =>
    rw [List.foldlM_cons] at h
    cases hfile : p.insert file.1 file.2 with
    | error e =>
      rw [hfile] at h
      cases h
    | ok p' =>
      rw [hfile] at h
      obtain ⟨hnew, hperm⟩ := of_insert hfile
      have hp' : p'.files.Nodup :=
        ((hperm.map Prod.fst).nodup_iff).2 (List.nodup_cons.2 ⟨hnew, hp⟩)
      obtain ⟨hnodup, hall⟩ := ih h hp'
      refine ⟨hnodup, hall.trans ?_⟩
      exact (hperm.append_right files).trans List.perm_middle.symm

theorem perm_of_ofFiles {files : List (String × Bytes)} (h : ofFiles files = .ok p) :
    p.files.Nodup ∧ p.contents.Perm files :=
  of_foldlM h List.nodup_nil

/-- The content under a path, if each path is there once. -/
theorem get?_eq_some (hp : p.files.Nodup) (h : (path, content) ∈ p.contents) :
    p.get? path = some content := by
  obtain ⟨contents⟩ := p
  change contents.lookup path = some content
  induction contents with
  | nil => cases h
  | cons file rest ih =>
    obtain ⟨hnew, hrest⟩ := List.nodup_cons.1 hp
    rcases List.mem_cons.1 h with rfl | h
    · exact List.lookup_cons_self
    · have hne : (path == file.1) = false := by
        rw [beq_eq_false_iff_ne]
        rintro rfl
        exact hnew (List.mem_map.2 ⟨_, h, rfl⟩)
      rw [List.lookup_cons, hne]
      exact ih hrest h

/-! ## Access -/

section Source

variable (h : p.get? path = some content)
include h

theorem read_eq : p.read path = .ok content := by
  rw [read, h]

theorem source_size : p.source.size path = .ok content.length :=
  congrArg (Except.map List.length) (read_eq h)

theorem source_openFile : p.source.openFile path = .ok (.ofBytes content) :=
  congrArg (Except.map Stream.ofBytes) (read_eq h)

theorem source_readStart (count : Nat) : p.source.readStart path count = .ok (content.take count) :=
  congrArg (Except.map (List.take count)) (read_eq h)

end Source

end MemoryPackage

/-! ## Packages that can be used -/

/-- All files of a package can be used. -/
structure Source.Readable (source : Source) : Prop where
  size : ∀ path ∈ source.files, ∃ size, source.size path = .ok size
  read : ∀ path ∈ source.files, ∃ content, source.read path = .ok content

/-- Files that are held in memory can be used. -/
theorem MemoryPackage.readable (p : MemoryPackage) : p.source.Readable := by
  have hget : ∀ path ∈ p.files, ∃ content, p.get? path = some content := by
    intro path hpath
    rcases List.mem_map.1 hpath with ⟨file, hfile, rfl⟩
    refine Option.ne_none_iff_exists'.1 fun hnone => ?_
    have hother := List.lookup_eq_none_iff.1 hnone file hfile
    simp at hother
  constructor
  · intro path hpath
    rcases hget path hpath with ⟨content, hcontent⟩
    exact ⟨content.length, source_size hcontent⟩
  · intro path hpath
    rcases hget path hpath with ⟨content, hcontent⟩
    exact ⟨content, read_eq hcontent⟩

/-! ## Entries -/

namespace Sorted

theorem mem_distinct {text : String} {texts : List String} :
    text ∈ distinct texts ↔ text ∈ texts := by
  induction texts using distinct.induct with
  | case1 => exact Iff.rfl
  | case2 => exact Iff.rfl
  | case3 a rest ih =>
    rw [distinct, if_pos rfl, ih, List.mem_cons, List.mem_cons, List.mem_cons]
    exact ⟨.inr, fun h => h.elim .inl id⟩
  | case4 a b rest hne ih => rw [distinct, if_neg hne, List.mem_cons, List.mem_cons, ih]

theorem mem_ofList {text : String} {texts : List String} : text ∈ ofList texts ↔ text ∈ texts := by
  rw [ofList, mem_distinct, List.mem_mergeSort]

end Sorted

namespace EntrySet

/-- An entry is found under its own path. -/
theorem path_of_get? {set : EntrySet} {path : String} {e : Entry} (h : set.get? path = some e) :
    e.path = path := by
  have hpath : (e.path == path) = true :=
    List.find?_some (p := fun e : Entry => e.path == path) h
  exact beq_iff_eq.1 hpath

end EntrySet

end PackageAudit
