import Mathlib
import PackageAudit.Proofs.Basic
import PackageAudit.Proofs.Package.Memory

/-!
# Proofs.Package.Insertion — packages that files are put into one by one

A package in memory can be kept in two parts, the contents under their paths and the paths in order,
and be changed in place. Both parts stay in step along any calls, whether or not they go well, and
whoever has access to the files finds the package that `MemoryPackage.insert` makes:

* `Source.isListed_iff` — halving an ascending list finds exactly its members;
* `Shelf.insert` — a file is put in, in place; `Shelf.put_cases` says how that can go;
* `Shelf.Agrees.put`, `Shelf.Agrees.source` — either package answers and changes as the other does;
* `Shelf.Holds.put` — one more call, after any others;
* `MemoryPackage.holds_of_putAll` — what is there after any calls in any order.
-/

namespace PackageAudit

/-! ## Halving -/

namespace Source

/-- Look for a path between two positions of a list by halving what is between them. -/
def isListedFrom (files : List String) (path : String) (low high : Nat) : Bool :=
  if low < high then
    let middle := (low + high) / 2
    match files[middle]? with
    | none => false
    | some other =>
      if other = path then true
      else if other < path then isListedFrom files path (middle + 1) high
      else isListedFrom files path low middle
  else false
termination_by high - low

/-- Whether a path is in a list whose paths ascend. -/
def isListed (files : List String) (path : String) : Bool :=
  isListedFrom files path 0 files.length

variable {files : List String} {path : String} {low high : Nat}

/-- In an ascending list paths are ordered as their positions are. -/
theorem lt_iff_of_getElem? {i j : Nat} {first second : String} (h : files.Pairwise (· < ·))
    (hi : files[i]? = some first) (hj : files[j]? = some second) : first < second ↔ i < j := by
  obtain ⟨hi', rfl⟩ := List.getElem?_eq_some_iff.1 hi
  obtain ⟨hj', rfl⟩ := List.getElem?_eq_some_iff.1 hj
  rw [List.pairwise_iff_getElem] at h
  refine ⟨fun hlt => ?_, h i j hi' hj'⟩
  by_contra hge
  rcases Nat.lt_or_eq_of_le (Nat.le_of_not_lt hge) with hji | rfl
  · exact lt_asymm hlt (h j i hj' hi' hji)
  · exact lt_irrefl _ hlt

/-- What is between two positions is found by halving. -/
theorem isListedFrom_iff (h : files.Pairwise (· < ·)) (hhigh : high ≤ files.length) :
    isListedFrom files path low high = true ↔
      ∃ i, low ≤ i ∧ i < high ∧ files[i]? = some path := by
  -- Along the halving: the path is not on the side that is left.
  fun_induction isListedFrom files path low high with
  | case1 low high hlow middle hnone =>
    have := List.getElem?_eq_none_iff.1 hnone
    omega
  | case2 low high hlow middle hother =>
    exact iff_of_true rfl ⟨middle, by omega, by omega, hother⟩
  | case3 low high hlow middle other hother hne hless ih =>
    refine (ih hhigh).trans ⟨?_, ?_⟩
    · rintro ⟨i, hi, hi', hpath⟩
      exact ⟨i, by omega, hi', hpath⟩
    · rintro ⟨i, hi, hi', hpath⟩
      exact ⟨i, (lt_iff_of_getElem? h hother hpath).1 hless, hi', hpath⟩
  | case4 low high hlow middle other hother hne hless ih =>
    refine (ih (by omega)).trans ⟨?_, ?_⟩
    · rintro ⟨i, hi, hi', hpath⟩
      exact ⟨i, hi, by omega, hpath⟩
    · rintro ⟨i, hi, hi', hpath⟩
      have hgreater : path < other := lt_of_le_of_ne (not_lt.1 hless) (Ne.symm hne)
      exact ⟨i, hi, (lt_iff_of_getElem? h hpath hother).1 hgreater, hpath⟩
  | case5 low high hge =>
    refine iff_of_false Bool.false_ne_true ?_
    rintro ⟨i, hi, hi', -⟩
    omega

theorem isListed_iff (h : files.Pairwise (· < ·)) : isListed files path = true ↔ path ∈ files := by
  rw [isListed, isListedFrom_iff h (Nat.le_refl _), List.mem_iff_getElem?]
  constructor
  · rintro ⟨i, -, -, hpath⟩
    exact ⟨i, hpath⟩
  · rintro ⟨i, hpath⟩
    exact ⟨i, Nat.zero_le i, (List.getElem?_eq_some_iff.1 hpath).1, hpath⟩

end Source

/-! ## Calls -/

/-- A file that is put into a package, and the answer. -/
abbrev Answered := (String × Bytes) × Except PackageError Unit

section Calls

variable {σ : Type} (put : σ → String × Bytes → Except PackageError Unit × σ) (start : σ)
  (files : List (String × Bytes))

/-- Put in one file after the other, each into what is there after those before it. -/
def putAll : List Answered × σ :=
  files.foldl (fun done file =>
    let (answer, after) := put done.2 file
    (done.1 ++ [(file, answer)], after)) ([], start)

theorem putAll_concat (file : String × Bytes) :
    putAll put start (files ++ [file]) =
      ((putAll put start files).1 ++ [(file, (put (putAll put start files).2 file).1)],
        (put (putAll put start files).2 file).2) := by
  rw [putAll, List.foldl_append]
  rfl

/-- Each call is answered. -/
theorem fst_putAll : (putAll put start files).1.map Prod.fst = files := by
  induction files using List.reverseRecOn with
  | nil => rfl
  | append_singleton files file ih =>
    rw [putAll_concat, List.map_append, ih]
    rfl

end Calls

/-- What a call comes to: an error leaves the package as it was. -/
def MemoryPackage.put (p : MemoryPackage) (file : String × Bytes) :
    Except PackageError Unit × MemoryPackage :=
  match p.insert file.1 file.2 with
  | .ok after => (.ok (), after)
  | .error fault => (.error fault, p)

/-! ## In place -/

/--
A package that changes in place: contents under their paths, and the paths in a list of their own.
-/
structure Shelf where
  contents : Std.TreeMap String Bytes
  files : List String

namespace Shelf

def empty : Shelf := ⟨∅, []⟩

/-- Add a file: first to the contents, then to the list. What changes before an error stays. -/
def insert (path : String) (content : Bytes) : ExceptT PackageError (StateM Shelf) Unit := do
  ExceptT.mk (pure (validatePath path))
  if (← get).contents.contains path then throw (.duplicatePath path)
  modify fun s => { s with contents := s.contents.insert path content }
  modify fun s => { s with files := s.contents.keys }

def put (s : Shelf) (file : String × Bytes) : Except PackageError Unit × Shelf :=
  (insert file.1 file.2).run.run s

/-- The content of a file. -/
def read (s : Shelf) (path : String) : Except PackageError Bytes :=
  match s.contents[path]? with
  | some content => .ok content
  | none => .error (.fileNotFound path)

/-- Access to the files: the list is read, and the contents are looked up. -/
def source (s : Shelf) : Source where
  files := s.files
  contains path := s.contents.contains path
  read := s.read
  openFile path := (s.read path).map Stream.ofBytes
  size path := (s.read path).map List.length
  readStart path count :=
    (s.read path).map fun content => content.take (min content.length count)

variable {s : Shelf} {p : MemoryPackage} {path : String} {content : Bytes}

/-- With a valid path all depends on whether it is there. -/
theorem put_of_valid (hpath : validatePath path = .ok ()) (s : Shelf) (content : Bytes) :
    s.put (path, content) =
      if s.contents.contains path = true then (.error (.duplicatePath path), s)
      else (.ok (), ⟨s.contents.insert path content, (s.contents.insert path content).keys⟩) := by
  simp only [put, insert, hpath]
  change (if s.contents.contains path = true then _ else _ :
    ExceptT PackageError (StateM Shelf) Unit) s = _
  split <;> rfl

/-- The three ways that adding a file can go. -/
theorem put_cases (s : Shelf) (path : String) (content : Bytes) :
    (∃ fault, validatePath path = .error fault ∧ s.put (path, content) = (.error fault, s)) ∨
    (validatePath path = .ok () ∧ path ∈ s.contents ∧
      s.put (path, content) = (.error (.duplicatePath path), s)) ∨
    (validatePath path = .ok () ∧ path ∉ s.contents ∧
      s.put (path, content) = (.ok (), ⟨s.contents.insert path content,
        (s.contents.insert path content).keys⟩)) := by
  cases hpath : validatePath path with
  | error fault =>
    refine .inl ⟨fault, rfl, ?_⟩
    simp only [put, insert, hpath]
    rfl
  | ok _ =>
    by_cases hold : path ∈ s.contents
    · exact .inr (.inl ⟨rfl, hold, (put_of_valid hpath s content).trans (if_pos hold)⟩)
    · exact .inr (.inr ⟨rfl, hold, (put_of_valid hpath s content).trans (if_neg hold)⟩)

/-- A call that fails leaves everything as it was. -/
theorem of_put_error {s' : Shelf} {file : String × Bytes} {fault : PackageError}
    (h : s.put file = (.error fault, s')) :
    s' = s ∧ (validatePath file.1 = .error fault ∨
      file.1 ∈ s.contents ∧ fault = .duplicatePath file.1) := by
  rcases put_cases s file.1 file.2 with ⟨_, hpath, hput⟩ | ⟨-, hold, hput⟩ | ⟨-, -, hput⟩
  · cases h.symm.trans hput
    exact ⟨rfl, .inl hpath⟩
  · cases h.symm.trans hput
    exact ⟨rfl, .inr ⟨hold, rfl⟩⟩
  · cases h.symm.trans hput

/-! ## The same package as a list -/

/-- A shelf holds the contents of a package, and lists its files. -/
structure Agrees (s : Shelf) (p : MemoryPackage) : Prop where
  contents : s.contents.toList = p.contents
  files : s.files = p.files

theorem ascending_toList (t : Std.TreeMap String Bytes) :
    t.toList.Pairwise fun file other => file.1 < other.1 :=
  Std.TreeMap.ordered_keys_toList.imp compare_lt_iff_lt.1

theorem place_ascending {files : List (String × Bytes)} (hnew : path ∉ files.map Prod.fst)
    (h : files.Pairwise fun file other => file.1 < other.1) :
    (MemoryPackage.place path content files).Pairwise fun file other => file.1 < other.1 := by
  induction files with
  | nil => exact List.pairwise_singleton _ _
  | cons file rest ih =>
    obtain ⟨hne, hrest⟩ := not_or.1 (List.mem_cons.not.1 hnew)
    obtain ⟨hfirst, hascending⟩ := List.pairwise_cons.1 h
    rw [MemoryPackage.place]
    split
    · next hless =>
      refine List.pairwise_cons.2 ⟨?_, h⟩
      exact List.forall_mem_cons.2 ⟨hless, fun other hother => hless.trans (hfirst other hother)⟩
    · next hge =>
      have hgreater : file.1 < path := lt_of_le_of_ne (not_lt.1 hge) (Ne.symm hne)
      refine List.pairwise_cons.2 ⟨fun other hother => ?_, ih hrest hascending⟩
      rcases List.mem_cons.1 ((MemoryPackage.place_perm rest).mem_iff.1 hother) with rfl | hother
      · exact hgreater
      · exact hfirst other hother

/-- Ascending files with the same members are the same. -/
theorem eq_of_ascending {files files' : List (String × Bytes)}
    (h : files.Pairwise fun file other => file.1 < other.1)
    (h' : files'.Pairwise fun file other => file.1 < other.1)
    (hmem : ∀ file, file ∈ files ↔ file ∈ files') : files = files' := by
  have hperm : files.Perm files' :=
    (List.perm_ext_iff_of_nodup (h.imp fun hlt heq => hlt.ne (congrArg Prod.fst heq))
      (h'.imp fun hlt heq => hlt.ne (congrArg Prod.fst heq))).2 hmem
  exact hperm.eq_of_pairwise (fun _ _ _ _ hlt hgt => absurd hgt (lt_asymm hlt)) h h'

theorem getElem?_insert (t : Std.TreeMap String Bytes) (other : String) :
    (t.insert path content)[other]? = if other = path then some content else t[other]? := by
  simp only [Std.TreeMap.getElem?_insert, Std.compare_eq_iff_eq, @eq_comm _ path]

/-- A content that is put in its place in the list is put into the contents. -/
theorem place_toList {t : Std.TreeMap String Bytes} (hnew : path ∉ t) :
    MemoryPackage.place path content t.toList = (t.insert path content).toList := by
  have hlist : path ∉ t.toList.map Prod.fst := by
    rwa [Std.TreeMap.map_fst_toList_eq_keys, Std.TreeMap.mem_keys]
  refine eq_of_ascending (place_ascending hlist (ascending_toList t)) (ascending_toList _) ?_
  rintro ⟨other, content'⟩
  rw [(MemoryPackage.place_perm _).mem_iff, List.mem_cons, Prod.mk.injEq,
    Std.TreeMap.mem_toList_iff_getElem?_eq_some, Std.TreeMap.mem_toList_iff_getElem?_eq_some,
    getElem?_insert]
  by_cases heq : other = path
  · subst heq
    simp [Std.TreeMap.getElem?_eq_none hnew, eq_comm]
  · simp [heq]

theorem Agrees.get? (h : Agrees s p) (path : String) : p.get? path = s.contents[path]? := by
  have hnodup : (p.contents.map Prod.fst).Nodup := by
    rw [← h.contents]
    exact (List.pairwise_map.2 (ascending_toList s.contents)).imp ne_of_lt
  refine Option.ext fun content => ?_
  rw [MemoryPackage.get?, Lookup.lookup_eq_some_iff_mem hnodup, ← h.contents,
    Std.TreeMap.mem_toList_iff_getElem?_eq_some]

theorem Agrees.put (h : Agrees s p) (file : String × Bytes) :
    (s.put file).1 = (p.put file).1 ∧ Agrees (s.put file).2 (p.put file).2 := by
  obtain ⟨path, content⟩ := file
  have hget := h.get? path
  rcases put_cases s path content with ⟨fault, hpath, hput⟩ | ⟨hpath, hold, hput⟩ |
    ⟨hpath, hnew, hput⟩
  · have hinsert : p.insert path content = .error fault := by
      rw [MemoryPackage.insert, hpath]
      rfl
    rw [hput, MemoryPackage.put, hinsert]
    exact ⟨rfl, h⟩
  · have hinsert : p.insert path content = .error (.duplicatePath path) := by
      rw [MemoryPackage.insert, hpath, hget, Std.TreeMap.mem_iff_isSome_getElem?.1 hold]
      rfl
    rw [hput, MemoryPackage.put, hinsert]
    exact ⟨rfl, h⟩
  · have hinsert : p.insert path content =
        .ok ⟨MemoryPackage.place path content p.contents⟩ := by
      rw [MemoryPackage.insert, hpath, hget, Std.TreeMap.getElem?_eq_none hnew]
      rfl
    rw [hput, MemoryPackage.put, hinsert]
    have hcontents : (s.contents.insert path content).toList =
        MemoryPackage.place path content p.contents := by
      rw [← h.contents, place_toList hnew]
    refine ⟨rfl, hcontents, ?_⟩
    change _ = (MemoryPackage.place path content p.contents).map Prod.fst
    rw [← hcontents, Std.TreeMap.map_fst_toList_eq_keys]

theorem take_min_length (content : Bytes) (count : Nat) :
    content.take (min content.length count) = content.take count := by
  rw [List.take_eq_take_iff]
  omega

/-- Whoever has access to the files cannot tell the two apart. -/
theorem Agrees.source (h : Agrees s p) : s.source = p.source := by
  have hread : s.read = p.read := by
    funext path
    cases hfound : s.contents[path]? <;>
      simp only [Shelf.read, MemoryPackage.read, h.get?, hfound]
  have hcontains (path : String) : s.contents.contains path = (p.get? path).isSome := by
    rw [h.get?, Std.TreeMap.isSome_getElem?_eq_contains]
  simp only [Shelf.source, MemoryPackage.source, hread, hcontains, h.files, take_min_length]

/-! ## Any calls -/

/-- What a shelf holds after calls: for each path the content of the call that went well. -/
structure Holds (told : List Answered) (s : Shelf) : Prop where
  listed : s.files = s.contents.keys
  put_iff : ∀ path content, s.contents[path]? = some content ↔ ((path, content), .ok ()) ∈ told
  first_iff : ∀ path content, s.contents[path]? = some content ↔
    validatePath path = .ok () ∧ (told.map Prod.fst).lookup path = some content

variable {told : List Answered}

/-- Another call goes well if its path is valid and none before it has that path. -/
theorem Holds.put (h : Holds told s) (file : String × Bytes) :
    Holds (told ++ [(file, (s.put file).1)]) (s.put file).2 := by
  obtain ⟨path, content⟩ := file
  have hlookup (other : String) :
      ((told.map Prod.fst) ++ [(path, content)]).lookup other =
        ((told.map Prod.fst).lookup other).or (if other = path then some content else none) := by
    rw [List.lookup_append, Lookup.lookup_cons_eq]
    rfl
  rcases put_cases s path content with ⟨fault, hpath, hput⟩ | ⟨hpath, hold, hput⟩ |
    ⟨hpath, hnew, hput⟩
  · rw [hput]
    refine ⟨h.listed, fun other content' => ?_, fun other content' => ?_⟩
    · simp [h.put_iff]
    · -- No file has a path that is not valid.
      rw [h.first_iff, List.map_append, List.map_singleton, hlookup]
      refine and_congr_right fun hvalid => ?_
      have hne : other ≠ path := by
        rintro rfl
        cases hvalid.symm.trans hpath
      rw [if_neg hne, Option.or_none]
  · obtain ⟨before, hbefore⟩ :=
      Option.isSome_iff_exists.1 (Std.TreeMap.mem_iff_isSome_getElem?.1 hold)
    rw [hput]
    refine ⟨h.listed, fun other content' => ?_, fun other content' => ?_⟩
    · simp [h.put_iff]
    · -- The content that came first is still the first one.
      rw [h.first_iff, List.map_append, List.map_singleton, hlookup]
      refine and_congr_right fun _ => ?_
      by_cases heq : other = path
      · subst heq
        rw [((h.first_iff other before).1 hbefore).2, Option.some_or]
      · rw [if_neg heq, Option.or_none]
  · have hnone : s.contents[path]? = none := Std.TreeMap.getElem?_eq_none hnew
    rw [hput]
    refine ⟨rfl, fun other content' => ?_, fun other content' => ?_⟩
    · rw [getElem?_insert, List.mem_append, ← h.put_iff]
      by_cases heq : other = path
      · subst heq
        simp [hnone, eq_comm]
      · simp [heq]
    · rw [getElem?_insert, List.map_append, List.map_singleton, hlookup]
      by_cases heq : other = path
      · -- No call before this one had the path, or the path would be there.
        subst heq
        have hfirst : (told.map Prod.fst).lookup other = none :=
          Option.eq_none_iff_forall_ne_some.2 fun before hbefore =>
            absurd (hnone.symm.trans ((h.first_iff other before).2 ⟨hpath, hbefore⟩)) nofun
        simp [hpath, hfirst]
      · simp [heq, h.first_iff]

/-- Along any calls a shelf and a package give the same answers, and stay the same. -/
theorem putAll_agrees (files : List (String × Bytes)) :
    ∃ told s p, putAll put empty files = (told, s) ∧
      putAll MemoryPackage.put .empty files = (told, p) ∧ Agrees s p ∧ Holds told s := by
  -- On the calls, the last one at the end: each step keeps both.
  induction files using List.reverseRecOn with
  | nil =>
    refine ⟨[], empty, .empty, rfl, rfl, ⟨rfl, rfl⟩, rfl, fun path content => ?_,
      fun path content => ?_⟩
    · simp [empty]
    · simp [empty]
  | append_singleton files file ih =>
    obtain ⟨told, s, p, hshelf, hpackage, hagrees, hholds⟩ := ih
    obtain ⟨hanswer, hafter⟩ := hagrees.put file
    refine ⟨told ++ [(file, (s.put file).1)], (s.put file).2, (p.put file).2, ?_, ?_, hafter,
      hholds.put file⟩
    · rw [putAll_concat, hshelf]
    · rw [putAll_concat, hpackage, hanswer]

end Shelf

/-! ## Access -/

/-- What a package answers after calls: it holds the files that were put into it. -/
structure Source.Holds (source : Source) (told : List Answered) : Prop where
  ascending : source.files.Pairwise (· < ·)
  mem_files : ∀ path, path ∈ source.files ↔ ∃ content, ((path, content), .ok ()) ∈ told
  valid : ∀ path ∈ source.files, validatePath path = .ok ()
  contains : ∀ path, source.contains path = Source.isListed source.files path
  read : ∀ path content, source.read path = .ok content ↔ ((path, content), .ok ()) ∈ told
  size : ∀ path, source.size path = (source.read path).map List.length
  readStart : ∀ path count, source.readStart path count =
    (source.read path).map fun content => content.take (min count content.length)
  startThrough : ∀ path count, source.readStart path count =
    Source.startThrough source.openFile path count
  openFile : ∀ path, (do Source.failed path (← source.openFile path).readAll) = source.read path

namespace Shelf

variable {s : Shelf} {told : List Answered}

theorem read_eq_ok_iff {path : String} {content : Bytes} :
    s.read path = .ok content ↔ s.contents[path]? = some content := by
  rw [read]
  cases s.contents[path]? <;> simp

theorem Holds.ascending (h : Holds told s) : s.files.Pairwise (· < ·) := by
  rw [h.listed]
  exact Std.TreeMap.ordered_keys.imp compare_lt_iff_lt.1

theorem Holds.mem_files_iff (h : Holds told s) {path : String} :
    path ∈ s.files ↔ ∃ content, s.contents[path]? = some content := by
  rw [h.listed, Std.TreeMap.mem_keys, Std.TreeMap.mem_iff_isSome_getElem?,
    Option.isSome_iff_exists]

/-- A stream that reaches the end of its file yields as many bytes as are asked for. -/
theorem readStart_ofBytes (content : Bytes) (count : Nat) :
    (Stream.ofBytes content).readStart count = .ok (content.take count) := by
  rw [Stream.readStart]
  split <;> rfl

theorem Holds.source (h : Holds told s) : s.source.Holds told where
  ascending := h.ascending
  mem_files path := by
    rw [← exists_congr fun content => h.put_iff path content]
    exact h.mem_files_iff
  valid path hpath := by
    obtain ⟨content, hcontent⟩ := h.mem_files_iff.1 hpath
    exact ((h.first_iff path content).1 hcontent).1
  contains path := by
    have hmem : path ∈ s.contents ↔ path ∈ s.files := by rw [h.listed, Std.TreeMap.mem_keys]
    exact Bool.eq_iff_iff.2 (hmem.trans (Source.isListed_iff h.ascending).symm)
  read path content := read_eq_ok_iff.trans (h.put_iff path content)
  size path := rfl
  readStart path count := by
    simp only [Nat.min_comm count]
    rfl
  startThrough path count := by
    change (s.read path).map _ = ((s.read path).map Stream.ofBytes >>= _)
    cases s.read path with
    | error fault => rfl
    | ok content =>
      change Except.ok (content.take (min content.length count)) =
        Source.failed path ((Stream.ofBytes content).readStart count)
      rw [readStart_ofBytes, take_min_length]
      rfl
  openFile path := by
    change ((s.read path).map Stream.ofBytes >>= _) = s.read path
    cases s.read path <;> rfl

end Shelf

/-! ## Any files in any order -/

namespace MemoryPackage

/-- Packages that hold the same contents are equal. -/
theorem eq_of_agrees {s s' : Shelf} {p p' : MemoryPackage} (h : s.Agrees p) (h' : s'.Agrees p')
    (hsame : ∀ (path : String) (content : Bytes),
      s.contents[path]? = some content ↔ s'.contents[path]? = some content) : p = p' := by
  obtain ⟨contents⟩ := p
  obtain ⟨contents'⟩ := p'
  congr 1
  obtain rfl := h.contents
  obtain rfl := h'.contents
  refine Shelf.eq_of_ascending (Shelf.ascending_toList _) (Shelf.ascending_toList _) ?_
  rintro ⟨path, content⟩
  rw [Std.TreeMap.mem_toList_iff_getElem?_eq_some, Std.TreeMap.mem_toList_iff_getElem?_eq_some]
  exact hsame path content

/--
After any calls, whether or not they go well, a package holds exactly the files that were put into
it, and lists them in order. A call that fails changes nothing. Whatever the order of the calls, the
same files make the same package.
-/
theorem holds_of_putAll (files : List (String × Bytes)) :
    ∃ told s p, putAll Shelf.put .empty files = (told, s) ∧
      putAll put .empty files = (told, p) ∧ told.map Prod.fst = files ∧
      s.source = p.source ∧ p.source.Holds told ∧
      (∀ file fault s', s.put file = (.error fault, s') → s' = s ∧
        (validatePath file.1 = .error fault ∨
          file.1 ∈ p.files ∧ fault = .duplicatePath file.1)) ∧
      ∀ files' told' p', putAll put .empty files' = (told', p') →
        ((∀ file, (file, .ok ()) ∈ told' ↔ (file, .ok ()) ∈ told) → p' = p) ∧
        (files'.Perm files → (∀ path a b, (path, a) ∈ files → (path, b) ∈ files → a = b) →
          p' = p) := by
  obtain ⟨told, s, p, hshelf, hpackage, hagrees, hholds⟩ := Shelf.putAll_agrees files
  have htold : told.map Prod.fst = files := by
    rw [← fst_putAll put .empty files, hpackage]
  have hsource := hagrees.source
  refine ⟨told, s, p, hshelf, hpackage, htold, hsource, hsource ▸ hholds.source, ?_, ?_⟩
  · intro file fault s' hput
    obtain ⟨hsame, hfault⟩ := Shelf.of_put_error hput
    refine ⟨hsame, hfault.imp_right fun ⟨hold, hduplicate⟩ => ⟨?_, hduplicate⟩⟩
    rwa [← hagrees.files, hholds.listed, Std.TreeMap.mem_keys]
  · intro files' told' p' hpackage'
    obtain ⟨told'', s', p'', -, hpackage'', hagrees', hholds'⟩ := Shelf.putAll_agrees files'
    cases hpackage'.symm.trans hpackage''
    have htold' : told'.map Prod.fst = files' := by
      rw [← fst_putAll put .empty files', hpackage']
    constructor
    · intro hsame
      refine eq_of_agrees hagrees' hagrees fun path content => ?_
      rw [hholds'.put_iff, hholds.put_iff, hsame]
    · -- With one content for each path, which call came first makes no difference.
      intro hperm hone
      have hone' (path : String) (a b : Bytes) (ha : (path, a) ∈ files') (hb : (path, b) ∈ files') :
          a = b := hone path a b (hperm.mem_iff.1 ha) (hperm.mem_iff.1 hb)
      refine eq_of_agrees hagrees' hagrees fun path content => ?_
      rw [hholds'.first_iff, hholds.first_iff, htold, htold',
        Lookup.lookup_eq_some_iff_of_unique hone, Lookup.lookup_eq_some_iff_of_unique hone',
        hperm.mem_iff]

/-- Two files and a path that is not valid, in two orders. -/
theorem putAll_orders :
    let files : List (String × Bytes) := [("b.txt", [1]), ("/c", [3]), ("a.txt", [2])]
    let files' : List (String × Bytes) := [("a.txt", [2]), ("b.txt", [1]), ("/c", [3])]
    files'.Perm files ∧
      (∀ path a b, (path, a) ∈ files → (path, b) ∈ files → a = b) ∧
      (putAll put .empty files').2 = (putAll put .empty files).2 ∧
      (putAll put .empty files).2.files = ["a.txt", "b.txt"] := by
  intro files files'
  have hperm : files'.Perm files := List.perm_append_singleton ("a.txt", [2]) _ |>.symm
  have hone : ∀ path a b, (path, a) ∈ files → (path, b) ∈ files → a = b := by
    intro path a b ha hb
    simp only [files, List.mem_cons, Prod.mk.injEq, List.not_mem_nil, or_false] at ha hb
    rcases ha with ⟨rfl, rfl⟩ | ⟨rfl, rfl⟩ | ⟨rfl, rfl⟩ <;> simpa [eq_comm] using hb
  obtain ⟨told, s, p, -, hpackage, -, -, -, -, horder⟩ := holds_of_putAll files
  have hsame := (horder files' _ _ rfl).2 hperm hone
  refine ⟨hperm, hone, hsame.trans (congrArg Prod.snd hpackage).symm, ?_⟩
  cbv

end MemoryPackage

end PackageAudit
