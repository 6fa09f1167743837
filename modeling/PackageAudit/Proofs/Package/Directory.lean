import PackageAudit.Package.Directory
import PackageAudit.Proofs.Package.FileTree
import PackageAudit.Proofs.Package.Memory

/-!
# Proofs.Package.Directory — a directory and the same files in memory

A directory without links is listed file by file, and each file is read under the path that was
listed for it. So the same files held in memory are the same package, unless a name holds a
backslash: a directory lists such a file, but its path is not valid.

* `Listing.filesOf_plain` — what is listed below a plain directory;
* `Disk.read_below` — every file is read under its path;
* `FilePath.validatePath_iff` — which listed paths are valid;
* `MemoryPackage.ofFiles_ascending` — valid paths in order make a package in memory;
* `FileTree.Listed` — each regular file of a tree once, in the order of the paths;
* `DirectoryPackage.ofDisk_agrees` — both packages are the same.
-/

namespace PackageAudit

namespace FilePath

variable {names : List FileName} {path : String}

/-- Names that are texts. -/
theorem exists_texts (hnames : ∀ name ∈ names, FileName.IsText name) :
    ∃ texts : List (List Char), names = texts.map Utf8.encode := by
  induction names with
  | nil => exact ⟨[], rfl⟩
  | cons name names ih =>
    obtain ⟨⟨text, rfl⟩, hrest⟩ := List.forall_mem_cons.1 hnames
    obtain ⟨texts, rfl⟩ := ih hrest
    exact ⟨text :: texts, rfl⟩

theorem exists_path (hnames : ∀ name ∈ names, FileName.IsText name) :
    ∃ path : String, textBytes path = joined names := by
  obtain ⟨texts, rfl⟩ := exists_texts hnames
  exact ⟨.ofList (['/'].intercalate texts), by rw [joined_encode, textBytes, String.toList_ofList]⟩

end FilePath

/-! ## Listing -/

namespace Listing

theorem addFile_eq {trail : List FileName} (found : List String)
    (htrail : ∀ name ∈ trail, FileName.IsText name) :
    ∃ path, textBytes path = FilePath.joined trail.reverse ∧
      addFile found trail = .ok (path :: found) := by
  obtain ⟨path, hpath⟩ := FilePath.exists_path fun name (hname : name ∈ trail.reverse) =>
    htrail name (List.mem_reverse.1 hname)
  refine ⟨path, hpath, ?_⟩
  have hdecode : Utf8.decode (relative trail) = some path.toList := by
    rw [show relative trail = textBytes path from hpath.symm, decode_textBytes]
  rw [addFile, hdecode]
  simp

/-- Below a plain directory every regular file is found once, under its path. -/
theorem filesOf_plain (disk : Disk) (root : Bytes) (links : Nat) (position : Position)
    (found : List String) (parts : List (FileName × FileTree))
    (hplain : FileTree.PlainParts parts)
    (htrail : ∀ name ∈ position.trail, FileName.IsText name) :
    ∃ files : List (String × Bytes),
      filesOf disk root links position found parts = .ok (files.map Prod.fst ++ found) ∧
      files.map (fun file => (textBytes file.1, file.2)) =
        ((FileTree.regularOf parts).map fun file =>
          (FilePath.joined (position.trail.reverse ++ file.1), file.2)).reverse := by
  match parts with
  | [] => exact ⟨[], by rw [filesOf]; rfl, rfl⟩
  | (name, .file content) :: rest =>
    obtain ⟨⟨-, htext⟩, -, hrest⟩ := hplain
    obtain ⟨path, hpath, hadd⟩ := addFile_eq found (List.forall_mem_cons.2 ⟨htext, htrail⟩)
    obtain ⟨files, hfiles, hpaths⟩ :=
      filesOf_plain disk root links position (path :: found) rest hrest htrail
    refine ⟨files ++ [(path, content)], ?_, ?_⟩
    · rw [filesOf, hadd, List.map_append, List.append_assoc]
      exact hfiles
    · simp [FileTree.regularOf, FileTree.regular, hpaths, hpath]
  | (name, .directory inner) :: rest =>
    obtain ⟨⟨-, htext⟩, hinner, hrest⟩ := hplain
    obtain ⟨inside, hinside, hpaths⟩ :=
      filesOf_plain disk root links (position.enter name (position.place ++ [name])) found inner
        hinner.2 (List.forall_mem_cons.2 ⟨htext, htrail⟩)
    obtain ⟨files, hfiles, hpaths'⟩ :=
      filesOf_plain disk root links position (inside.map Prod.fst ++ found) rest hrest htrail
    refine ⟨files ++ inside, ?_, ?_⟩
    · rw [filesOf]
      simp only [hinside]
      rw [List.map_append, List.append_assoc]
      exact hfiles
    · simp [FileTree.regularOf, FileTree.regular, hpaths, hpaths', Position.enter,
        Function.comp_def]
  | (name, .link target) :: rest => exact hplain.2.1.elim
  termination_by sizeOf parts

end Listing

/-! ## Reading -/

section Reading

variable {disk : Disk} {root : Bytes} {place names : List FileName} {content : Bytes}

theorem FilePath.isAbsolute_append (hroot : root ≠ []) (rest : Bytes) :
    FilePath.isAbsolute (root ++ rest) = FilePath.isAbsolute root := by
  rw [FilePath.isAbsolute, List.head?_append_of_ne_nil _ hroot, FilePath.isAbsolute]

/-- An empty name leads nowhere else. -/
theorem Disk.follow_empty {tree : FileTree} {left : Nat} {found : List FileName}
    (h : Disk.follow tree left found [[]] = .ok place) : found = place := by
  rw [Disk.follow] at h
  split at h
  · cases h
  · rw [if_pos (.inl rfl), Disk.follow] at h
    cases h
    rfl

/-- What is joined to the path of a directory is followed from that directory. -/
theorem Disk.resolve_joinPath (hroot : disk.resolve root = .ok place) (rest : Bytes) :
    ∃ left, disk.resolve (joinPath root rest) =
      Disk.follow disk.tree left place (FilePath.names rest) := by
  have hne : root ≠ [] := by
    rintro rfl
    cases hroot
  rw [Disk.resolve, Disk.resolveFrom, if_neg hne] at hroot
  set start := if FilePath.isAbsolute root = true then [] else disk.here with hstart
  have hresolve (more : Bytes) : disk.resolve (root ++ more) =
      Disk.follow disk.tree Disk.maxLinks start (FilePath.names (root ++ more)) := by
    rw [Disk.resolve, Disk.resolveFrom, if_neg (List.append_ne_nil_of_left_ne_nil hne more),
      FilePath.isAbsolute_append hne]
  by_cases hslash : root.getLast? = some FilePath.slash
  · -- the last name of the root is empty
    obtain ⟨front, rfl⟩ : ∃ front, root = front ++ [FilePath.slash] :=
      List.getLast?_eq_some_iff.1 hslash
    have hsplit (more : Bytes) : FilePath.names (front ++ [FilePath.slash] ++ more) =
        FilePath.names front ++ FilePath.names more := by
      rw [List.append_assoc]
      exact List.splitOn_append_cons_self _ _
    obtain ⟨left, hleft⟩ := Disk.follow_append disk.tree Disk.maxLinks start (FilePath.names front)
    have hfront : (Disk.follow disk.tree Disk.maxLinks start (FilePath.names front)).bind
        (fun found => Disk.follow disk.tree left found [[]]) = .ok place := by
      have hroot' := hsplit []
      rw [List.append_nil] at hroot'
      rw [← hroot, hroot', ← hleft]
      rfl
    refine ⟨left, ?_⟩
    rw [joinPath, if_pos (.inr hslash), hresolve, hsplit, hleft]
    cases hfound : Disk.follow disk.tree Disk.maxLinks start (FilePath.names front) with
    | error fault =>
      rw [hfound] at hfront
      cases hfront
    | ok found =>
      rw [hfound] at hfront
      obtain rfl := Disk.follow_empty hfront
      rfl
  · obtain ⟨left, hleft⟩ := Disk.follow_append disk.tree Disk.maxLinks start (FilePath.names root)
    have hsplit : FilePath.names (root ++ FilePath.slash :: rest) =
        FilePath.names root ++ FilePath.names rest :=
      List.splitOn_append_cons_self _ _
    refine ⟨left, ?_⟩
    rw [joinPath, if_neg (not_or.2 ⟨hne, hslash⟩), hresolve, hsplit, hleft, hroot]
    rfl

/-- Below a directory, a regular file is read under the path of its names. -/
theorem Disk.read_below (hroot : disk.resolve root = .ok place)
    (hfile : disk.tree.at? (place ++ names) = some (.file content))
    (hnames : ∀ name ∈ names, FileName.Proper name) (hne : names ≠ []) :
    disk.read (joinPath root (FilePath.joined names)) = .ok content := by
  obtain ⟨left, hleft⟩ := Disk.resolve_joinPath hroot (FilePath.joined names)
  rw [FilePath.names_joined hnames hne, Disk.follow_below left hfile hnames] at hleft
  simp only [Disk.read, hleft, bind, Except.bind, hfile]

end Reading

/-! ## Valid paths -/

namespace FilePath

variable {names : List FileName} {path : String}

theorem nameFault?_eq_none {text : List Char} (h : FileName.Proper (Utf8.encode text)) :
    PathText.nameFault? text = none := by
  unfold PathText.nameFault?
  split
  · exact absurd rfl h.nonempty
  · exact absurd rfl h.notHere
  · exact absurd rfl h.notAbove
  · rfl

theorem not_mem_of_proper {text : List Char} (h : FileName.Proper (Utf8.encode text)) :
    '/' ∉ text := by
  intro hmem
  refine h.single (List.mem_flatMap.2 ⟨'/', hmem, ?_⟩)
  decide

/-- A path of names begins with a character of the first one, which is no slash. -/
theorem exists_head_intercalate {texts : List (List Char)} (hne : texts ≠ [])
    (hproper : ∀ text ∈ texts, FileName.Proper (Utf8.encode text)) :
    ∃ c rest, ['/'].intercalate texts = c :: rest ∧ c ≠ '/' := by
  obtain ⟨text, others, rfl⟩ := List.exists_cons_of_ne_nil hne
  have hfirst := hproper text List.mem_cons_self
  obtain ⟨c, chars, rfl⟩ : ∃ c chars, text = c :: chars :=
    List.exists_cons_of_ne_nil fun hnil => hfirst.nonempty (by rw [hnil]; rfl)
  have hc : c ≠ '/' := fun heq => not_mem_of_proper hfirst (heq ▸ List.mem_cons_self)
  cases others with
  | nil => exact ⟨c, chars, by simp, hc⟩
  | cons next others =>
    exact ⟨c, _, by rw [List.intercalate_cons_cons]; rfl, hc⟩

/-- The path of names that are texts is valid unless one of them holds a backslash. -/
theorem validatePath_iff (hpath : textBytes path = joined names) (hne : names ≠ [])
    (hnames : ∀ name ∈ names, FileName.Proper name)
    (htexts : ∀ name ∈ names, FileName.IsText name) :
    validatePath path = .ok () ↔ '\\' ∉ path.toList := by
  obtain ⟨texts, rfl⟩ := exists_texts htexts
  have hproper : ∀ text ∈ texts, FileName.Proper (Utf8.encode text) := fun text htext =>
    hnames _ (List.mem_map_of_mem htext)
  have htexts : texts ≠ [] := fun hnil => hne (by rw [hnil]; rfl)
  have hchars : path.toList = ['/'].intercalate texts :=
    Utf8.encode_injective (hpath.trans (joined_encode texts))
  have hsplit : path.toList.splitOn '/' = texts := by
    rw [hchars]
    exact List.splitOn_intercalate '/' (fun text htext => not_mem_of_proper (hproper text htext))
      htexts
  obtain ⟨c, rest, hhead, hc⟩ := exists_head_intercalate htexts hproper
  have hpathChars : path.toList = c :: rest := hchars.trans hhead
  have hnone : texts.findSome? PathText.nameFault? = none :=
    List.findSome?_eq_none_iff.2 fun text htext => nameFault?_eq_none (hproper text htext)
  have hfault : PathText.fault? path.toList =
      if path.toList.contains '\\' then some .backslash else none := by
    rw [PathText.fault?, hsplit, hnone]
    simp [hpathChars, hc]
  rw [validatePath, hfault]
  by_cases hback : '\\' ∈ path.toList
  · simp [hback]
  · simp [hback]

end FilePath

/-! ## Packages in memory -/

namespace MemoryPackage

variable {path : String} {content : Bytes} {front files : List (String × Bytes)}
  {p q : MemoryPackage}

/-- A path that is greater than all others is put at the end. -/
theorem place_eq_append (h : ∀ file ∈ front, file.1 < path) :
    place path content front = front ++ [(path, content)] := by
  induction front with
  | nil => rfl
  | cons file front ih =>
    obtain ⟨hfirst, hrest⟩ := List.forall_mem_cons.1 h
    rw [place, if_neg (lt_asymm hfirst), ih hrest]
    rfl

theorem foldlM_insert_ascending (hvalid : ∀ file ∈ files, validatePath file.1 = .ok ())
    (hascending : ((front ++ files).map Prod.fst).Pairwise (· < ·)) :
    files.foldlM (fun (p : MemoryPackage) file => p.insert file.1 file.2) ⟨front⟩ =
      .ok ⟨front ++ files⟩ := by
  induction files generalizing front with
  | nil => rw [List.append_nil]; rfl
  | cons file files ih =>
    obtain ⟨hfile, hfiles⟩ := List.forall_mem_cons.1 hvalid
    have hbefore : ∀ other ∈ front, other.1 < file.1 := by
      intro other hother
      rw [List.map_append] at hascending
      exact (List.pairwise_append.1 hascending).2.2 other.1 (List.mem_map_of_mem hother) file.1
        List.mem_cons_self
    have hnew : get? ⟨front⟩ file.1 = none := by
      refine Lookup.lookup_eq_none_iff_notMem.2 fun hmem => ?_
      obtain ⟨other, hother, heq⟩ := List.mem_map.1 hmem
      exact absurd heq (ne_of_lt (hbefore other hother))
    have hinsert : insert ⟨front⟩ file.1 file.2 = .ok ⟨front ++ [file]⟩ := by
      rw [insert, hfile, hnew]
      exact congrArg (fun contents => Except.ok (MemoryPackage.mk contents))
        (place_eq_append hbefore)
    rw [List.foldlM_cons, hinsert]
    have hmore : ((front ++ [file] ++ files).map Prod.fst).Pairwise (· < ·) := by
      rwa [List.append_assoc]
    have hrest := ih hfiles hmore
    rw [List.append_assoc] at hrest
    exact hrest

/-- Files under valid paths in ascending order are a package as they are. -/
theorem ofFiles_ascending (hvalid : ∀ file ∈ files, validatePath file.1 = .ok ())
    (hascending : (files.map Prod.fst).Pairwise (· < ·)) : ofFiles files = .ok ⟨files⟩ :=
  foldlM_insert_ascending hvalid (by rwa [List.nil_append])

theorem valid_of_insert (h : p.insert path content = .ok q) :
    validatePath path = .ok () := by
  unfold insert at h
  cases hpath : validatePath path with
  | error fault =>
    rw [hpath] at h
    cases h
  | ok _ => rfl

/-- A package in memory is made of files under valid paths only. -/
theorem valid_of_ofFiles (h : ofFiles files = .ok q) :
    ∀ file ∈ files, validatePath file.1 = .ok () := by
  unfold ofFiles at h
  generalize empty = p at h
  induction files generalizing p with
  | nil => exact List.forall_mem_nil _
  | cons file files ih =>
    rw [List.foldlM_cons] at h
    cases hfile : p.insert file.1 file.2 with
    | error fault =>
      rw [hfile] at h
      cases h
    | ok p' =>
      rw [hfile] at h
      exact List.forall_mem_cons.2 ⟨valid_of_insert hfile, ih _ h⟩

end MemoryPackage

/-! ## One package -/

namespace FileTree

variable {tree : FileTree} {names others : List FileName} {content : Bytes}
  {listed : List (String × Bytes)}

/-- Each regular file of a tree once, under the path of its names, in the order of the bytes. -/
structure Listed (tree : FileTree) (listed : List (String × Bytes)) : Prop where
  ascending : (listed.map fun file => textBytes file.1).Pairwise (· < ·)
  perm : (listed.map fun file => (textBytes file.1, file.2)).Perm
    (tree.regular.map fun file => (FilePath.joined file.1, file.2))

/-- A file of a directory has a name. -/
theorem names_ne_nil (hdirectory : tree.isDirectory = true)
    (hfile : (names, content) ∈ tree.regular) : names ≠ [] := by
  cases tree with
  | file content => cases hdirectory
  | link target => cases hdirectory
  | directory parts =>
    obtain ⟨part, -, rest, rfl, -⟩ := mem_regularOf_iff.1 hfile
    exact List.cons_ne_nil _ _

/-- No two files of a plain directory have the same path. -/
theorem nodup_joined (hdirectory : tree.isDirectory = true) (hplain : tree.Plain) :
    (tree.regular.map fun file => FilePath.joined file.1).Nodup := by
  have hnames : ∀ names ∈ tree.regular.map Prod.fst, FilePath.names (FilePath.joined names) = names := by
    intro names hmem
    obtain ⟨⟨_, content⟩, hfile, rfl⟩ := List.mem_map.1 hmem
    exact FilePath.names_joined (fun name hname => (names_of_mem_regular hplain hfile name hname).1)
      (names_ne_nil hdirectory hfile)
  have hnodup : ((tree.regular.map Prod.fst).map FilePath.joined).Nodup :=
    (nodup_regular hplain).map_on fun names hhere others hthere heq => by
      rw [← hnames names hhere, heq, hnames others hthere]
  rwa [List.map_map] at hnodup

theorem Listed.exists_names (h : tree.Listed listed) {file : String × Bytes}
    (hfile : file ∈ listed) :
    ∃ names, textBytes file.1 = FilePath.joined names ∧ (names, file.2) ∈ tree.regular := by
  have hmem := h.perm.mem_iff.1
    (List.mem_map.2 ⟨file, hfile, rfl⟩)
  obtain ⟨⟨names, content⟩, hregular, heq⟩ := List.mem_map.1 hmem
  obtain ⟨hpath, hcontent⟩ := Prod.mk.inj heq
  exact ⟨names, hpath.symm, hcontent ▸ hregular⟩

theorem Listed.paths_ascending (h : tree.Listed listed) :
    (listed.map Prod.fst).Pairwise (· < ·) := by
  have hbytes := h.ascending
  rw [List.pairwise_map] at hbytes ⊢
  exact hbytes.imp textBytes_lt_iff.1

end FileTree

namespace DirectoryPackage

variable {disk : Disk} {root : Bytes} {place : List FileName} {tree : FileTree}
  {listed : List (String × Bytes)}

/-- What is listed for a plain directory. -/
theorem ofDisk_plain (hroot : disk.resolve root = .ok place)
    (htree : disk.tree.at? place = some tree) (hdirectory : tree.isDirectory = true)
    (hplain : tree.Plain) :
    ∃ listed, ofDisk disk root = .ok ⟨root, listed.map Prod.fst⟩ ∧ tree.Listed listed := by
  cases tree with
  | file content => cases hdirectory
  | link target => cases hdirectory
  | directory parts =>
    obtain ⟨files, hfiles, hpaths⟩ := Listing.filesOf_plain disk root disk.tree.directories
      ⟨place, [], [(place, [])]⟩ [] parts hplain.2 (List.forall_mem_nil _)
    set listed := files.mergeSort fun a b => decide (a.1 ≤ b.1) with hlisted
    have hsorted : listed.map Prod.fst =
        (files.map Prod.fst).mergeSort fun a b => decide (a ≤ b) :=
      List.map_mergeSort fun _ _ _ _ => rfl
    have hperm : (listed.map fun file => (textBytes file.1, file.2)).Perm
        ((FileTree.directory parts).regular.map fun file => (FilePath.joined file.1, file.2)) := by
      have hfound := (List.mergeSort_perm files fun a b => decide (a.1 ≤ b.1)).map
        fun file => (textBytes file.1, file.2)
      rw [hpaths] at hfound
      exact hfound.trans (List.reverse_perm _)
    refine ⟨listed, ?_, ?_, hperm⟩
    · rw [List.append_nil] at hfiles
      have hlisting : Listing.files disk root place = .ok (files.map Prod.fst) := by
        rw [Listing.files, htree]
        exact hfiles
      have hany : (some (FileTree.directory parts)).any FileTree.isDirectory = true := rfl
      rw [ofDisk, hroot, hsorted]
      change (if (disk.tree.at? place).any FileTree.isDirectory = true then _ else _) = _
      rw [htree, if_pos hany, hlisting]
      rfl
    · -- in the order of the texts, and no text twice
      have hordered := pairwise_mergeSort_texts (files.map Prod.fst)
      rw [← hsorted, List.pairwise_map] at hordered
      have hnodup : (listed.map fun file => textBytes file.1).Nodup := by
        have hpaths := hperm.map Prod.fst
        rw [List.map_map, List.map_map] at hpaths
        exact hpaths.nodup_iff.2 (FileTree.nodup_joined hdirectory hplain)
      rw [List.Nodup, List.pairwise_map] at hnodup
      rw [List.pairwise_map]
      refine hordered.imp₂ (fun {a b} hle hne => ?_) hnodup
      exact textBytes_lt_iff.2 (lt_of_le_of_ne hle fun heq => hne (by rw [heq]))

/-- A listed file is read. -/
theorem read_listed (hroot : disk.resolve root = .ok place)
    (htree : disk.tree.at? place = some tree) (hdirectory : tree.isDirectory = true)
    (hplain : tree.Plain) (hlisted : tree.Listed listed) {file : String × Bytes}
    (hfile : file ∈ listed) : read ⟨root, listed.map Prod.fst⟩ disk file.1 = .ok file.2 := by
  obtain ⟨names, hpath, hregular⟩ := hlisted.exists_names hfile
  have hstands : disk.tree.at? (place ++ names) = some (.file file.2) := by
    rw [FileTree.at?_append, htree]
    exact (FileTree.mem_regular_iff hplain).1 hregular
  have hread := Disk.read_below hroot hstands
    (fun name hname => (FileTree.names_of_mem_regular hplain hregular name hname).1)
    (FileTree.names_ne_nil hdirectory hregular)
  have hmem : (listed.map Prod.fst).contains file.1 = true :=
    List.contains_iff_mem.2 (List.mem_map_of_mem hfile)
  rw [read, if_pos hmem, hpath, hread]
  rfl

/-- A package in memory answers as a directory does that reads the same files. -/
theorem source_eq (hread : ∀ file ∈ listed,
      read ⟨root, listed.map Prod.fst⟩ disk file.1 = .ok file.2) :
    (MemoryPackage.mk listed).source = source ⟨root, listed.map Prod.fst⟩ disk := by
  have hcontains (path : String) :
      ((MemoryPackage.mk listed).get? path).isSome = (listed.map Prod.fst).contains path := by
    rw [Bool.eq_iff_iff, List.contains_iff_mem, List.mem_map]
    constructor
    · intro h
      obtain ⟨content, hcontent⟩ := Option.isSome_iff_exists.1 h
      exact ⟨(path, content), Lookup.mem_of_lookup hcontent, rfl⟩
    · rintro ⟨file, hfile, rfl⟩
      exact Option.isSome_iff_ne_none.2 fun hnone =>
        Lookup.lookup_eq_none_iff_notMem.1 hnone (List.mem_map_of_mem hfile)
  have hreads : (MemoryPackage.mk listed).read = read ⟨root, listed.map Prod.fst⟩ disk := by
    funext path
    cases hget : (MemoryPackage.mk listed).get? path with
    | none =>
      have hmissing := hcontains path
      rw [hget] at hmissing
      rw [MemoryPackage.read, hget, read, if_neg (by rw [← hmissing]; exact Bool.noConfusion)]
    | some content =>
      rw [MemoryPackage.read_eq hget, hread _ (Lookup.mem_of_lookup hget)]
  have hstart (path : String) (count : Nat) :
      ((MemoryPackage.mk listed).read path).map (List.take count) =
        Source.startThrough (fun path => (read ⟨root, listed.map Prod.fst⟩ disk path).map
          Stream.ofBytes) path count := by
    rw [hreads, Source.startThrough]
    cases read ⟨root, listed.map Prod.fst⟩ disk path with
    | error fault => rfl
    | ok content =>
      change Except.ok _ = Source.failed path (if _ then _ else _)
      split <;> rfl
  rw [MemoryPackage.source, source, Source.mk.injEq]
  exact ⟨rfl, funext hcontains, hreads, by rw [hreads], by rw [hreads],
    funext fun path => funext (hstart path)⟩

/--
A directory without links and the same files in memory are one package, unless the path of a file
holds a backslash: such a file is listed and read, but its path is not valid.
-/
theorem ofDisk_agrees (hroot : disk.resolve root = .ok place)
    (htree : disk.tree.at? place = some tree) (hdirectory : tree.isDirectory = true)
    (hplain : tree.Plain) :
    ∃ p listed, ofDisk disk root = .ok p ∧ p.files = listed.map Prod.fst ∧ tree.Listed listed ∧
      (∀ file ∈ listed, (p.source disk).read file.1 = .ok file.2) ∧
      (∀ file ∈ listed, validatePath file.1 = .ok () ↔ '\\' ∉ file.1.toList) ∧
      ((∃ m, MemoryPackage.ofFiles listed = .ok m ∧ m.source = p.source disk) ↔
        ∀ file ∈ listed, '\\' ∉ file.1.toList) := by
  obtain ⟨listed, hp, hlisted⟩ := ofDisk_plain hroot htree hdirectory hplain
  have hread : ∀ file ∈ listed, read ⟨root, listed.map Prod.fst⟩ disk file.1 = .ok file.2 :=
    fun file hfile => read_listed hroot htree hdirectory hplain hlisted hfile
  have hvalid : ∀ file ∈ listed, validatePath file.1 = .ok () ↔ '\\' ∉ file.1.toList := by
    intro file hfile
    obtain ⟨names, hpath, hregular⟩ := hlisted.exists_names hfile
    have hnames := FileTree.names_of_mem_regular hplain hregular
    exact FilePath.validatePath_iff hpath (FileTree.names_ne_nil hdirectory hregular)
      (fun name hname => (hnames name hname).1) fun name hname => (hnames name hname).2
  refine ⟨⟨root, listed.map Prod.fst⟩, listed, hp, rfl, hlisted, hread, hvalid, ?_, ?_⟩
  · rintro ⟨m, hm, -⟩ file hfile
    exact (hvalid file hfile).1 (MemoryPackage.valid_of_ofFiles hm file hfile)
  · intro hback
    have hm := MemoryPackage.ofFiles_ascending
      (fun file hfile => (hvalid file hfile).2 (hback file hfile)) hlisted.paths_ascending
    exact ⟨⟨listed⟩, hm, source_eq hread⟩

/-- The directory `p`, in which there are a file `a` and a directory `b` with a file `c`. -/
theorem ofDisk_agrees_nested :
    let tree : FileTree := .directory [([97], .file [1]), ([98], .directory [([99], .file [2])])]
    let disk : Disk := ⟨.directory [([112], tree)], []⟩
    disk.resolve [112] = .ok [[112]] ∧
    ∃ p listed, ofDisk disk [112] = .ok p ∧ p.files = listed.map Prod.fst ∧ tree.Listed listed ∧
      (∀ file ∈ listed, (p.source disk).read file.1 = .ok file.2) ∧
      (∀ file ∈ listed, validatePath file.1 = .ok () ↔ '\\' ∉ file.1.toList) ∧
      ((∃ m, MemoryPackage.ofFiles listed = .ok m ∧ m.source = p.source disk) ↔
        ∀ file ∈ listed, '\\' ∉ file.1.toList) := by
  intro tree disk
  have hroot : disk.resolve [112] = .ok [[112]] := by
    have hnames : FilePath.names [112] = [[112]] := by decide
    rw [Disk.resolve, Disk.resolveFrom, if_neg (by decide), hnames, Disk.follow,
      if_neg Bool.noConfusion, if_neg (by decide), if_neg (by decide)]
    change Disk.follow _ _ [[112]] [] = _
    rw [Disk.follow]
  have hplain : tree.Plain :=
    ⟨by decide, ⟨by decide, ['a'], by decide⟩, trivial, ⟨by decide, ['b'], by decide⟩,
      ⟨by decide, ⟨by decide, ['c'], by decide⟩, trivial, trivial⟩, trivial⟩
  exact ⟨hroot, ofDisk_agrees hroot rfl rfl hplain⟩

/-- The path of a file whose name holds a backslash is listed, but it is not valid. -/
theorem backslash_listed :
    let tree : FileTree := .directory [(textBytes "a\\b", .file [120])]
    let disk : Disk := ⟨tree, []⟩
    tree.Plain ∧ ofDisk disk [46] = .ok ⟨[46], ["a\\b"]⟩ ∧ validatePath "a\\b" ≠ .ok () ∧
      ∀ m, MemoryPackage.ofFiles [("a\\b", [120])] ≠ .ok m := by
  intro tree disk
  have hinvalid : validatePath "a\\b" ≠ .ok () := by decide
  have hplain : tree.Plain :=
    ⟨by decide, ⟨by decide, ['a', '\\', 'b'], by decide⟩, trivial, trivial⟩
  have hroot : disk.resolve [46] = .ok [] := by
    have hnames : FilePath.names [46] = [[46]] := by decide
    rw [Disk.resolve, Disk.resolveFrom, if_neg (by decide), hnames, Disk.follow,
      if_neg Bool.noConfusion, if_pos (by decide), Disk.follow]
    rfl
  obtain ⟨listed, hp, hlisted⟩ := ofDisk_plain hroot rfl rfl hplain
  have hpaths : listed.map Prod.fst = ["a\\b"] := by
    have hbytes := hlisted.perm.map Prod.fst
    rw [List.map_map] at hbytes
    refine List.map_injective_iff.2 textBytes_injective ?_
    rw [List.map_map]
    exact List.perm_singleton.1 hbytes
  rw [hpaths] at hp
  exact ⟨hplain, hp, hinvalid, fun m hm =>
    hinvalid (MemoryPackage.valid_of_ofFiles hm _ List.mem_cons_self)⟩

end DirectoryPackage

end PackageAudit
