import PackageAudit.Package.FileTree
import PackageAudit.Proofs.Basic
import PackageAudit.Proofs.Text.Order

/-!
# Proofs.Package.FileTree — trees of directories and regular files

* `FileTree.Plain` — a tree without links, whose names are texts that a disk accepts;
* `FileTree.regular` — its regular files, each with the names that lead to it;
* `FileTree.mem_regular_iff` — these are the files that stand in the tree;
* `FilePath.joined` — names with slashes between them;
* `Disk.follow_below` — a path through a plain tree leads where its names say.
-/

namespace PackageAudit

/-! ## Names and paths -/

/-- A name that a disk accepts. -/
structure FileName.Proper (name : FileName) : Prop where
  nonempty : name ≠ []
  single : FilePath.slash ∉ name
  notHere : name ≠ [46]
  notAbove : name ≠ [46, 46]

instance (name : FileName) : Decidable name.Proper :=
  decidable_of_iff (name ≠ [] ∧ FilePath.slash ∉ name ∧ name ≠ [46] ∧ name ≠ [46, 46])
    ⟨fun h => ⟨h.1, h.2.1, h.2.2.1, h.2.2.2⟩,
      fun h => ⟨h.nonempty, h.single, h.notHere, h.notAbove⟩⟩

/-- A name is the bytes of a text. -/
def FileName.IsText (name : FileName) : Prop :=
  ∃ text : List Char, name = Utf8.encode text

namespace FilePath

/-- Names with a slash between each two. -/
def joined (names : List FileName) : Bytes :=
  [slash].intercalate names

variable {names : List FileName}

theorem names_joined (hnames : ∀ name ∈ names, FileName.Proper name) (hne : names ≠ []) :
    FilePath.names (joined names) = names :=
  List.splitOn_intercalate slash (fun name hname => (hnames name hname).single) hne

/-- The bytes of texts with slashes between them. -/
theorem joined_encode (texts : List (List Char)) :
    joined (texts.map Utf8.encode) = Utf8.encode (['/'].intercalate texts) := by
  induction texts with
  | nil => rfl
  | cons text texts ih =>
    have hslash : Utf8.encode ['/'] = [slash] := by decide
    cases texts with
    | nil => simp [joined]
    | cons next texts =>
      rw [List.intercalate_cons_cons, Utf8.encode_append, Utf8.encode_append, ← ih, hslash]
      simp [joined, List.intercalate_cons_cons]

end FilePath

/-! ## Plain trees -/

namespace FileTree

theorem induction {P : FileTree → Prop} (file : ∀ content, P (.file content))
    (link : ∀ target, P (.link target))
    (directory : ∀ parts, (∀ part ∈ parts, P part.2) → P (.directory parts)) :
    ∀ t, P t
  | .file content => file content
  | .link target => link target
  | .directory parts => directory parts fun part hpart =>
      have : sizeOf part < sizeOf parts := List.sizeOf_lt_of_mem hpart
      have : sizeOf part.2 < sizeOf part := by
        cases part
        simp only [Prod.mk.sizeOf_spec]
        omega
      induction file link directory part.2

mutual

/-- No links, and names that a disk accepts, each once in its directory, all of them texts. -/
def Plain : FileTree → Prop
  | file _ => True
  | link _ => False
  | directory parts => (parts.map Prod.fst).Nodup ∧ PlainParts parts

def PlainParts : List (FileName × FileTree) → Prop
  | [] => True
  | (name, part) :: rest => (name.Proper ∧ name.IsText) ∧ part.Plain ∧ PlainParts rest

end

mutual

/-- The regular files of a tree, each with the names that lead to it. -/
def regular : FileTree → List (List FileName × Bytes)
  | file content => [([], content)]
  | link _ => []
  | directory parts => regularOf parts

def regularOf : List (FileName × FileTree) → List (List FileName × Bytes)
  | [] => []
  | (name, part) :: rest =>
    part.regular.map (fun file => (name :: file.1, file.2)) ++ regularOf rest

end

variable {t : FileTree} {parts : List (FileName × FileTree)} {name : FileName}
  {names : List FileName} {content : Bytes}

theorem plainParts_iff :
    PlainParts parts ↔ ∀ part ∈ parts, (part.1.Proper ∧ part.1.IsText) ∧ part.2.Plain := by
  induction parts with
  | nil => simp [PlainParts]
  | cons part parts ih => rw [PlainParts, ih, List.forall_mem_cons, and_assoc, and_assoc, and_assoc]

theorem mem_regularOf_iff :
    (names, content) ∈ regularOf parts ↔
      ∃ part ∈ parts, ∃ rest, names = part.1 :: rest ∧ (rest, content) ∈ part.2.regular := by
  induction parts with
  | nil => simp [regularOf]
  | cons part parts ih =>
    have hfirst : (names, content) ∈ part.2.regular.map (fun file => (part.1 :: file.1, file.2)) ↔
        ∃ rest, names = part.1 :: rest ∧ (rest, content) ∈ part.2.regular := by
      constructor
      · intro h
        obtain ⟨file, hfile, heq⟩ := List.mem_map.1 h
        cases heq
        exact ⟨file.1, rfl, hfile⟩
      · rintro ⟨rest, rfl, hrest⟩
        exact List.mem_map.2 ⟨(rest, content), hrest, rfl⟩
    rw [regularOf, List.mem_append, ih, hfirst, List.exists_mem_cons_iff]

/-- The names that lead to a file of a plain tree. -/
theorem names_of_mem_regular (h : t.Plain) (hfile : (names, content) ∈ t.regular) :
    ∀ name ∈ names, name.Proper ∧ name.IsText := by
  induction t using induction generalizing names with
  | file other =>
    cases List.mem_singleton.1 hfile
    exact List.forall_mem_nil _
  | link target => cases hfile
  | directory parts ih =>
    obtain ⟨part, hpart, rest, rfl, hrest⟩ := mem_regularOf_iff.1 hfile
    obtain ⟨hname, hplain⟩ := plainParts_iff.1 h.2 part hpart
    exact List.forall_mem_cons.2 ⟨hname, ih part hpart hplain hrest⟩

/-- No list of names leads to two files. -/
theorem nodup_regular (h : t.Plain) : (t.regular.map Prod.fst).Nodup := by
  induction t using induction with
  | file other => exact List.nodup_singleton _
  | link target => exact List.nodup_nil
  | directory parts ih =>
    obtain ⟨hnodup, hparts⟩ := h
    rw [regular]
    induction parts with
    | nil => exact List.nodup_nil
    | cons part parts ihparts =>
      obtain ⟨hnew, hnodup⟩ := List.nodup_cons.1 hnodup
      have hmore := ihparts (fun p hp => ih p (List.mem_cons_of_mem _ hp)) hnodup hparts.2.2
      have hfirst := ih part List.mem_cons_self hparts.2.1
      rw [regularOf, List.map_append, List.nodup_append]
      refine ⟨?_, hmore, ?_⟩
      · have hnames : (part.2.regular.map fun file => (part.1 :: file.1, file.2)).map Prod.fst =
            (part.2.regular.map Prod.fst).map (part.1 :: ·) := by
          simp [Function.comp_def]
        rw [hnames]
        exact hfirst.map fun _ _ heq => (List.cons.inj heq).2
      · -- the files of another part begin with another name
        intro names hhere other hthere heq
        obtain ⟨_, hfile, rfl⟩ := List.mem_map.1 hhere
        obtain ⟨file, -, rfl⟩ := List.mem_map.1 hfile
        obtain ⟨other', hother, rfl⟩ := List.mem_map.1 hthere
        obtain ⟨part', hpart', rest, hnames, -⟩ := mem_regularOf_iff.1 hother
        have hname : part.1 = part'.1 := (List.cons.inj (heq.trans hnames)).1
        exact hnew (List.mem_map.2 ⟨part', hpart', hname.symm⟩)

/-! ## What stands in a tree -/

theorem at?_append (t : FileTree) (names more : List FileName) :
    t.at? (names ++ more) = (t.at? names).bind (·.at? more) := by
  induction names generalizing t with
  | nil => rfl
  | cons name names ih =>
    rw [List.cons_append, at?, at?]
    cases t.parts.lookup name with
    | none => rfl
    | some part => exact ih part

/-- Names lead on through the parts of a directory only. -/
theorem at?_cons_eq_some_iff {rest : List FileName} {found : FileTree} :
    t.at? (name :: rest) = some found ↔
      ∃ parts part, t = .directory parts ∧ parts.lookup name = some part ∧
        part.at? rest = some found := by
  rw [at?]
  constructor
  · intro h
    split at h
    · next part hpart =>
      cases t with
      | file content => cases hpart
      | link target => cases hpart
      | directory parts => exact ⟨parts, part, rfl, hpart, h⟩
    · cases h
  · rintro ⟨parts, part, rfl, hpart, h⟩
    rw [FileTree.parts, hpart]
    exact h

/-- The regular files of a plain tree are those that stand in it. -/
theorem mem_regular_iff (h : t.Plain) :
    (names, content) ∈ t.regular ↔ t.at? names = some (.file content) := by
  induction t using induction generalizing names with
  | file other =>
    cases names with
    | nil => simp [regular, at?, eq_comm]
    | cons name rest => simp [regular, at?, FileTree.parts]
  | link target => exact h.elim
  | directory parts ih =>
    have hplain := plainParts_iff.1 h.2
    rw [regular, mem_regularOf_iff]
    cases names with
    | nil => simp [at?]
    | cons name rest =>
      rw [at?_cons_eq_some_iff]
      constructor
      · rintro ⟨part, hpart, _, heq, hfile⟩
        cases heq
        have hlookup := (Lookup.lookup_eq_some_iff_mem h.1).2 hpart
        exact ⟨parts, part.2, rfl, hlookup, (ih part hpart (hplain part hpart).2).1 hfile⟩
      · rintro ⟨_, part, heq, hlookup, hfile⟩
        cases heq
        have hpart := Lookup.mem_of_lookup hlookup
        exact ⟨(name, part), hpart, rest, rfl, (ih _ hpart (hplain _ hpart).2).2 hfile⟩

end FileTree

/-! ## Paths through a tree -/

namespace Disk

variable {tree : FileTree} {place : List FileName} {names : List FileName} {content : Bytes}

/-- What follows a path is followed from where the path leads, with the links that are left. -/
theorem follow_append (tree : FileTree) (links : Nat) (place names : List FileName) :
    ∃ left, ∀ more, follow tree links place (names ++ more) =
      (follow tree links place names).bind fun found => follow tree left found more := by
  fun_induction follow tree links place names with
  | case1 links place => exact ⟨links, fun more => rfl⟩
  | case2 links place name rest hdirectory =>
    refine ⟨links, fun more => ?_⟩
    rw [List.cons_append, follow, if_pos hdirectory]
    rfl
  | case3 links place name rest hdirectory hhere ih =>
    obtain ⟨left, hleft⟩ := ih
    refine ⟨left, fun more => ?_⟩
    rw [List.cons_append, follow, if_neg hdirectory, if_pos hhere, hleft]
  | case4 links place rest hdirectory hhere ih =>
    obtain ⟨left, hleft⟩ := ih
    refine ⟨left, fun more => ?_⟩
    rw [List.cons_append, follow, if_neg hdirectory, if_neg hhere, if_pos rfl, hleft]
  | case5 links place name rest hdirectory hhere habove hnone =>
    refine ⟨links, fun more => ?_⟩
    rw [List.cons_append, follow, if_neg hdirectory, if_neg hhere, if_neg habove, hnone]
    rfl
  | case6 place name rest hdirectory hhere habove target hlink =>
    refine ⟨0, fun more => ?_⟩
    rw [List.cons_append, follow, if_neg hdirectory, if_neg hhere, if_neg habove, hlink]
    rfl
  | case7 place name rest hdirectory hhere habove target hlink links ih =>
    obtain ⟨left, hleft⟩ := ih
    refine ⟨left, fun more => ?_⟩
    have hmore := hleft more
    rw [List.append_assoc] at hmore
    rw [List.cons_append, follow, if_neg hdirectory, if_neg hhere, if_neg habove, hlink]
    exact hmore
  | case8 links place name rest hdirectory hhere habove part hlink hpart ih =>
    obtain ⟨left, hleft⟩ := ih
    refine ⟨left, fun more => ?_⟩
    rw [List.cons_append, follow, if_neg hdirectory, if_neg hhere, if_neg habove, hpart]
    cases part with
    | link target => exact (hlink target rfl).elim
    | file content => exact hleft more
    | directory parts => exact hleft more

/-- Below a place, names lead to the file that stands there. -/
theorem follow_below (links : Nat) (hfile : tree.at? (place ++ names) = some (.file content))
    (hnames : ∀ name ∈ names, FileName.Proper name) :
    follow tree links place names = .ok (place ++ names) := by
  induction names generalizing place with
  | nil => rw [follow, List.append_nil]
  | cons name rest ih =>
    obtain ⟨here, hhere, hbelow⟩ : ∃ here, tree.at? place = some here ∧
        here.at? (name :: rest) = some (.file content) := by
      rwa [FileTree.at?_append, Option.bind_eq_some_iff] at hfile
    obtain ⟨parts, part, rfl, hpart, hrest⟩ := FileTree.at?_cons_eq_some_iff.1 hbelow
    obtain ⟨hname, hothers⟩ := List.forall_mem_cons.1 hnames
    have hnext : tree.at? (place ++ [name]) = some part := by
      rw [FileTree.at?_append, hhere]
      exact FileTree.at?_cons_eq_some_iff.2 ⟨parts, part, rfl, hpart, rfl⟩
    have hrec : follow tree links (place ++ [name]) rest = .ok (place ++ name :: rest) := by
      have hmore : tree.at? ((place ++ [name]) ++ rest) = some (.file content) := by simpa using hfile
      simpa using ih hmore hothers
    have hdirectory : ¬ (!(tree.at? place).any FileTree.isDirectory) = true := by
      simp [hhere, FileTree.isDirectory]
    have hhere' : ¬ (name = [] ∨ name = [46]) := by
      rintro (h | h)
      · exact hname.nonempty h
      · exact hname.notHere h
    rw [follow, if_neg hdirectory, if_neg hhere', if_neg hname.notAbove, hnext]
    -- what stands on the way is no link, since names lead on from it or it is the file
    cases part with
    | link target =>
      cases rest with
      | nil => cases hrest
      | cons next rest =>
        obtain ⟨_, _, heq, -, -⟩ := FileTree.at?_cons_eq_some_iff.1 hrest
        cases heq
    | file content' => exact hrec
    | directory parts' => exact hrec

end Disk

end PackageAudit
