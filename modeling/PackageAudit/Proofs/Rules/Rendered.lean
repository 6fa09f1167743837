import PackageAudit.Package.Directory
import PackageAudit.Proofs.Audit.Rendered
import PackageAudit.Proofs.Document.Messages
import PackageAudit.Proofs.Package.Entries
import PackageAudit.Proofs.Rules.Manifest
import PackageAudit.Proofs.Rules.Owners
import PackageAudit.Proofs.Rules.Reporting
import PackageAudit.Proofs.Version

/-!
# Proofs.Rules.Rendered — what a package can write into the text of its report

Findings show paths, names and parts of documents that the package chooses. Most of them stand in
quotes; paths of files, the name in the manifest and wrong escape sequences of JSON texts do not.

* `Source.IsPackage`, `Source.ByReading` — packages, and what access to their files comes to;
* `Source.Unbroken` — a package without line feeds in what is shown as it is;
* `Source.Unbroken.subject` — then nothing that checkers look at shows one;
* `ManifestRules.says_checker`, …, `Rules.says_of_mem` — then all that a checker says are lines;
* `Rules.report_rendered` — when the text of a report is faithful;
* `Rules.report_spoofed` — a package with a line of its own in the text.
-/

namespace PackageAudit

/-! ## Packages -/

/-- The packages there are: in memory, and listed on a disk. -/
inductive Source.IsPackage : Source → Prop where
  | memory (p : MemoryPackage) : IsPackage p.source
  | directory (p : DirectoryPackage) (disk : Disk) : IsPackage (p.source disk)

/-- Access to files is reading them; the files are those that are listed. -/
structure Source.ByReading (source : Source) : Prop where
  contains : ∀ path, source.contains path = true → path ∈ source.files
  mem : ∀ path content, source.read path = .ok content → path ∈ source.files
  error : ∀ path e, IsLine path → source.read path = .error e → IsLine e.message
  openFile : ∀ path, source.openFile path = (source.read path).map Stream.ofBytes
  size : ∀ path, source.size path = (source.read path).map List.length
  readStart : ∀ path count, source.readStart path count = (source.read path).map (List.take count)

theorem isLine_fileNotFound {path : String} (h : IsLine path) :
    IsLine (PackageError.fileNotFound path).message := by
  unfold PackageError.message
  simp [IsLine, toString, h]

theorem isLine_readFailed {path message : String} (h : IsLine path) (hmessage : IsLine message) :
    IsLine (PackageError.readFailed path message).message := by
  unfold PackageError.message
  simp [IsLine, toString, h, hmessage]

theorem isLine_diskFault (fault : DiskFault) : IsLine fault.message := by
  cases fault <;> simp [IsLine, DiskFault.message]

theorem MemoryPackage.byReading (p : MemoryPackage) : p.source.ByReading := by
  have hmem : ∀ path content, p.get? path = some content → path ∈ p.files := fun path content h =>
    List.mem_map.2 ⟨(path, content), Lookup.mem_of_lookup h, rfl⟩
  constructor
  · intro path h
    obtain ⟨content, h⟩ := Option.isSome_iff_exists.1 h
    exact hmem path content h
  · intro path content h
    change p.read path = .ok content at h
    unfold read at h
    split at h
    · next found hfound => exact hmem path found hfound
    · cases h
  · intro path e hpath h
    change p.read path = .error e at h
    unfold read at h
    split at h
    · cases h
    · cases h
      exact isLine_fileNotFound hpath
  · exact fun _ => rfl
  · exact fun _ => rfl
  · exact fun _ _ => rfl

theorem DirectoryPackage.byReading (p : DirectoryPackage) (disk : Disk) :
    (p.source disk).ByReading := by
  constructor
  · exact fun path h => List.contains_iff_mem.1 h
  · intro path content h
    change p.read disk path = .ok content at h
    unfold read at h
    split at h
    · next hmem => exact List.contains_iff_mem.1 hmem
    · cases h
  · intro path e hpath h
    change p.read disk path = .error e at h
    unfold read at h
    split at h
    · cases hread : disk.read (joinPath p.root (textBytes path)) with
      | ok content =>
        rw [hread] at h
        cases h
      | error fault =>
        rw [hread] at h
        cases h
        exact isLine_readFailed hpath (isLine_diskFault fault)
    · cases h
      exact isLine_fileNotFound hpath
  · exact fun _ => rfl
  · exact fun _ => rfl
  · -- The start of a file is read through a stream over all of it.
    intro path count
    change Source.startThrough (fun path => (p.read disk path).map Stream.ofBytes) path count =
      (p.read disk path).map (List.take count)
    unfold Source.startThrough
    dsimp only
    cases p.read disk path with
    | error e => rfl
    | ok content =>
      change Source.failed path ((Stream.ofBytes content).readStart count) =
        .ok (content.take count)
      unfold Stream.readStart
      dsimp only [Stream.ofBytes]
      split <;> rfl

theorem Source.IsPackage.byReading {source : Source} (h : source.IsPackage) : source.ByReading := by
  cases h with
  | memory p => exact p.byReading
  | directory p disk => exact p.byReading disk

namespace Source.ByReading

variable {α : Type} {source : Source} {path : String} {e : PackageError} (h : source.ByReading)
  (hpath : IsLine path)
include h hpath

theorem isLine_map_error {f : Bytes → α} (he : (source.read path).map f = .error e) :
    IsLine e.message :=
  h.error path e hpath (Yaml.of_map_error he)

theorem isLine_size_error (he : source.size path = .error e) : IsLine e.message :=
  h.isLine_map_error hpath (h.size path ▸ he)

theorem isLine_openFile_error (he : source.openFile path = .error e) : IsLine e.message :=
  h.isLine_map_error hpath (h.openFile path ▸ he)

theorem isLine_readStart_error {count : Nat} (he : source.readStart path count = .error e) :
    IsLine e.message :=
  h.isLine_map_error hpath (h.readStart path count ▸ he)

end Source.ByReading

/-! ## Manifests -/

theorem Node.isLine_path (n : Node) : IsLine n.path :=
  isLine_formatPath _

theorem Node.isLine_of_string_error {n : Node} {e : DocumentError} (h : n.string = .error e) :
    IsLine e.message := by
  unfold Node.string at h
  split at h
  · cases h
  · cases h
    exact isLine_mismatch n .string

theorem Node.isLine_of_members_error {n : Node} {e : DocumentError} (h : n.members = .error e) :
    IsLine e.message := by
  unfold Node.members at h
  split at h
  · cases h
  · cases h
    exact isLine_mismatch _ .object

theorem isLine_versionFault (fault : Version.Fault) : IsLine fault.message := by
  have hpart : ∀ part : Version.Part, IsLine part.name := by
    intro part
    cases part <;> simp [IsLine, Version.Part.name]
  unfold Version.Fault.message
  cases fault <;> simp [IsLine, hpart]

theorem isLine_platformFault (fault : Platform.Fault) : IsLine fault.message := by
  cases fault <;> simp [IsLine, Platform.Fault.message]

theorem isLine_invalidVersion (value : String) (fault : Version.Fault) :
    IsLine (ManifestError.invalidVersion value fault.message).message := by
  unfold ManifestError.message
  simp [IsLine, isLine_versionFault]

theorem isLine_of_platform_error {value : String} {e : ManifestError}
    (h : Platform.ofText value = .error e) : IsLine e.message := by
  obtain ⟨fault, -, rfl⟩ := mapError_eq_error_iff.1 h
  unfold ManifestError.message
  simp [IsLine, isLine_platformFault]

theorem isLine_invalid {e : DocumentError} :
    IsLine (ManifestError.invalid e).message ↔ IsLine e.message := by
  unfold ManifestError.message
  simp [IsLine, toString]

theorem isLine_unreadable {message : String} (h : IsLine message) :
    IsLine (ManifestError.unreadable message).message := by
  unfold ManifestError.message
  simp [IsLine, toString, h]

namespace Manifest

variable {m : Manifest} {e : ManifestError}

theorem isLine_of_name_error (h : m.name = .error e) : IsLine e.message := by
  obtain ⟨fault, hstring, rfl⟩ := mapError_eq_error_iff.1 h
  exact isLine_invalid.2 (Node.isLine_of_string_error hstring)

theorem isLine_of_version_error (h : m.version = .error e) : IsLine e.message := by
  rcases Yaml.of_bind_error h with h | ⟨raw, -, h⟩
  · obtain ⟨fault, hstring, rfl⟩ := mapError_eq_error_iff.1 h
    exact isLine_invalid.2 (Node.isLine_of_string_error hstring)
  · obtain ⟨fault, -, rfl⟩ := mapError_eq_error_iff.1 h
    exact isLine_invalidVersion raw fault

theorem isLine_version_text {v : Version} (h : m.version = .ok v) : IsLine v.text := by
  obtain ⟨raw, -, hparse⟩ := version_eq_ok_iff.1 h
  intro hfeed
  rcases Version.isTextChar_of_mem_text hparse hfeed with (h | h) | h
  · exact absurd h (by decide)
  · exact absurd h (by decide)
  · exact absurd h (by decide)

end Manifest

/-! ## Contents without line feeds of their own -/

/-- Whether a path is that of a file that is named as JSON. -/
def PathText.isJson (path : String) : Bool :=
  (Entry.classify ⟨none⟩ false path).extension == "json"

/--
A package that puts no line feed where it would be shown as it is: into the path of a file, into
its name, or into an escape sequence that JSON does not have.
-/
structure Source.Unbroken (source : Source) : Prop where
  path : ∀ path ∈ source.files, IsLine path
  name : ∀ m name, Subject.manifestOf source = .ok m → m.name = .ok name → IsLine name
  escape : ∀ path ∈ source.files, PathText.isJson path = true → ∀ content e sequence,
    source.read path = .ok content → Json.parse content = .error e →
      e.fault = .invalidEscape sequence → IsLine sequence

/-- What checkers look at holds no line feed where it would be shown as it is. -/
structure Subject.Unbroken (s : Subject) : Prop where
  access : s.source.ByReading
  entry : ∀ e ∈ s.entries.entries, IsLine e.path
  manifest : ∀ e, s.manifest = .error e → IsLine e.message
  name : ∀ m name, s.manifest = .ok m → m.name = .ok name → IsLine name
  json : ∀ e ∈ s.entries.entries, e.path ∈ s.source.files → e.extension = "json" →
    ∀ content fault, s.source.read e.path = .ok content → Json.parse content = .error fault →
      IsLine fault.message

section Unbroken

variable {source : Source} (hpackage : source.IsPackage) (h : source.Unbroken)
include hpackage h

omit hpackage in
theorem Source.Unbroken.isLine_json {path : String} (hpath : path ∈ source.files)
    (hjson : PathText.isJson path = true) {content : Bytes} {e : JsonError}
    (hread : source.read path = .ok content) (hparse : Json.parse content = .error e) :
    IsLine e.message :=
  JsonError.isLine_message (Json.told_of_read_error hparse)
    fun sequence => h.escape path hpath hjson content e sequence hread hparse

theorem Source.Unbroken.isLine_manifestOf {e : ManifestError}
    (herror : Subject.manifestOf source = .error e) : IsLine e.message := by
  have hmissing : IsLine ManifestError.missing.message := by
    unfold ManifestError.message
    simp [IsLine]
  unfold Subject.manifestOf at herror
  split at herror
  · next hcontains =>
    have hmem := hpackage.byReading.contains _ hcontains
    split at herror
    · next content hread =>
      unfold Manifest.parse at herror
      split at herror
      · next fault hparse =>
        cases herror
        exact isLine_invalid.2 (h.isLine_json hmem (by decide) hread hparse)
      · split at herror
        · cases herror
        · cases herror
          exact isLine_invalid.2 (isLine_mismatch _ .object)
    · cases herror
      exact hmissing
    · next fault _ hread =>
      cases herror
      exact isLine_unreadable (hpackage.byReading.error _ fault (h.path _ hmem) hread)
  · cases herror
    exact hmissing

theorem Source.Unbroken.subject (baselines : Baselines) :
    (Subject.of source baselines).Unbroken := by
  constructor
  · exact hpackage.byReading
  · intro e he
    obtain ⟨hfile | ⟨file, hfile, hancestor⟩, -⟩ := EntrySet.mem_entries_iff.1 he
    · exact h.path _ hfile
    · -- A directory is a part of the path of a file.
      obtain ⟨behind, hsplit⟩ := EntrySet.mem_ancestors_iff.1 hancestor
      have hline := h.path file hfile
      rw [IsLine, hsplit, List.mem_append, not_or] at hline
      exact hline.1
  · exact fun e he => h.isLine_manifestOf hpackage he
  · exact h.name
  · intro e he hfile hextension content fault hread hparse
    refine h.isLine_json hfile ?_ hread hparse
    rw [(EntrySet.mem_entries_iff.1 he).2] at hextension
    exact beq_iff_eq.2 hextension

end Unbroken

/-! ## What checkers say -/

variable {s : Subject}

namespace ManifestRules

variable {n : Node} {problem : String}

theorem isLine_nameProblem (h : nameProblem? n = some problem) : IsLine problem := by
  unfold nameProblem? at h
  split at h
  · next e he =>
    cases h
    exact Node.isLine_of_string_error he
  · split at h
    · cases h
    · cases h
      simp [IsLine, n.isLine_path]

theorem isLine_versionProblem (h : versionProblem? n = some problem) : IsLine problem := by
  unfold versionProblem? at h
  split at h
  · next e he =>
    cases h
    exact Node.isLine_of_string_error he
  · split at h
    · cases h
    · cases h
      simp [IsLine, n.isLine_path, isLine_versionFault]

theorem isLine_platformProblem (h : platformProblem? n = some problem) : IsLine problem := by
  unfold platformProblem? at h
  split at h
  · cases h
  split at h
  · next e he =>
    cases h
    exact Node.isLine_of_string_error he
  · split at h
    · cases h
    · next e he =>
      cases h
      simp [IsLine, n.isLine_path, isLine_of_platform_error he]

theorem isLine_releaseProblem {platform : Node} (h : releaseProblem? n platform = some problem) :
    IsLine problem := by
  unfold releaseProblem? at h
  split at h
  · cases h
  split at h
  · next e he =>
    cases h
    exact Node.isLine_of_string_error he
  · split at h
    · cases h
      simp [IsLine, n.isLine_path, platform.isLine_path]
    · split at h
      · cases h
      · cases h
        simp [IsLine, n.isLine_path]

theorem isLine_dependencyProblem (h : problem ∈ dependencyProblems n) : IsLine problem := by
  unfold dependencyProblems at h
  split at h
  · cases h
  split at h
  · next e he =>
    obtain rfl := List.mem_singleton.1 h
    exact Node.isLine_of_members_error he
  · obtain ⟨member, -, h⟩ := List.mem_filterMap.1 h
    exact isLine_versionProblem h

theorem isLine_problem {root : Node} {problem : CheckId × String} (h : problem ∈ problems root) :
    IsLine problem.2 := by
  simp only [problems, List.mem_append, List.mem_map, Option.mem_toList] at h
  rcases h with (((⟨_, h, rfl⟩ | ⟨_, h, rfl⟩) | ⟨_, h, rfl⟩) | ⟨_, h, rfl⟩) | ⟨_, h, rfl⟩
  · exact isLine_nameProblem h
  · exact isLine_versionProblem h
  · exact isLine_platformProblem h
  · exact isLine_releaseProblem h
  · exact isLine_dependencyProblem h

theorem says_checker (h : s.Unbroken) : checker.Says IsLine s := by
  refine Checker.says_single ?_
  unfold work
  split
  · refine Check.says_forM fun problem hproblem => ?_
    exact Check.says_finding (isLine_problem hproblem) trivial
  · next e he =>
    refine Check.says_bind.2 (Check.says_finding (isLine_invalid.1 (h.manifest _ he)) ?_)
    exact Check.says_leaveOutRest (by simp [IsLine]) trivial
  · next e _ he => exact h.manifest e he

end ManifestRules

namespace SyntaxRules

theorem isLine_problem {e : Entry} {rule : CheckId} {content : Bytes} {problem : String}
    (hjson : e.extension = "json" → ∀ fault, Json.parse content = .error fault →
      IsLine fault.message)
    (hrule : rule? e = some rule) (h : problem? rule content = some problem) : IsLine problem := by
  unfold problem? at h
  split at h
  · next hrule' =>
    split at h
    · cases h
    · next fault hparse =>
      cases h
      -- This rule is that of files named as JSON alone.
      refine hjson ?_ fault hparse
      unfold rule? at hrule
      split at hrule
      · cases hrule
        exact absurd hrule' (by decide)
      · split at hrule
        · next hextension => exact hextension
        · cases hrule
  · split at h
    · cases h
    · next fault hparse =>
      cases h
      exact Yaml.isLine_of_parse_error hparse

theorem says_visit (h : s.Unbroken) {e : Entry} (he : e ∈ s.entries.entries)
    (hfile : e.path ∈ s.source.files) : (visit s e).Says IsLine fun _ => True := by
  have hpath := h.entry e he
  unfold visit
  split
  · next rule hrule =>
    unfold inspect
    refine Check.says_bind.2 (Check.says_ofFile (fun _ => h.access.isLine_size_error hpath) ?_)
    intro size hsize
    split
    · exact Check.says_finding (by simp [IsLine, toString, hpath]) trivial
    · refine Check.says_bind.2 (Check.says_ofFile (fun _ => h.access.error _ _ hpath) ?_)
      intro content hread
      split
      · next problem hproblem =>
        have hjson hextension fault := h.json e he hfile hextension content fault hread
        have hline := isLine_problem hjson hrule hproblem
        exact Check.says_finding (by simp [IsLine, toString, hpath, hline]) trivial
      · trivial
  · trivial

theorem says_checker (h : s.Unbroken) : checker.Says IsLine s := by
  refine Checker.says_of_check (fun _ => True) (fun _ _ => trivial) ?_ (fun _ _ => trivial)
  exact fun e he hfile pass state _ => says_visit h he hfile

end SyntaxRules

namespace IdentityRules

/-- Identifiers that are read, with paths on one line. -/
def Plain (owners : Owners) : Prop :=
  ∀ owner ∈ owners, IsLine owner.1 ∧ IsLine owner.2

theorem isLine_of_isIdentifier {value : String} (h : isIdentifier value = true) : IsLine value := by
  intro hfeed
  have hall := (Bool.and_eq_true_iff.1 h).2
  exact absurd (List.all_eq_true.1 hall _ hfeed) (by decide)

theorem isLine_problem {document : Document} {path problem : String} (hpath : IsLine path)
    (h : identifier document path = .error problem) : IsLine problem := by
  unfold identifier at h
  dsimp only at h
  split at h
  · cases h
    simp [IsLine, toString, hpath]
  split at h
  · next e he =>
    cases h
    simp [IsLine, toString, hpath, Node.isLine_of_string_error he]
  · split at h
    · cases h
    · cases h
      simp [IsLine, hpath]

theorem says_visit (h : s.Unbroken) {e : Entry} (he : e ∈ s.entries.entries) {owners : Owners}
    (howners : Plain owners) : (visit s e owners).Says IsLine Plain := by
  have hpath := h.entry e he
  unfold visit
  split
  · unfold inspect
    refine Check.says_bind.2 (Check.says_ofFile (fun _ => h.access.isLine_size_error hpath) ?_)
    intro size hsize
    split
    · exact howners
    · refine Check.says_bind.2 (Check.says_ofFile (fun _ => h.access.error _ _ hpath) ?_)
      intro content hread
      split
      · exact howners
      · split
        · next value hvalue =>
          have hline := isLine_of_isIdentifier (identifier_eq_ok_iff.1 hvalue).2
          exact List.forall_mem_cons.2 ⟨⟨hline, hpath⟩, howners⟩
        · next problem hproblem =>
          exact Check.says_bind.2 (Check.says_finding (isLine_problem hpath hproblem) howners)
  · exact howners

theorem isLine_duplicate {value paths : String} (hvalue : IsLine value) (hpaths : IsLine paths) :
    IsLine (s!"duplicate guid {value}: " ++ paths) := by
  simp [IsLine, toString, hvalue, hpaths]

theorem says_finish {owners : Owners} (h : Plain owners) :
    (finish owners).Says IsLine fun _ => True := by
  refine Check.says_forM ?_
  rintro ⟨value, paths⟩ hshared
  obtain ⟨hshared, -⟩ := List.mem_filter.1 hshared
  obtain ⟨value', hvalue, hpair⟩ := List.mem_map.1 hshared
  cases hpair
  obtain ⟨owner, howner, rfl⟩ := List.mem_map.1 (Sorted.mem_ofList.1 hvalue)
  have hpaths : ∀ path ∈ pathsOf owners owner.1, IsLine path := by
    intro path hpath
    obtain ⟨other, hother, rfl⟩ := List.mem_map.1 hpath
    exact (h other (List.mem_reverse.1 (List.mem_of_mem_filter hother))).2
  have hlist : IsLine (", ".intercalate (pathsOf owners owner.1)) :=
    .intercalate (by simp [IsLine]) hpaths
  exact Check.says_finding (isLine_duplicate (h owner howner).1 hlist) trivial

theorem says_checker (h : s.Unbroken) : checker.Says IsLine s := by
  -- The duplicates that are told of in the end show what the visits before have collected.
  refine Checker.says_of_check Plain ?_ ?_ fun owners howners => says_finish howners
  · intro owners howners
    cases howners
    exact List.forall_mem_nil _
  · exact fun e he _ pass owners howners => says_visit h he howners

end IdentityRules

namespace BaselineRules

variable {name version : String}

theorem says_checkPublished (baselines : Baselines) (hname : IsLine name)
    (hversion : IsLine version) :
    (checkPublished baselines name version).Says IsLine fun _ => True := by
  unfold checkPublished
  split
  · refine Check.says_bind.2 (Check.says_relyOn (by simp [IsLine, toString, hname, hversion]) ?_)
    exact Check.says_finding (by simp [IsLine, toString, hname, hversion]) trivial
  · trivial
  · exact Check.says_leaveOut (by simp [IsLine, unreachedReason]) trivial

theorem isLine_platform_text (platform : Platform) : IsLine platform.text := by
  simp [IsLine, Platform.text]

theorem says_checkBuiltin (baselines : Baselines) (hname : IsLine name) (platform : Platform) :
    (checkBuiltin baselines name platform).Says IsLine fun _ => True := by
  have hplatform := isLine_platform_text platform
  unfold checkBuiltin
  split
  · refine Check.says_bind.2 (Check.says_relyOn (by simp [IsLine, toString, hplatform]) ?_)
    split
    · exact Check.says_finding (by simp [IsLine, toString, hname, hplatform]) trivial
    · trivial
  · exact Check.says_leaveOut (by simp [IsLine, unreachedReason]) trivial

theorem says_checker (h : s.Unbroken) : checker.Says IsLine s := by
  refine Checker.says_single ?_
  unfold work
  refine Check.says_bind.2 (Check.says_ofManifest h.manifest fun manifest hmanifest => ?_)
  refine Check.says_bind.2 (Check.says_ofManifest (fun _ => Manifest.isLine_of_name_error) ?_)
  intro name hname
  refine Check.says_bind.2 (Check.says_ofManifest (fun _ => Manifest.isLine_of_version_error) ?_)
  intro version hversion
  have hname := h.name manifest name hmanifest hname
  refine Check.says_bind.2 ((says_checkPublished s.baselines hname
    (Manifest.isLine_version_text hversion)).mono fun _ _ => ?_)
  split
  · exact says_checkBuiltin s.baselines hname _
  · exact Check.says_leaveOut (by simp [IsLine, noPlatformReason]) trivial
  · exact Check.says_leaveOut (by simp [IsLine, invalidPlatformReason]) trivial

end BaselineRules

namespace ConsistencyRules

theorem isLine_problem {target : Target} {entries : EntrySet}
    (hentries : ∀ e ∈ entries.entries, IsLine e.path) {problem : CheckId × String}
    (h : problem ∈ problems target entries) : IsLine problem.2 := by
  obtain ⟨e, he, h⟩ := List.mem_filterMap.1 h
  have hpath := hentries e (List.mem_of_mem_filter he)
  unfold problem? at h
  split at h
  · obtain ⟨text, htext, rfl⟩ := Option.map_eq_some_iff.1 h
    have hline : IsLine text := by
      unfold companionProblem? at htext
      split at htext
      · cases htext
        simp [IsLine]
      split at htext
      · cases htext
        simp [IsLine]
      split at htext
      · cases htext
        simp [IsLine]
      split at htext
      · cases htext
        simp [IsLine]
      · cases htext
    simp [IsLine, toString, hline, hpath]
  · split at h
    · cases h
    · cases h
      simp [IsLine, toString, hpath]

theorem says_checker (h : s.Unbroken) : checker.Says IsLine s := by
  refine Checker.says_single (Check.says_forM fun problem hproblem => ?_)
  exact Check.says_finding (isLine_problem h.entry hproblem) trivial

end ConsistencyRules

namespace ConfidentialRules

open Confidential (Index)

variable {e : Entry} {path : String}

theorem says_build (s : Subject) : (build s).Says IsLine fun _ => True := by
  unfold build
  split
  · exact Check.says_bind.2 (Check.says_leaveOutRest (by simp [IsLine, unreachedReason]) trivial)
  · refine Check.says_bind.2 (Check.says_relyOn (by simp [IsLine, indexName]) ?_)
    split
    · trivial
    · exact Check.says_bind.2
        (Check.says_leaveOutRest (by simp [IsLine, invalidIndexReason]) trivial)

theorem says_digestOf (h : s.Unbroken) (hpath : IsLine path) (known : Option FilteredDigest) :
    (digestOf s.source path known).Says IsLine fun _ => True := by
  unfold digestOf
  split
  · trivial
  · refine Check.says_bind.2 (Check.says_ofFile (fun _ => h.access.isLine_openFile_error hpath) ?_)
    intro stream hstream
    rw [h.access.openFile] at hstream
    obtain ⟨content, -, rfl⟩ := map_eq_ok_iff.1 hstream
    -- A stream of a package reaches the end of its file.
    exact Check.says_bind.2 (Check.says_orStop (by rintro _ ⟨⟩) fun _ _ => trivial)

theorem says_search (h : s.Unbroken) (hpath : IsLine path) (size : Nat)
    (known : Option FilteredDigest) (secrets : List Confidential.Secret) :
    (search s.source path size known secrets).Says IsLine fun _ => True := by
  induction secrets generalizing known with
  | nil => trivial
  | cons secret rest ih =>
    rw [search]
    split
    · exact ih known
    · refine Check.says_bind.2 ((says_digestOf h hpath known).mono fun digest _ => ?_)
      split
      · exact Check.says_finding (by simp [IsLine, toString, hpath]) trivial
      · exact ih (some digest)

theorem isLine_textProblem {index : Index} {rules : List Confidential.ContentRule}
    {text : List Char} {problem : String} (hpath : IsLine path)
    (h : problem ∈ textProblems index rules path text) : IsLine problem := by
  rcases List.mem_append.1 h with h | h
  · obtain ⟨rule, -, rfl⟩ := List.mem_map.1 h
    simp [IsLine, hpath]
  · obtain ⟨word, -, rfl⟩ := List.mem_map.1 h
    simp [IsLine, hpath]

theorem says_checkContent (h : s.Unbroken) (hpath : IsLine e.path) (index : Index) (size : Nat) :
    (checkContent index s.source e size).Says IsLine fun _ => True := by
  have hread : (readText s.source e.path size).Says IsLine fun _ => True := by
    unfold readText
    split
    · trivial
    · exact Check.says_bind.2
        (Check.says_ofFile (fun _ => h.access.error _ _ hpath) fun _ _ => trivial)
  unfold checkContent
  dsimp only
  split
  · trivial
  · refine Check.says_bind.2 (hread.mono fun text? _ => ?_)
    split
    · exact Check.says_finding (by simp [IsLine, toString, hpath]) trivial
    · refine Check.says_forM fun problem hproblem => ?_
      exact Check.says_finding (isLine_textProblem hpath hproblem) trivial

theorem says_visit (h : s.Unbroken) (he : e ∈ s.entries.entries) (index : Index) :
    (visit s e index).Says IsLine fun _ => True := by
  have hpath := h.entry e he
  have hpattern : (checkPath index e).Says IsLine fun _ => True := by
    unfold checkPath
    split
    · exact Check.says_finding (by simp [IsLine, toString, hpath]) trivial
    · trivial
  have hhash : ∀ size, (checkHash index s.source e.path size).Says IsLine fun _ => True := by
    intro size
    unfold checkHash
    split
    · trivial
    · exact Check.says_bind.2 (Check.says_ofFile
        (fun _ => h.access.isLine_readStart_error hpath) fun _ _ => says_search h hpath _ _ _)
  unfold visit
  refine Check.says_bind.2 (hpattern.mono fun _ _ => ?_)
  refine Check.says_bind.2 (Check.says_ofFile (fun _ => h.access.isLine_size_error hpath) ?_)
  intro size _
  refine Check.says_bind.2 ((hhash size).mono fun _ _ => ?_)
  exact Check.says_bind.2 ((says_checkContent h hpath index size).mono fun _ _ => trivial)

theorem says_checker (h : s.Unbroken) : checker.Says IsLine s := by
  refine Checker.says_of_check (fun _ => True) ?_ ?_ fun _ _ => trivial
  · exact (says_build s).mono fun _ _ _ _ => trivial
  · exact fun e he _ pass index _ => says_visit h he index

end ConfidentialRules

/-! ## Reports -/

namespace Rules

theorem says_of_mem {c : Checker} (hc : c ∈ checkers) (h : s.Unbroken) : c.Says IsLine s := by
  simp only [checkers, List.mem_cons, List.not_mem_nil, or_false] at hc
  rcases hc with rfl | rfl | rfl | rfl | rfl | rfl
  · exact ManifestRules.says_checker h
  · exact SyntaxRules.says_checker h
  · exact IdentityRules.says_checker h
  · exact BaselineRules.says_checker h
  · exact ConsistencyRules.says_checker h
  · exact ConfidentialRules.says_checker h

theorem isLine_of_mem_checks : ∀ check ∈ checkers.flatMap (·.checks), IsLine check.text := by
  decide +kernel

/--
A run of any of the checkers, without any of their rules, comes to a report on every package. The
text of the report is faithful if and only if all texts in the report are lines, and so it is
whatever else is in a package that puts no line feed into the path of a file, into its name, or into
an escape sequence that JSON does not have.
-/
theorem report_rendered {cs : List Checker} (h : cs.Sublist checkers) {names : List String}
    (hnames : ∀ name ∈ names, ⟨name⟩ ∈ cs.flatMap (·.checks)) {source : Source}
    (hpackage : source.IsPackage) (baselines : Baselines) :
    ∃ base a r, Audit.ofCheckers cs = .ok base ∧ base.exclude names = .ok a ∧
      a.run source baselines = .ok r ∧
      (r.Faithful (cs.flatMap (·.checks)) ↔ r.Texts IsLine) ∧
      (source.Unbroken → r.Faithful (cs.flatMap (·.checks))) := by
  have hreliable : ∀ c ∈ (Audit.mk cs (names.map CheckId.mk)).checkers,
      c.Reliable (.of source baselines) := fun c hc => reliable_of_mem (h.subset hc) _
  have haccept := acceptable_of_sublist h
  have hdeclared : ∀ check ∈ cs.flatMap (·.checks), IsLine check.text := fun check hcheck =>
    isLine_of_mem_checks check ((h.flatMap _).subset hcheck)
  obtain ⟨r, hrun⟩ := Audit.run_of_reliable hreliable
  refine ⟨⟨cs, []⟩, ⟨cs, names.map CheckId.mk⟩, r, Audit.ofCheckers_eq_ok_iff.2 ⟨haccept, rfl⟩,
    Audit.exclude_eq_ok_iff.2 ⟨hnames, rfl⟩, hrun, ?_⟩
  obtain ⟨hconsistent, hskips⟩ := Audit.consistent_of_run haccept hnames hrun
  refine ⟨⟨fun hfaithful => ?_, fun htexts => ?_⟩, fun hunbroken => ?_⟩
  · exact hfaithful.texts hconsistent.skip_nodup hskips
  · exact hconsistent.faithful htexts hdeclared
  · have hsubject := hunbroken.subject hpackage baselines
    have htexts : r.Texts IsLine := Audit.texts_of_run (by simp [IsLine, Audit.excludedReason])
      (fun c hc => says_of_mem (h.subset hc) hsubject) hrun
    exact hconsistent.faithful htexts hdeclared

/-- A package with line feeds in its contents, and with an escape sequence that JSON lacks. -/
def unbrokenPackage : MemoryPackage :=
  ⟨[("a.meta", textBytes "x\n? y"), ("b.json", textBytes "\"\\q\n")]⟩

theorem unbroken_unbrokenPackage : unbrokenPackage.source.Unbroken where
  path := by decide +kernel
  name := by
    have hmissing : Subject.manifestOf unbrokenPackage.source = .error .missing := by rfl
    intro m name hm
    cases hmissing.symm.trans hm
  escape := by
    have hread : unbrokenPackage.source.read "b.json" = .ok (textBytes "\"\\q\n") := by rfl
    have hparse : Json.parse (textBytes "\"\\q\n") = .error ⟨.invalidEscape "\\q", [], 1⟩ := by cbv
    intro path hpath hjson content e sequence hcontent he hfault
    have hpath : path ∈ ["a.meta", "b.json"] := hpath
    obtain rfl | rfl : path = "a.meta" ∨ path = "b.json" := by simpa using hpath
    · exact absurd hjson (by decide)
    · cases hread.symm.trans hcontent
      cases hparse.symm.trans he
      cases hfault
      decide

/-- The report on this package shows the errors in its files, each on one line. -/
theorem report_rendered_unbroken :
    checkers.Sublist checkers ∧ (∀ name ∈ ["PVP-110-1"], ⟨name⟩ ∈ checkers.flatMap (·.checks)) ∧
      unbrokenPackage.source.IsPackage ∧
      ∃ base a r, Audit.ofCheckers checkers = .ok base ∧ base.exclude ["PVP-110-1"] = .ok a ∧
        a.run unbrokenPackage.source .offline = .ok r ∧
        r.Faithful (checkers.flatMap (·.checks)) := by
  have hnames : ∀ name ∈ ["PVP-110-1"], ⟨name⟩ ∈ checkers.flatMap (·.checks) := by decide
  have hpackage : unbrokenPackage.source.IsPackage := .memory _
  obtain ⟨base, a, r, hbase, ha, hrun, -, hfaithful⟩ :=
    report_rendered (List.Sublist.refl checkers) hnames hpackage .offline
  exact ⟨.refl _, hnames, hpackage, base, a, r, hbase, ha, hrun,
    hfaithful unbroken_unbrokenPackage⟩

/-- A package with a file whose path goes on with the line of a rule that is met. -/
def spoofPackage : MemoryPackage :=
  ⟨[("a\npass PVP-102-1", textBytes "x")]⟩

/--
The text of the report on this package says that the rule on missing companions is met. No rule is
told of by that line: the file has no companion, and the rule fails.
-/
theorem report_spoofed :
    MemoryPackage.ofFiles [("a\npass PVP-102-1", textBytes "x")] = .ok spoofPackage ∧
      ∃ a r, Audit.ofCheckers checkers = .ok a ∧ a.run spoofPackage.source .offline = .ok r ∧
        r.outcome? ⟨"PVP-102-1"⟩ = some .fail ∧ "pass PVP-102-1" ∈ endedLines r.render ∧
        ¬ r.Faithful (checkers.flatMap (·.checks)) := by
  let f : Finding := ⟨⟨"PVP-102-1"⟩, "missing companion file: a\npass PVP-102-1"⟩
  have hheld : MemoryPackage.ofFiles [("a\npass PVP-102-1", textBytes "x")] = .ok spoofPackage := by
    decide +kernel
  have hreport : ((Audit.mk checkers []).run spoofPackage.source .offline).map (fun r =>
      (r.outcome? ⟨"PVP-102-1"⟩, decide (f ∈ r.findings),
        decide ("pass PVP-102-1" ∈ r.checks.map r.outcomeLine))) =
        .ok (some .fail, true, false) := by
    decide +kernel
  obtain ⟨r, hrun, hshown⟩ := map_eq_ok_iff.1 hreport
  have hfail : r.outcome? ⟨"PVP-102-1"⟩ = some .fail := congrArg Prod.fst hshown
  have hf : f ∈ r.findings := of_decide_eq_true (congrArg (·.2.1) hshown)
  have hnone : "pass PVP-102-1" ∉ r.checks.map r.outcomeLine :=
    of_decide_eq_false (congrArg (·.2.2) hshown)
  -- The line of the finding falls apart in two.
  have hline : "pass PVP-102-1" ∈ endedLines r.render :=
    Report.mem_endedLines (Report.findingLine_mem_lines hf hfail) (by decide +kernel)
  refine ⟨hheld, ⟨checkers, []⟩, r, Audit.ofCheckers_eq_ok_iff.2 ⟨acceptable_checkers, rfl⟩, hrun,
    hfail, hline, fun hfaithful => hnone ?_⟩
  rw [← hfaithful.outcomes_eq]
  exact List.mem_filter.2 ⟨hline, by decide +kernel⟩

end Rules

end PackageAudit
