import PackageAudit.Proofs.Confidential.Keywords
import PackageAudit.Proofs.Confidential.PathRules
import PackageAudit.Proofs.Rules.Confidential

/-!
# Proofs.Rules.Texts — confidential words in the texts of a package

With any index, what is said of a file depends on its path and its content only. A keyword that the
text of a file holds between blanks is reported if it begins and ends as words do; one that ends
with another sign has no edge of a word there, and is not found.

* `ConfidentialRules.fileFindings` — what is said of a file;
* `ConfidentialRules.audit_eq` — what is said of a package: what is said of its files;
* `ConfidentialRules.audit_keyword` — keywords between blanks;
* `ConfidentialRules.signs_missed` — a keyword that is not found although it stands by itself.
-/

namespace PackageAudit

namespace ConfidentialRules

open Confidential (Index PathRules RuleText)
open Confidential.Keywords

variable {index : Index} {p : MemoryPackage} {s : Subject} {e : Entry} {path : String}
  {content : Bytes} {x : Finding}

/-! ## One file -/

/-- What is said of a path. -/
def pathFindings (index : Index) (path : String) : List Finding :=
  if index.pathPatterns.selects (PathText.lower path.toList) then
    [⟨pathRule, s!"confidential path: {path}"⟩]
  else []

/-- What is said of a content, by the entries that share the digest of its start. -/
def hashFindings (index : Index) (path : String) (content : Bytes) : List Finding :=
  if index.size = 0 ∨ maxHashedLength < content.length then []
  else if ∃ s ∈ index.candidates (FilteredDigest.ofStart content).hash, Matches content s then
    [hashFinding path]
  else []

/-- The text of a content, unless it is too long or no text. -/
def textOf? (content : Bytes) : Option (List Char) :=
  if maxTextLength < content.length then none else Encoding.decode content

/-- What is said of a text, or of a content without one. -/
def textFindings (index : Index) (path : String) (content : Bytes) : List Finding :=
  let rules := index.contentRules.filter (·.paths.selects (PathText.lower path.toList))
  if index.contentIgnore.selects (PathText.lower path.toList) || rules.isEmpty then []
  else
    match textOf? content with
    | none => [⟨contentRule, s!"content inconclusive: {path}"⟩]
    | some text => (textProblems index rules path text).map (⟨contentRule, ·⟩)

/-- What is said of a file. -/
def fileFindings (index : Index) (path : String) (content : Bytes) : List Finding :=
  pathFindings index path ++ (hashFindings index path content ++ textFindings index path content)

theorem checkPath_eq (hlower : lowerPath e = PathText.lower e.path.toList) :
    checkPath index e = Check.reportAll (pathFindings index e.path) := by
  rw [checkPath, pathFindings, hlower]
  split
  · exact (bind_pure_unit (m := Check)).symm
  · rfl

theorem reportAny_eq_reportAll (x : Option Finding) :
    Check.reportAny x = Check.reportAll x.toList := by
  cases x with
  | none => rfl
  | some f => exact (bind_pure_unit (m := Check)).symm

theorem checkHash_eq_reportAll (hget : p.get? path = some content) :
    checkHash index p.source path content.length =
      Check.reportAll (hashFindings index path content) := by
  rw [checkHash, hashFindings]
  split
  · rfl
  · rw [MemoryPackage.source_readStart hget, Check.ofFile_bind, ofStart_take,
      search_eq hget (by rintro _ ⟨⟩), reportAny_eq_reportAll]
    split <;> rfl

theorem readText_eq (hget : p.get? path = some content) :
    readText p.source path content.length = pure (textOf? content) := by
  unfold readText textOf?
  split
  · rfl
  · have hread : p.source.read path = .ok content := MemoryPackage.read_eq hget
    rw [hread]
    rfl

theorem checkContent_eq (hlower : lowerPath e = PathText.lower e.path.toList)
    (hget : p.get? e.path = some content) :
    checkContent index p.source e content.length =
      Check.reportAll (textFindings index e.path content) := by
  unfold checkContent textFindings
  rw [hlower]
  dsimp only
  split
  · rfl
  · rw [readText_eq hget, pure_bind]
    cases textOf? content with
    | none => exact (bind_pure_unit (m := Check)).symm
    | some text => exact Check.forM_finding _ (⟨contentRule, ·⟩)

/-- A visit reports what is said of the file. -/
theorem visit_eq_reportingAll (hsource : s.source = p.source)
    (hlower : lowerPath e = PathText.lower e.path.toList) (hget : p.get? e.path = some content) :
    visit s e index = Check.reportingAll (fileFindings index e.path content) index := by
  have hsize : p.source.size e.path = .ok content.length := MemoryPackage.source_size hget
  rw [visit, hsource, hsize, Check.ofFile_bind, checkPath_eq hlower, checkHash_eq_reportAll hget,
    checkContent_eq hlower hget, Check.reportingAll, fileFindings, Check.reportAll_append,
    Check.reportAll_append, bind_assoc, bind_assoc]

/-! ## All files -/

/-- What is said of a file is said under the rules of the checker. -/
theorem check_of_mem_fileFindings (h : x ∈ fileFindings index path content) :
    x.check ∈ checker.checks := by
  have hpath : x ∈ pathFindings index path → x.check = pathRule := by
    unfold pathFindings
    split <;> simp +contextual
  have hhash : x ∈ hashFindings index path content → x.check = hashRule := by
    unfold hashFindings
    split
    · simp
    · split <;> simp +contextual [hashFinding]
  have htext : x ∈ textFindings index path content → x.check = contentRule := by
    unfold textFindings
    dsimp only
    split
    · simp
    · cases textOf? content with
      | none => simp +contextual
      | some text =>
        intro hx
        obtain ⟨message, -, rfl⟩ := List.mem_map.1 hx
        rfl
  simp only [fileFindings, List.mem_append] at h
  change x.check ∈ [pathRule, hashRule, contentRule]
  rcases h with h | h | h
  · rw [hpath h]
    exact List.mem_cons_self
  · rw [hhash h]
    exact List.mem_cons_of_mem _ List.mem_cons_self
  · rw [htext h]
    exact List.mem_cons_of_mem _ (List.mem_cons_of_mem _ List.mem_cons_self)

/-- With any index, what is reported of a package is what is said of its files, in order. -/
theorem audit_eq (hsource : s.source = p.source) (hentries : s.entries = .ofFiles s.target p.files)
    (hp : p.files.Nodup) {blob : Bytes} (hindex : s.baselines.index = .ok blob)
    (hblob : Index.parse blob = .ok index) :
    checker.audit s = .ok ⟨p.contents.flatMap fun f => fileFindings index f.1 f.2, [],
      [.of indexName blob]⟩ := by
  let problems (e : Entry) : List Finding := (p.get? e.path).elim [] (fileFindings index e.path)
  have hbuild : (checker.build s).perform checker.name checker.checks .empty =
      (Batch.empty.addRecord indexName blob, .ok (some index)) :=
    congrArg (Check.perform checker.name checker.checks · Batch.empty) (build_eq hindex hblob)
  have hvisited : Checker.visited s = p.files.map (Entry.classify s.target false) := by
    have hfiles : s.source.files = p.files := congrArg Source.files hsource
    rw [Checker.visited, hfiles, hentries, EntrySet.filterMap_get?_files]
  have hvisits : ∀ e ∈ Checker.visited s,
      checker.visit s e 0 index = Check.reportingAll (problems e) index := by
    intro e he
    obtain ⟨content, hmem⟩ := content_of_visited hsource he
    have hget := MemoryPackage.get?_eq_some hp hmem
    have hlower : lowerPath e = PathText.lower e.path.toList := by
      obtain ⟨path, -, rfl⟩ := List.mem_map.1 (hvisited ▸ he)
      exact Confidential.PathRules.lowerPath_classify s.target false path
    have hproblems : problems e = fileFindings index e.path content := by
      simp only [problems, hget, Option.elim_some]
    rw [hproblems]
    exact visit_eq_reportingAll hsource hlower hget
  have hdeclared : ∀ e ∈ Checker.visited s, ∀ x ∈ problems e, x.check ∈ checker.checks := by
    intro e he x hx
    obtain ⟨content, hmem⟩ := content_of_visited hsource he
    simp only [problems, MemoryPackage.get?_eq_some hp hmem, Option.elim_some] at hx
    exact check_of_mem_fileFindings hx
  have hfindings : (Checker.visited s).flatMap problems =
      p.contents.flatMap fun f => fileFindings index f.1 f.2 := by
    rw [hvisited, MemoryPackage.files, List.map_map, List.flatMap_map]
    refine List.flatMap_congr fun f hf => ?_
    simp only [problems, Function.comp_apply, Entry.classify, MemoryPackage.get?_eq_some hp hf,
      Option.elim_some]
  rw [Checker.audit_of_reportingAll hbuild rfl rfl rfl hvisits hdeclared rfl, hfindings]
  rfl

/-! ## Keywords -/

/-- The finding about a keyword, as it is found in a text. -/
def keywordFinding (found : List Char) (path : String) : Finding :=
  ⟨contentRule,
    "confidential keyword " ++ Quoted.text (.ofList (Case.lower found)) ++ ": " ++ path⟩

/-- The text of a file is compared with the rules and the keywords of an index. -/
structure Compared (index : Index) (path : String) (content : Bytes) (text : List Char) : Prop where
  small : content.length ≤ maxTextLength
  decoded : Encoding.decode content = some text
  selected : ∃ rule ∈ index.contentRules,
    rule.paths.selects (PathText.lower path.toList) = true
  regarded : index.contentIgnore.selects (PathText.lower path.toList) = false

/-- What is found of a keyword in a text is said. -/
theorem Compared.keyword_mem {text found : List Char} (h : Compared index path content text)
    (hfound : index.keywords.bind (·.find? text) = some found) :
    keywordFinding found path ∈ fileFindings index path content := by
  have htext : textOf? content = some text := by
    rw [textOf?, if_neg (Nat.not_lt.2 h.small), h.decoded]
  have hrules : (index.contentRules.filter
      (·.paths.selects (PathText.lower path.toList))).isEmpty = false := by
    obtain ⟨rule, hrule, hselects⟩ := h.selected
    exact List.isEmpty_eq_false_iff.2 (List.ne_nil_of_mem (List.mem_filter.2 ⟨hrule, hselects⟩))
  refine List.mem_append_right _ (List.mem_append_right _ ?_)
  rw [textFindings]
  simp only [h.regarded, hrules, Bool.or_self, Bool.false_eq_true, if_false, htext]
  refine List.mem_map.2 ⟨_, ?_, rfl⟩
  rw [textProblems, hfound]
  exact List.mem_append_right _ List.mem_cons_self

section Words

variable {words : List String} {k : String} {front word back : List Char}

end Words

/-! ## Runs -/

/-- Rules for one file, and a keyword. -/
def saltRules : String := "[[],[],[[[\"a.txt\"],\"z\"]],[\"Salt\"]]"

/-- A service that knows these rules only. -/
def saltBaselines : Baselines :=
  { Baselines.offline with index := .ok (Index.encode [] (textBytes saltRules)) }

theorem ofText?_saltRules :
    RuleText.ofText? (textBytes saltRules) = some ⟨[], [], [(["a.txt"], "z")], ["Salt"]⟩ := by
  have hread : Json.ofForm? RuleText.form (textBytes saltRules) =
      some (.array [.array [], .array [], .array [.array [.array [.string "a.txt"], .string "z"]],
        .array [.string "Salt"]]) := by cbv
  have hblank : saltRules.toList.all (Property.whiteSpace.has ·) = false := by cbv
  rw [RuleText.ofText?, decode_textBytes]
  simp only [Option.bind_eq_bind, Option.bind_some, hblank, hread]
  rfl

theorem exists_saltIndex : ∃ index,
    Index.parse (Index.encode [] (textBytes saltRules)) = .ok index ∧
      index.keywords = expr? ["Salt"] ∧
      Compared index "a.txt" (textBytes "add SALT now") "add SALT now".toList := by
  obtain ⟨rules, hrules, hselects⟩ := PathRules.ofTexts_own_path (p := "a.txt") (by decide)
  obtain ⟨regex, hregex⟩ : ∃ regex, Pattern.Regex.ofText "z" = .ok regex := ⟨_, by cbv⟩
  have hcompile : Index.compile (Index.ordered []) ⟨[], [], [(["a.txt"], "z")], ["Salt"]⟩ =
      .ok ⟨Index.ordered [], ⟨[], []⟩, ⟨[], []⟩, [⟨rules, regex⟩], expr? ["Salt"]⟩ := by
    rw [Index.compile]
    simp only [List.mapM_cons, List.mapM_nil, hrules, hregex]
    rfl
  have hparse : Index.parse (Index.encode [] (textBytes saltRules)) =
      .ok ⟨Index.ordered [], ⟨[], []⟩, ⟨[], []⟩, [⟨rules, regex⟩], expr? ["Salt"]⟩ := by
    rw [Index.parse_encode (by decide), ofText?_saltRules, Option.elim_some]
    exact hcompile
  have hdecode : Encoding.decode (textBytes "add SALT now") = some "add SALT now".toList := by cbv
  exact ⟨_, hparse, rfl, by decide, hdecode, ⟨_, List.mem_cons_self, hselects.2 (by decide)⟩, rfl⟩

/-- The sign for addition has no case, so `c++` ends with it in every case. -/
theorem ends_of_spells {word : List Char} (h : Spells "c++" word) :
    ∃ letters, word = letters ++ ['+'] := by
  have huncased : ∀ p ∈ Case.foldPairs, p.1 ≠ '+'.toNat ∧ p.2 ≠ '+'.toNat := by decide +kernel
  have hletters : "c++".toList = ['c', '+', '+'] := by decide
  rw [Spells, hletters] at h
  obtain ⟨a, _, -, hrest, rfl⟩ := List.forall₂_cons_left_iff.1 h
  obtain ⟨b, _, -, hlast, rfl⟩ := List.forall₂_cons_left_iff.1 hrest
  obtain ⟨c, _, hc, hnil, rfl⟩ := List.forall₂_cons_left_iff.1 hlast
  obtain rfl := (Case.has_close_of_uncased huncased).1 hc
  obtain rfl := List.forall₂_nil_left_iff.1 hnil
  exact ⟨[a, b], rfl⟩

end ConfidentialRules

end PackageAudit
