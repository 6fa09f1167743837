import Mathlib.Data.List.Pairwise
import PackageAudit.Proofs.Package.Entries
import PackageAudit.Proofs.Rules.Identity
import PackageAudit.Proofs.Rules.Owners
import PackageAudit.Rules.Registry

/-!
# Proofs.Rules.Duplicates — identifiers that several files declare

The files of a package are visited one after the other, and the identifiers that they declare are
kept with their paths. In the end those are reported that were kept more than once. So what is
reported depends on the files alone:

* `Source.Declares` — a file declares an identifier, said without the checker;
* `IdentityRules.pathsOf_ownersOf` — what is kept in the end are the files that declare it;
* `IdentityRules.nodup_duplicates` — no two identifiers are reported in the same words;
* `Report.TellsDuplicates` — a report with one finding for each identifier of several files;
* `Rules.report_tellsDuplicates` — every report by the rules on identifiers is one.
-/

namespace PackageAudit

/-! ## Files that declare an identifier -/

/-- A visible companion file that is short enough and a document declares an identifier. -/
structure Source.Declares (source : Source) (value path : String) : Prop where
  visible : PathText.isHidden path.toList = false
  companion : ∃ asset : String, path = asset ++ ".meta"
  document : ∃ size content document, source.size path = .ok size ∧ size ≤ maxDocumentLength ∧
    source.read path = .ok content ∧ Yaml.parse content = .ok document ∧
    (document.rootNode.get "guid").string = .ok value
  identifier : IdentityRules.Identifier value.toList

namespace IdentityRules

variable {s : Subject} {source : Source} {target : Target} {value value' path : String}
  {paths paths' : List String}

theorem isIdentifier_iff : isIdentifier value = true ↔ Identifier value.toList := by
  constructor
  · intro h
    rw [isIdentifier, Bool.and_eq_true, beq_iff_eq, List.all_eq_true] at h
    refine ⟨h.1, fun c hc => ?_⟩
    simpa [Yaml.HexChar] using h.2 c hc
  · intro h
    have hgood := h.isIdentifier
    rwa [String.ofList_toList] at hgood

/-- A file is kept as an owner of the identifier that it declares. -/
theorem owner?_classify_iff :
    owner? source (.classify target false path) = some (value, path) ↔
      source.Declares value path := by
  let e := Entry.classify target false path
  have hcompanion : e.isCompanion = true ↔ ∃ asset : String, path = asset ++ ".meta" :=
    Entry.isCompanion_iff
  rw [owner?_eq_some_iff]
  constructor
  · rintro ⟨_, hdeclared, ⟨⟩⟩
    unfold declared? at hdeclared
    split at hdeclared
    · next hfile =>
      rw [Bool.and_eq_true, Bool.not_eq_true'] at hfile
      rcases Option.map_eq_some_iff.1 hdeclared with ⟨document, hdocument, hid⟩
      rcases Source.document?_eq_some_iff.1 hdocument with
        ⟨size, content, hsize, hshort, hread, hparse⟩
      rcases identifier_eq_ok_iff.1 hid with ⟨hvalue, hgood⟩
      exact ⟨hfile.2, hcompanion.1 hfile.1,
        ⟨size, content, document, hsize, hshort, hread, hparse, hvalue⟩, isIdentifier_iff.1 hgood⟩
    · cases hdeclared
  · rintro ⟨hvisible, hname, ⟨size, content, document, hsize, hshort, hread, hparse, hvalue⟩, hid⟩
    refine ⟨value, ?_, rfl⟩
    have hdocument : source.document? e.path = some document :=
      Source.document?_eq_some_iff.2 ⟨size, content, hsize, hshort, hread, hparse⟩
    rw [declared?_of_companion (hcompanion.2 hname) hvisible, hdocument, Option.map_some,
      identifier_eq_ok_iff.2 ⟨hvalue, isIdentifier_iff.2 hid⟩]

instance : Decidable (source.Declares value path) :=
  decidable_of_iff (owner? source (.classify ⟨none⟩ false path) = some (value, path))
    owner?_classify_iff

end IdentityRules

/-- The files of a package that declare an identifier, in the order of the package. -/
def Source.owners (source : Source) (value : String) : List String :=
  source.files.filter fun path => source.Declares value path

namespace IdentityRules

variable {s : Subject} {source : Source} {target : Target} {value value' path : String}
  {paths paths' : List String}

/-! ## What is kept -/

/-- The owners are those of the files one after the other, the last one first. -/
theorem ownersOf_eq (s : Subject) :
    ownersOf s = ((Checker.visited s).filterMap (owner? s.source)).reverse := by
  suffices hfrom : ∀ (l : List Entry) (owners : Owners),
      l.foldl (fun owners e => (owner? s.source e).toList ++ owners) owners =
        (l.filterMap (owner? s.source)).reverse ++ owners by
    rw [ownersOf, hfrom, List.append_nil]
  intro l
  induction l with
  | nil => exact fun _ => rfl
  | cons e l ih =>
    intro owners
    rw [List.foldl_cons, ih]
    cases howner : owner? s.source e with
    | none => rw [List.filterMap_cons_none howner, Option.toList_none, List.nil_append]
    | some owner =>
      rw [List.filterMap_cons_some howner, List.reverse_cons, List.append_assoc]
      rfl

/-- Every file is visited once for each time that it is listed. -/
theorem visited_eq (hentries : s.entries = .ofFiles target s.source.files) :
    Checker.visited s = s.source.files.map (Entry.classify target false) := by
  rw [Checker.visited, hentries, EntrySet.filterMap_get?_files]

/-- Of a file its path is kept under the identifier that it declares, and under no other one. -/
theorem map_filter_owner? :
    ((owner? source (.classify target false path)).filter (·.1 == value)).map Prod.snd =
      Option.guard (fun path => decide (source.Declares value path)) path := by
  by_cases hdeclares : source.Declares value path
  · rw [owner?_classify_iff.2 hdeclares, Option.guard, decide_eq_true hdeclares]
    simp
  · rw [Option.guard, decide_eq_false hdeclares, if_neg Bool.false_ne_true,
      Option.map_eq_none_iff, Option.filter_eq_none_iff]
    rintro owner howner hvalue
    rw [beq_iff_eq] at hvalue
    subst hvalue
    rcases owner?_eq_some_iff.1 howner with ⟨_, -, rfl⟩
    exact hdeclares (owner?_classify_iff.1 howner)

/-- The paths that are kept under an identifier are the files that declare it. -/
theorem pathsOf_ownersOf (hentries : s.entries = .ofFiles target s.source.files)
    (value : String) : pathsOf (ownersOf s) value = s.source.owners value := by
  calc pathsOf (ownersOf s) value
      = s.source.files.filterMap fun path =>
          ((owner? s.source (.classify target false path)).filter (·.1 == value)).map Prod.snd := by
        rw [pathsOf, ownersOf_eq, List.reverse_reverse, visited_eq hentries, List.filterMap_map,
          List.filter_filterMap, List.map_filterMap]
        rfl
    _ = s.source.files.filterMap
          (Option.guard fun path => decide (s.source.Declares value path)) :=
        List.filterMap_congr fun _ _ => map_filter_owner?
    _ = s.source.owners value := by rw [List.filterMap_eq_filter, Source.owners]

/-- The identifiers that are kept more than once. -/
def sharedValues (owners : Owners) : List String :=
  (Sorted.ofList (owners.map Prod.fst)).filter fun value => 1 < (pathsOf owners value).length

theorem shared_eq (owners : Owners) :
    shared owners = (sharedValues owners).map fun value => (value, pathsOf owners value) :=
  List.filter_map ..

theorem sharedValues_ascending (owners : Owners) : (sharedValues owners).Pairwise (· < ·) :=
  (Sorted.ofList_ascending _).sublist List.filter_sublist

theorem mem_sharedValues_iff {owners : Owners} :
    value ∈ sharedValues owners ↔ 1 < (pathsOf owners value).length := by
  rw [sharedValues, List.mem_filter, decide_eq_true_iff]
  refine and_iff_right_of_imp fun hmany => ?_
  -- an identifier that was not kept at all was not kept twice
  obtain ⟨path, hpath⟩ := List.exists_mem_of_length_pos (Nat.zero_lt_of_lt hmany)
  exact Sorted.mem_ofList.2 (List.mem_map_of_mem (mem_pathsOf_iff.1 hpath))

/-! ## What is reported -/

/-- Identifiers are of one length, so the words that name them tell them apart. -/
theorem eq_of_duplicate_eq (h : Identifier value.toList) (h' : Identifier value'.toList)
    (heq : duplicate value paths = duplicate value' paths') : value = value' := by
  have hmessage := congrArg String.toList (Finding.mk.inj heq).2
  simp only [String.toList_append, List.append_assoc] at hmessage
  have hbehind := List.append_cancel_left hmessage
  exact String.toList_injective (List.append_inj_left hbehind (h.length.trans h'.length.symm))

theorem identifier_of_mem_sharedValues (hvalue : value ∈ sharedValues (ownersOf s)) :
    Identifier value.toList := by
  have hkept := Sorted.mem_ofList.1 (List.mem_filter.1 hvalue).1
  rcases List.mem_map.1 hkept with ⟨owner, howner, rfl⟩
  rw [ownersOf_eq, List.mem_reverse, List.mem_filterMap] at howner
  rcases howner with ⟨e, -, he⟩
  rcases owner?_eq_some_iff.1 he with ⟨value, hdeclared, rfl⟩
  unfold declared? at hdeclared
  split at hdeclared
  · rcases Option.map_eq_some_iff.1 hdeclared with ⟨document, -, hid⟩
    exact isIdentifier_iff.1 (identifier_eq_ok_iff.1 hid).2
  · cases hdeclared

theorem duplicates_eq (owners : Owners) :
    duplicates owners =
      (sharedValues owners).map fun value => duplicate value (pathsOf owners value) := by
  rw [duplicates, shared_eq, List.map_map]
  rfl

theorem nodup_duplicates (s : Subject) : (duplicates (ownersOf s)).Nodup := by
  rw [duplicates_eq]
  refine List.Nodup.map_on (fun value hvalue value' hvalue' heq => ?_)
    ((sharedValues_ascending _).imp ne_of_lt)
  exact eq_of_duplicate_eq (identifier_of_mem_sharedValues hvalue)
    (identifier_of_mem_sharedValues hvalue') heq

/-- The findings about identifiers of several files are those of the end. -/
theorem filter_result (s : Subject) :
    ((Checker.visited s).filterMap (found? s.source) ++ duplicates (ownersOf s)).filter
        (·.check == uniqueRule) =
      duplicates (ownersOf s) := by
  have hother : formatRule ≠ uniqueRule := by decide
  have hfirst : ((Checker.visited s).filterMap (found? s.source)).filter
      (·.check == uniqueRule) = [] := by
    rw [List.filter_eq_nil_iff]
    intro f hf
    obtain ⟨e, -, hfound⟩ := List.mem_filterMap.1 hf
    rcases found?_eq_some_iff.1 hfound with ⟨problem, -, rfl⟩
    rwa [beq_iff_eq]
  have hlast : (duplicates (ownersOf s)).filter (·.check == uniqueRule) =
      duplicates (ownersOf s) := by
    rw [List.filter_eq_self, duplicates_eq]
    intro f hf
    obtain ⟨value, -, rfl⟩ := List.mem_map.1 hf
    exact beq_self_eq_true uniqueRule
  rw [List.filter_append, hfirst, hlast, List.nil_append]

end IdentityRules

/-! ## Reports -/

section Reports

open IdentityRules

/-- A report that tells of every identifier that several files of a package declare. -/
structure Report.TellsDuplicates (r : Report) (source : Source) : Prop where
  /-- Each of them has one finding, which names its files in the order of the package. -/
  findings : ∃ values : List String, values.Pairwise (· < ·) ∧
    (∀ value, value ∈ values ↔ 2 ≤ (source.owners value).length) ∧
    r.findingsFor uniqueRule = values.map fun value => duplicate value (source.owners value)
  /-- There is none if and only if no two files declare the same. -/
  none_iff : r.findingsFor uniqueRule = [] ↔
    source.files.Pairwise fun p q => ∀ value, source.Declares value p → ¬ source.Declares value q
  /-- In a package that lists each file once these are two different files. -/
  none_iff_injective : source.files.Nodup → (r.findingsFor uniqueRule = [] ↔
    ∀ p ∈ source.files, ∀ q ∈ source.files, ∀ value,
      source.Declares value p → source.Declares value q → p = q)

theorem length_lt_two_iff {α : Type} {l : List α} :
    l.length < 2 ↔ l.Pairwise fun _ _ => False := by
  rcases l with _ | ⟨a, _ | ⟨b, l⟩⟩
  · exact iff_of_true (by decide : 0 < 2) .nil
  · exact iff_of_true (by decide : 1 < 2) (List.pairwise_singleton _ a)
  · refine iff_of_false (by simp) fun h => ?_
    exact List.rel_of_pairwise_cons h (List.mem_cons_self (l := l))

/-- No identifier has two owners if and only if no two files declare the same one. -/
theorem Source.owners_lt_two_iff {source : Source} :
    (∀ value, (source.owners value).length < 2) ↔
      source.files.Pairwise fun p q =>
        ∀ value, source.Declares value p → ¬ source.Declares value q := by
  simp only [Source.owners, length_lt_two_iff, List.pairwise_filter, decide_eq_true_eq]
  simp only [List.pairwise_iff_forall_sublist]
  exact ⟨fun h p q hpq value => h value hpq, fun h value p q hpq => h hpq value⟩

/-- In a list without repetition no two files do what at most one file does. -/
theorem Source.pairwise_declares_iff {source : Source} (h : source.files.Nodup) :
    (source.files.Pairwise fun p q =>
        ∀ value, source.Declares value p → ¬ source.Declares value q) ↔
      ∀ p ∈ source.files, ∀ q ∈ source.files, ∀ value,
        source.Declares value p → source.Declares value q → p = q := by
  constructor
  · intro hpairs p hp q hq value hdeclares hdeclares'
    by_contra hne
    have : Std.Symm fun p q =>
        ∀ value, source.Declares value p → ¬ source.Declares value q :=
      ⟨fun _ _ hother value hq hp => hother value hp hq⟩
    exact hpairs.forall hp hq hne value hdeclares hdeclares'
  · intro hinjective
    refine h.imp_of_mem fun {p q} hp hq hne value hdeclares hdeclares' => ?_
    exact hne (hinjective p hp q hq value hdeclares hdeclares')

/--
Every report by the rules on identifiers, together with any others, tells of every identifier that
several files declare, for every package whose files can be used.
-/
theorem Rules.report_tellsDuplicates {cs : List Checker} (h : cs.Sublist checkers)
    (hidentity : IdentityRules.checker ∈ cs) {source : Source} (hsource : source.Readable)
    (baselines : Baselines) :
    ∃ a r, Audit.ofCheckers cs = .ok a ∧ a.run source baselines = .ok r ∧
      r.TellsDuplicates source := by
  obtain ⟨a, r, ha, hrun, hshares⟩ := report_of_sublist h source baselines
  obtain ⟨result, haudit, hshows⟩ := hshares _ hidentity
  refine ⟨a, r, ha, hrun, ?_⟩
  let s := Subject.of source baselines
  have hpaths : ∀ value, pathsOf (ownersOf s) value = source.owners value :=
    pathsOf_ownersOf (s := s) rfl
  have hfindings : r.findingsFor uniqueRule =
      (sharedValues (ownersOf s)).map fun value => duplicate value (source.owners value) := by
    obtain rfl := Except.ok.inj (haudit.symm.trans (audit_eq (s := s) hsource).1)
    rw [hshows.findingsFor_eq (by decide), filter_result, eraseDups_of_nodup (nodup_duplicates s),
      duplicates_eq]
    simp only [hpaths]
  have hmem : ∀ value, value ∈ sharedValues (ownersOf s) ↔ 2 ≤ (source.owners value).length := by
    intro value
    rw [mem_sharedValues_iff, hpaths]
    rfl
  have hnone : r.findingsFor uniqueRule = [] ↔ ∀ value, (source.owners value).length < 2 := by
    rw [hfindings, List.map_eq_nil_iff, List.eq_nil_iff_forall_not_mem]
    simp only [hmem, Nat.not_le]
  constructor
  · exact ⟨_, sharedValues_ascending _, hmem, hfindings⟩
  · rw [hnone, Source.owners_lt_two_iff]
  · intro hnodup
    rw [hnone, Source.owners_lt_two_iff, Source.pairwise_declares_iff hnodup]

/-- Three companion files, two of which declare the same identifier. -/
def twinPackage : MemoryPackage :=
  ⟨[("a.meta", textBytes "guid: 0123456789abcdef0123456789abcdef\n"),
    ("b.meta", textBytes "guid: fedcba9876543210fedcba9876543210\n"),
    ("m/n.meta", textBytes "guid: 0123456789abcdef0123456789abcdef\n")]⟩

/-- The two files are named together. -/
theorem Rules.report_tellsDuplicates_twin :
    let source := twinPackage.source
    [IdentityRules.checker].Sublist checkers ∧ source.Readable ∧
      ∃ a r, Audit.ofCheckers [IdentityRules.checker] = .ok a ∧ a.run source .offline = .ok r ∧
        duplicate "0123456789abcdef0123456789abcdef" ["a.meta", "m/n.meta"] ∈
          r.findingsFor uniqueRule := by
  intro source
  have hsub : [IdentityRules.checker].Sublist checkers := by
    rw [List.singleton_sublist]
    simp [checkers]
  have hsource : source.Readable := twinPackage.readable
  obtain ⟨a, r, ha, hrun, htells⟩ :=
    report_tellsDuplicates hsub List.mem_cons_self hsource .offline
  obtain ⟨values, -, hmem, hfindings⟩ := htells.findings
  have howners : source.owners "0123456789abcdef0123456789abcdef" = ["a.meta", "m/n.meta"] := by
    decide +kernel
  refine ⟨hsub, hsource, a, r, ha, hrun, ?_⟩
  rw [hfindings, ← howners]
  refine List.mem_map_of_mem ((hmem _).2 ?_)
  rw [howners]
  decide

end Reports

end PackageAudit
