import PackageAudit.Proofs.Package.Entries
import PackageAudit.Proofs.Rules.Owners
import PackageAudit.Rules.Registry

/-!
# Proofs.Rules.Companions — every companion file is accounted for

Two checkers look at companion files. One reports those that are no documents, the other one reports
those without an identifier and compares the identifiers of all others. Where a file is no document
the second one keeps silent, so it must find this in the same cases as the first:

* `Disposition`, `Report.Disposes` — what becomes of a companion file;
* `disposes_iff` — its document alone decides what becomes of it;
* `Report.AccountsForCompanions` — a report in which exactly one thing becomes of each;
* `Rules.report_accountsForCompanions` — every report by both checkers is one.
-/

namespace PackageAudit

/-! ## What becomes of a companion file -/

/-- What can become of a companion file. -/
inductive Disposition where
  /-- That it cannot be read is reported. -/
  | illegible
  /-- That it declares no identifier is reported. -/
  | unidentified
  /-- Its identifier is compared with those of the other files. -/
  | identified

/-- What is to become of a companion file by its document. -/
def Disposition.of (document? : Option Document) (path : String) : Disposition :=
  match document? with
  | none => .illegible
  | some document =>
    match IdentityRules.identifier document path with
    | .error _ => .unidentified
    | .ok _ => .identified

section OfDocument

variable {document? : Option Document} {path : String}

theorem Disposition.illegible_eq_of_iff : illegible = .of document? path ↔ document? = none := by
  rcases document? with _ | document
  · exact iff_of_true rfl rfl
  · cases hid : IdentityRules.identifier document path <;> simp [of, hid]

theorem Disposition.unidentified_eq_of_iff : unidentified = .of document? path ↔
    ∃ document problem, document? = some document ∧
      IdentityRules.identifier document path = .error problem := by
  rcases document? with _ | document
  · simp [of]
  · cases hid : IdentityRules.identifier document path <;> simp [of, hid]

theorem Disposition.identified_eq_of_iff : identified = .of document? path ↔
    ∃ document value, document? = some document ∧
      IdentityRules.identifier document path = .ok value := by
  rcases document? with _ | document
  · simp [of]
  · cases hid : IdentityRules.identifier document path <;> simp [of, hid]

end OfDocument

/--
What became of a companion file. A finding is about the file if a visit to this file reports it;
that a file is compared is to say that it is among the owners of its identifier.
-/
def Report.Disposes (r : Report) (s : Subject) (owners : IdentityRules.Owners) (e : Entry) :
    Disposition → Prop
  | .illegible => ∃ f ∈ r.findingsFor SyntaxRules.companionRule,
    SyntaxRules.visit s e = Check.reporting (some f) ()
  | .unidentified => ∃ f ∈ r.findingsFor IdentityRules.formatRule,
    ∀ owners, IdentityRules.visit s e owners = Check.reporting (some f) owners
  | .identified => ∃ content document value, s.source.read e.path = .ok content ∧
    Yaml.parse content = .ok document ∧ (document.rootNode.get "guid").string = .ok value ∧
    IdentityRules.isIdentifier value = true ∧ e.path ∈ IdentityRules.pathsOf owners value

section Dispositions

open IdentityRules (ownersOf identifier)

variable {r : Report} {s : Subject} {e : Entry} {result : BatchResult}
  {owners : IdentityRules.Owners} (hsource : s.source.Readable) (he : e ∈ Checker.visited s)
  (hcompanion : e.isCompanion = true)
include hsource he hcompanion

theorem disposes_illegible_iff (haudit : SyntaxRules.checker.audit s = .ok result)
    (hshows : r.Shows SyntaxRules.checker result) :
    r.Disposes s owners e .illegible ↔ s.source.document? e.path = none := by
  obtain rfl := Except.ok.inj (haudit.symm.trans (SyntaxRules.audit_eq hsource))
  rw [← SyntaxRules.exists_found?_iff hsource he hcompanion]
  constructor
  · rintro ⟨f, -, hvisit⟩
    rw [SyntaxRules.visit_eq hsource he] at hvisit
    exact ⟨f, Check.reporting_inj hvisit⟩
  · rintro ⟨f, hf⟩
    refine ⟨f, (hshows.mem_findingsFor_iff (by decide)).2 ⟨?_, ?_⟩, ?_⟩
    · exact List.mem_filterMap.2 ⟨e, he, hf⟩
    · exact SyntaxRules.check_of_found? hcompanion hf
    · rw [SyntaxRules.visit_eq hsource he, hf]

variable (hvisible : e.isHidden = false)
include hvisible

theorem disposes_unidentified_iff (haudit : IdentityRules.checker.audit s = .ok result)
    (hshows : r.Shows IdentityRules.checker result) :
    r.Disposes s owners e .unidentified ↔ ∃ document problem,
      s.source.document? e.path = some document ∧ identifier document e.path = .error problem := by
  obtain rfl := Except.ok.inj (haudit.symm.trans (IdentityRules.audit_eq hsource).1)
  have hdeclared : IdentityRules.declared? s.source e = _ :=
    IdentityRules.declared?_of_companion hcompanion hvisible
  constructor
  · rintro ⟨f, -, hvisit⟩
    have hfound := hvisit []
    rw [IdentityRules.visit_eq hsource he] at hfound
    rcases IdentityRules.found?_eq_some_iff.1 (Check.reporting_inj hfound) with ⟨problem, hwrong, -⟩
    rcases Option.map_eq_some_iff.1 (hdeclared.symm.trans hwrong) with ⟨document, hdocument, hid⟩
    exact ⟨document, problem, hdocument, hid⟩
  · rintro ⟨document, problem, hdocument, hproblem⟩
    rw [hdocument, Option.map_some, hproblem] at hdeclared
    have hfound : IdentityRules.found? s.source e = some ⟨IdentityRules.formatRule, problem⟩ :=
      IdentityRules.found?_eq_some_iff.2 ⟨problem, hdeclared, rfl⟩
    have howner : IdentityRules.owner? s.source e = none := by
      rw [IdentityRules.owner?, hdeclared]
    refine ⟨⟨IdentityRules.formatRule, problem⟩,
      (hshows.mem_findingsFor_iff (by decide)).2 ⟨?_, rfl⟩, fun owners => ?_⟩
    · exact List.mem_append_left _ (List.mem_filterMap.2 ⟨e, he, hfound⟩)
    · rw [IdentityRules.visit_eq hsource he, hfound, howner]
      rfl

omit hsource in
theorem disposes_identified_iff :
    r.Disposes s (ownersOf s) e .identified ↔ ∃ document value,
      s.source.document? e.path = some document ∧ identifier document e.path = .ok value := by
  have hdeclared : IdentityRules.declared? s.source e = _ :=
    IdentityRules.declared?_of_companion hcompanion hvisible
  have howner (value : String) : e.path ∈ IdentityRules.pathsOf (ownersOf s) value ↔
      IdentityRules.owner? s.source e = some (value, e.path) :=
    IdentityRules.mem_pathsOf_iff.trans (IdentityRules.mem_ownersOf_iff he)
  constructor
  · rintro ⟨-, -, value, -, -, -, -, howned⟩
    rcases IdentityRules.owner?_eq_some_iff.1 ((howner value).1 howned) with ⟨kept, hkept, -⟩
    rcases Option.map_eq_some_iff.1 (hdeclared.symm.trans hkept) with ⟨document, hdocument, hid⟩
    exact ⟨document, kept, hdocument, hid⟩
  · rintro ⟨document, value, hdocument, hid⟩
    rcases Source.document?_eq_some_iff.1 hdocument with ⟨size, content, -, -, hread, hparse⟩
    rcases IdentityRules.identifier_eq_ok_iff.1 hid with ⟨hvalue, hgood⟩
    rw [hdocument, Option.map_some, hid] at hdeclared
    have howned := IdentityRules.owner?_eq_some_iff.2 ⟨value, hdeclared, rfl⟩
    exact ⟨content, document, value, hread, hparse, hvalue, hgood, (howner value).2 howned⟩

/-- Whatever can become of the file, becomes of it if its document decides so. -/
theorem disposes_iff {syntaxResult identityResult : BatchResult}
    (hlegible : SyntaxRules.checker.audit s = .ok syntaxResult)
    (hshowsLegible : r.Shows SyntaxRules.checker syntaxResult)
    (hidentity : IdentityRules.checker.audit s = .ok identityResult)
    (hshowsIdentity : r.Shows IdentityRules.checker identityResult) (d : Disposition) :
    r.Disposes s (ownersOf s) e d ↔ d = .of (s.source.document? e.path) e.path := by
  cases d with
  | illegible =>
    rw [disposes_illegible_iff hsource he hcompanion hlegible hshowsLegible]
    exact Disposition.illegible_eq_of_iff.symm
  | unidentified =>
    rw [disposes_unidentified_iff hsource he hcompanion hvisible hidentity hshowsIdentity]
    exact Disposition.unidentified_eq_of_iff.symm
  | identified =>
    rw [disposes_identified_iff he hcompanion hvisible]
    exact Disposition.identified_eq_of_iff.symm

end Dispositions

/-! ## Reports -/

/-- A report in which every visible companion file is accounted for. -/
structure Report.AccountsForCompanions (r : Report) (s : Subject) (owners : IdentityRules.Owners) :
    Prop where
  /-- The identifiers that are compared in the end are those of the owners. -/
  ending : IdentityRules.checker.EndsWith s owners
  duplicates : ∀ f, f ∈ r.findingsFor IdentityRules.uniqueRule ↔
    ∃ many ∈ IdentityRules.shared owners, f = IdentityRules.duplicate many.1 many.2
  /-- Exactly one thing becomes of each file. -/
  disposition : ∀ e ∈ s.entries.entries, e.IsCompanionFile → ∃! d, r.Disposes s owners e d
  illegible_iff : ∀ e ∈ s.entries.entries, e.IsCompanionFile →
    (r.Disposes s owners e .illegible ↔ s.source.Illegible e.path)
  unidentified_iff : ∀ e ∈ s.entries.entries, e.IsCompanionFile →
    (r.Disposes s owners e .unidentified ↔ s.source.Unidentified e.path)

/--
Every report by the rules on syntax and on identifiers, together with any others, accounts for every
visible companion file of a package whose files can be used.
-/
theorem Rules.report_accountsForCompanions {cs : List Checker} (h : cs.Sublist checkers)
    (hlegible : SyntaxRules.checker ∈ cs) (hidentity : IdentityRules.checker ∈ cs)
    {source : Source} (hsource : source.Readable) (baselines : Baselines) :
    ∃ a r owners, Audit.ofCheckers cs = .ok a ∧ a.run source baselines = .ok r ∧
      r.AccountsForCompanions (.of source baselines) owners := by
  obtain ⟨a, r, ha, hrun, hshares⟩ := report_of_sublist h source baselines
  obtain ⟨first, hfirst, hshowsFirst⟩ := hshares _ hlegible
  obtain ⟨second, hsecond, hshowsSecond⟩ := hshares _ hidentity
  let s := Subject.of source baselines
  have hvisited : ∀ e ∈ s.entries.entries, e.IsCompanionFile → e ∈ Checker.visited s :=
    fun e he hfile => Checker.mem_visited_iff.2
      ⟨EntrySet.mem_files_of_file he hfile.file, EntrySet.get?_eq_some_iff.2 ⟨he, rfl⟩⟩
  have hending := (IdentityRules.audit_eq (s := s) hsource).2
  refine ⟨a, r, IdentityRules.ownersOf s, ha, hrun, hending, ?_, ?_, ?_, ?_⟩
  · intro f
    obtain rfl := Except.ok.inj (hsecond.symm.trans (IdentityRules.audit_eq hsource).1)
    rw [hshowsSecond.mem_findingsFor_iff (by decide)]
    exact IdentityRules.mem_result_iff
  · intro e he hfile
    have hiff := disposes_iff hsource (hvisited e he hfile) hfile.companion hfile.visible hfirst
      hshowsFirst hsecond hshowsSecond
    exact ⟨_, (hiff _).2 rfl, fun d hd => (hiff d).1 hd⟩
  · intro e he hfile
    rcases hsource.of_visited (hvisited e he hfile) with ⟨size, content, hsize, hread⟩
    rw [disposes_illegible_iff hsource (hvisited e he hfile) hfile.companion hfirst hshowsFirst]
    exact Source.document?_eq_none_iff hsize hread
  · intro e he hfile
    rw [IdentityRules.unidentified_iff]
    exact disposes_unidentified_iff hsource (hvisited e he hfile) hfile.companion hfile.visible
      hsecond hshowsSecond

/-- A companion file that cannot be read, one without an identifier, and one with an identifier. -/
def companionPackage : MemoryPackage :=
  ⟨[("a.meta", textBytes "&a"), ("b.meta", textBytes "name: b\n"),
    ("c.meta", textBytes "guid: 0123456789abcdef0123456789abcdef\n")]⟩

/-- Each of these files is accounted for in another way. -/
theorem Rules.report_accountsForCompanions_three :
    let s := Subject.of companionPackage.source .offline
    [SyntaxRules.checker, IdentityRules.checker].Sublist checkers ∧
      companionPackage.source.Readable ∧
      ∃ a r owners, Audit.ofCheckers [SyntaxRules.checker, IdentityRules.checker] = .ok a ∧
        a.run companionPackage.source .offline = .ok r ∧
        r.Disposes s owners (.classify ⟨none⟩ false "a.meta") .illegible ∧
        r.Disposes s owners (.classify ⟨none⟩ false "b.meta") .unidentified ∧
        r.Disposes s owners (.classify ⟨none⟩ false "c.meta") .identified := by
  intro s
  have hsub : [SyntaxRules.checker, IdentityRules.checker].Sublist checkers :=
    .cons _ (.cons_cons _ (.cons_cons _ (.cons _ (.cons _ (.cons _ .slnil)))))
  have hsource : companionPackage.source.Readable := companionPackage.readable
  obtain ⟨a, r, owners, ha, hrun, hr⟩ := report_accountsForCompanions hsub List.mem_cons_self
    (List.mem_cons_of_mem _ List.mem_cons_self) hsource .offline
  have hfile : ∀ path ∈ companionPackage.files,
      Entry.classify ⟨none⟩ false path ∈ s.entries.entries ∧
        (Entry.classify ⟨none⟩ false path).IsCompanionFile := by
    intro path hpath
    have hentries : s.entries = .ofFiles ⟨none⟩ companionPackage.files := rfl
    have hnames : ∀ path ∈ companionPackage.files,
        (Entry.classify ⟨none⟩ false path).isHidden = false ∧
          (Entry.classify ⟨none⟩ false path).isCompanion = true := by decide +kernel
    constructor
    · rw [hentries, EntrySet.mem_entries_iff]
      refine ⟨.inl hpath, ?_⟩
      change Entry.classify ⟨none⟩ false path =
        Entry.classify ⟨none⟩ (!companionPackage.files.contains path) path
      rw [List.contains_iff_mem.2 hpath]
      rfl
    · exact ⟨(hnames path hpath).1, (hnames path hpath).2, rfl⟩
  -- whether each file is a document, and whether this declares an identifier
  let legible (path : String) : Option Bool :=
    (companionPackage.source.document? path).map fun document =>
      (IdentityRules.identifier document path).isOk
  have hfirst : legible "a.meta" = none := by decide +kernel
  have hsecond : legible "b.meta" = some false := by decide +kernel
  have hthird : legible "c.meta" = some true := by decide +kernel
  refine ⟨hsub, hsource, a, r, owners, ha, hrun, ?_, ?_, ?_⟩
  · rcases hfile "a.meta" (by decide) with ⟨hmem, hcompanion⟩
    apply (hr.illegible_iff _ hmem hcompanion).2
    exact (Source.document?_eq_none_iff rfl rfl).1 (Option.map_eq_none_iff.1 hfirst)
  · rcases hfile "b.meta" (by decide) with ⟨hmem, hcompanion⟩
    apply (hr.unidentified_iff _ hmem hcompanion).2
    rcases Option.map_eq_some_iff.1 hsecond with ⟨document, hdocument, hbad⟩
    cases hid : IdentityRules.identifier document "b.meta" with
    | ok value =>
      have hok : (IdentityRules.identifier document "b.meta").isOk = true := congrArg _ hid
      exact absurd (hbad.symm.trans hok) (by decide)
    | error problem => exact IdentityRules.unidentified_iff.2 ⟨document, problem, hdocument, hid⟩
  · rcases hfile "c.meta" (by decide) with ⟨hmem, hcompanion⟩
    rcases Option.map_eq_some_iff.1 hthird with ⟨document, hdocument, hgood⟩
    obtain ⟨d, hd, -⟩ := hr.disposition _ hmem hcompanion
    cases d with
    | illegible =>
      have hillegible := (hr.illegible_iff _ hmem hcompanion).1 hd
      have hnone := (Source.document?_eq_none_iff rfl rfl).2 hillegible
      exact absurd (hdocument.symm.trans hnone) (Option.some_ne_none document)
    | unidentified =>
      rcases IdentityRules.unidentified_iff.1 ((hr.unidentified_iff _ hmem hcompanion).1 hd) with
        ⟨other, problem, hother, hbad⟩
      obtain rfl := Option.some.inj (hdocument.symm.trans hother)
      have hid : (IdentityRules.identifier document "c.meta").isOk = false := congrArg _ hbad
      exact absurd (hgood.symm.trans hid) (by decide)
    | identified => exact hd

end PackageAudit
