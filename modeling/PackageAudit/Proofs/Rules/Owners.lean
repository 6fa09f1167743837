import PackageAudit.Proofs.Document.Value
import PackageAudit.Proofs.Rules.Syntax
import PackageAudit.Rules.Identity

/-!
# Proofs.Rules.Owners — identifiers and the files that own them

A visible companion file with a document either declares an identifier, and is kept as an owner of
it, or something is reported about it. In the end the owners are compared:

* `IdentityRules.identifier_eq_ok_iff`, `IdentityRules.exists_identifier_error_iff` — identifiers;
* `IdentityRules.unidentified_iff` — the files that are documents without one;
* `IdentityRules.visit_eq` — what becomes of a file;
* `IdentityRules.ownersOf` — the owners that are kept, as in `IdentityRules.mem_ownersOf_iff`;
* `IdentityRules.audit_eq` — what is reported about a package, and which owners are compared.
-/

namespace PackageAudit

/-- A file is a document without an identifier: there is none, or no text, or none of that form. -/
def Source.Unidentified (source : Source) (path : String) : Prop :=
  ∃ size content document, source.size path = .ok size ∧ size ≤ maxDocumentLength ∧
    source.read path = .ok content ∧ Yaml.parse content = .ok document ∧
    ((document.rootNode.get "guid").isAbsent = true ∨
      (∃ e, (document.rootNode.get "guid").string = .error e) ∨
      ∃ value, (document.rootNode.get "guid").string = .ok value ∧
        IdentityRules.isIdentifier value = false)

namespace IdentityRules

variable {s : Subject} {source : Source} {e : Entry} {owners : Owners} {value path : String}

/-! ## Identifiers -/

theorem identifier_eq_ok_iff {document : Document} :
    identifier document path = .ok value ↔
      (document.rootNode.get "guid").string = .ok value ∧ isIdentifier value = true := by
  unfold identifier
  dsimp only
  cases hvalue : (document.rootNode.get "guid").string with
  | error e => split <;> simp
  | ok text =>
    rw [Node.isAbsent_of_string hvalue, if_neg (by decide)]
    dsimp only
    constructor
    · intro h
      split at h
      · next hgood =>
        cases h
        exact ⟨rfl, hgood⟩
      · cases h
    · rintro ⟨⟨⟩, hgood⟩
      exact if_pos hgood

/-- An identifier is missing, no text, or a text of another form. -/
theorem exists_identifier_error_iff {document : Document} :
    (∃ problem, identifier document path = .error problem) ↔
      (document.rootNode.get "guid").isAbsent = true ∨
        (∃ e, (document.rootNode.get "guid").string = .error e) ∨
        ∃ value, (document.rootNode.get "guid").string = .ok value ∧
          isIdentifier value = false := by
  unfold identifier
  dsimp only
  cases hvalue : (document.rootNode.get "guid").string with
  | error e => split <;> simp
  | ok text =>
    rw [Node.isAbsent_of_string hvalue]
    cases hgood : isIdentifier text <;> simp [hgood]

theorem unidentified_iff :
    source.Unidentified path ↔ ∃ document problem, source.document? path = some document ∧
      identifier document path = .error problem := by
  constructor
  · rintro ⟨size, content, document, hsize, hshort, hread, hparse, hwrong⟩
    rcases exists_identifier_error_iff.2 hwrong with ⟨problem, hproblem⟩
    exact ⟨document, problem,
      Source.document?_eq_some_iff.2 ⟨size, content, hsize, hshort, hread, hparse⟩, hproblem⟩
  · rintro ⟨document, problem, hdocument, hproblem⟩
    rcases Source.document?_eq_some_iff.1 hdocument with
      ⟨size, content, hsize, hshort, hread, hparse⟩
    exact ⟨size, content, document, hsize, hshort, hread, hparse,
      exists_identifier_error_iff.1 ⟨problem, hproblem⟩⟩

/-! ## Files -/

/-- What a visible companion file with a document declares, or what is wrong with that. -/
def declared? (source : Source) (e : Entry) : Option (Except String String) :=
  if e.isCompanion && !e.isHidden then
    (source.document? e.path).map fun document => identifier document e.path
  else none

/-- What is reported about a file. -/
def found? (source : Source) (e : Entry) : Option Finding :=
  match declared? source e with
  | some (.error problem) => some ⟨formatRule, problem⟩
  | _ => none

/-- The identifier that is kept of a file, with its path. -/
def owner? (source : Source) (e : Entry) : Option (String × String) :=
  match declared? source e with
  | some (.ok value) => some (value, e.path)
  | _ => none

theorem declared?_of_companion (hcompanion : e.isCompanion = true) (hvisible : e.isHidden = false) :
    declared? source e =
      (source.document? e.path).map fun document => identifier document e.path := by
  rw [declared?, hcompanion, hvisible]
  rfl

theorem found?_eq_some_iff {f : Finding} :
    found? source e = some f ↔
      ∃ problem, declared? source e = some (.error problem) ∧ f = ⟨formatRule, problem⟩ := by
  unfold found?
  rcases declared? source e with _ | problem | value
  · simp
  · simp [eq_comm]
  · simp

theorem owner?_eq_some_iff {owner : String × String} :
    owner? source e = some owner ↔
      ∃ value, declared? source e = some (.ok value) ∧ owner = (value, e.path) := by
  unfold owner?
  rcases declared? source e with _ | problem | value
  · simp
  · simp
  · simp [eq_comm]

/-- What is reported about a file that can be used, and the identifiers that are then kept. -/
theorem visit_eq (hsource : s.source.Readable) (he : e ∈ Checker.visited s) :
    visit s e owners =
      Check.reporting (found? s.source e) ((owner? s.source e).toList ++ owners) := by
  rcases hsource.of_visited he with ⟨size, content, hsize, hread⟩
  rw [visit, found?, owner?, declared?, Source.document?_eq hsize hread]
  split
  · rw [inspect, hsize, Check.ofFile_bind]
    split
    · rfl
    · rw [hread, Check.ofFile_bind]
      cases Yaml.parse content with
      | error fault => rfl
      | ok document =>
        simp only [Except.toOption, Option.map_some]
        cases identifier document e.path <;> rfl
  · rfl

/-! ## Packages -/

/-- The identifiers that are kept of the files, with their paths. -/
def ownersOf (s : Subject) : Owners :=
  (Checker.visited s).foldl (fun owners e => (owner? s.source e).toList ++ owners) []

/-- The finding about an identifier that several files declare. -/
def duplicate (value : String) (paths : List String) : Finding :=
  ⟨uniqueRule, s!"duplicate guid {value}: " ++ ", ".intercalate paths⟩

/-- What is reported about identifiers in the end. -/
def duplicates (owners : Owners) : List Finding :=
  (shared owners).map fun (value, paths) => duplicate value paths

theorem finish_eq (owners : Owners) : finish owners = Check.reportAll (duplicates owners) :=
  Check.forM_finding (shared owners) fun (value, paths) => duplicate value paths

theorem audit_eq (hsource : s.source.Readable) :
    checker.audit s =
        .ok ⟨(Checker.visited s).filterMap (found? s.source) ++ duplicates (ownersOf s), [], []⟩ ∧
      checker.EndsWith s (ownersOf s) := by
  have hdeclared : ∀ e ∈ Checker.visited s, ∀ f, found? s.source e = some f →
      f.check ∈ checker.checks := by
    intro e _ f hf
    rcases found?_eq_some_iff.1 hf with ⟨problem, -, rfl⟩
    exact List.mem_cons_self
  have hlast : ∀ f ∈ duplicates (ownersOf s), f.check ∈ checker.checks := by
    intro f hf
    rcases List.mem_map.1 hf with ⟨_, -, rfl⟩
    exact List.mem_cons_of_mem _ List.mem_cons_self
  have hvisit : ∀ e ∈ Checker.visited s, ∀ owners : Owners, True → visit s e owners =
      Check.reporting (found? s.source e) ((owner? s.source e).toList ++ owners) ∧ True :=
    fun _ he _ _ => ⟨visit_eq hsource he, trivial⟩
  have hbuild : (checker.build s).perform checker.name checker.checks .empty =
      (.empty, .ok (some ([] : Owners))) := rfl
  exact Checker.audit_of_onePass hbuild rfl rfl rfl trivial hvisit hdeclared (finish_eq _) hlast

/-- Only the end of the work is about identifiers that are declared more than once. -/
theorem mem_result_iff {f : Finding} :
    (f ∈ (Checker.visited s).filterMap (found? s.source) ++ duplicates owners ∧
      f.check = uniqueRule) ↔
        ∃ many ∈ shared owners, f = duplicate many.1 many.2 := by
  rw [List.mem_append, List.mem_filterMap, duplicates, List.mem_map]
  constructor
  · rintro ⟨⟨e, -, hf⟩ | ⟨many, hmany, rfl⟩, hcheck⟩
    · rcases found?_eq_some_iff.1 hf with ⟨problem, -, rfl⟩
      have hother : formatRule ≠ uniqueRule := by decide
      exact absurd hcheck hother
    · exact ⟨many, hmany, rfl⟩
  · rintro ⟨many, hmany, rfl⟩
    exact ⟨.inr ⟨many, hmany, rfl⟩, rfl⟩

theorem mem_foldl_owner {l : List Entry} :
    (value, path) ∈ l.foldl (fun owners e => (owner? source e).toList ++ owners) owners ↔
      (∃ e ∈ l, owner? source e = some (value, path)) ∨ (value, path) ∈ owners := by
  induction l generalizing owners with
  | nil => simp
  | cons e l ih =>
    rw [List.foldl_cons, ih, List.mem_append, Option.mem_toList, List.exists_mem_cons_iff, or_assoc,
      or_left_comm]

/-- A file is kept as an owner if it declares an identifier, and of no other. -/
theorem mem_ownersOf_iff (he : e ∈ Checker.visited s) :
    (value, e.path) ∈ ownersOf s ↔ owner? s.source e = some (value, e.path) := by
  rw [ownersOf, mem_foldl_owner]
  constructor
  · rintro (⟨e', he', howner⟩ | hnone)
    · rcases owner?_eq_some_iff.1 howner with ⟨_, -, hpair⟩
      have hpath : e'.path = e.path := (Prod.mk.inj hpair).2.symm
      -- each path has one entry
      have hsame : some e' = some e := by
        rw [← (Checker.mem_visited_iff.1 he').2, ← (Checker.mem_visited_iff.1 he).2, hpath]
      rw [Option.some.inj hsame] at howner
      exact howner
    · cases hnone
  · exact fun howner => .inl ⟨e, he, howner⟩

theorem mem_pathsOf_iff : path ∈ pathsOf owners value ↔ (value, path) ∈ owners := by
  simp [pathsOf]

end IdentityRules

end PackageAudit
