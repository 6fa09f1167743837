import PackageAudit.Proofs.Package.Memory
import PackageAudit.Proofs.Rules.OnePass
import PackageAudit.Rules.Syntax

/-!
# Proofs.Rules.Syntax — companion files that are no documents

A companion file is a document if it is short enough and its content can be read as one. Of a
package whose files can be used, the rules on syntax report the companion files that are none:

* `Source.document?` — the document of a file;
* `Source.document?_eq_none_iff` — there is none if the file is too long or cannot be read;
* `SyntaxRules.visit_eq`, `SyntaxRules.audit_eq` — what is reported about a file and a package;
* `SyntaxRules.exists_found?_iff` — which companion files are reported.
-/

namespace PackageAudit

/-- What a checker asks of the files that it looks at is answered. -/
theorem Source.Readable.of_visited {s : Subject} {e : Entry} (h : s.source.Readable)
    (he : e ∈ Checker.visited s) :
    ∃ size content, s.source.size e.path = .ok size ∧ s.source.read e.path = .ok content := by
  rcases Checker.mem_visited_iff.1 he with ⟨hpath, -⟩
  rcases h.size e.path hpath with ⟨size, hsize⟩
  rcases h.read e.path hpath with ⟨content, hread⟩
  exact ⟨size, content, hsize, hread⟩

/-! ## Documents -/

/-- The document of a file that is short enough and can be read. -/
def Source.document? (source : Source) (path : String) : Option Document :=
  match source.size path, source.read path with
  | .ok size, .ok content =>
    if maxDocumentLength < size then none else (Yaml.parse content).toOption
  | _, _ => none

theorem Source.document?_eq {source : Source} {path : String} {size : Nat} {content : Bytes}
    (hsize : source.size path = .ok size) (hread : source.read path = .ok content) :
    source.document? path =
      if maxDocumentLength < size then none else (Yaml.parse content).toOption := by
  rw [document?, hsize, hread]

theorem Source.document?_eq_some_iff {source : Source} {path : String} {document : Document} :
    source.document? path = some document ↔ ∃ size content, source.size path = .ok size ∧
      size ≤ maxDocumentLength ∧ source.read path = .ok content ∧
      Yaml.parse content = .ok document := by
  constructor
  · intro h
    unfold document? at h
    split at h
    · next size content hsize hread =>
      split at h
      · cases h
      · next hshort =>
        cases hparse : Yaml.parse content with
        | error fault =>
          rw [hparse] at h
          cases h
        | ok found =>
          rw [hparse] at h
          cases h
          exact ⟨size, content, hsize, Nat.le_of_not_lt hshort, hread, hparse⟩
    · cases h
  · rintro ⟨size, content, hsize, hshort, hread, hparse⟩
    rw [document?_eq hsize hread, if_neg (Nat.not_lt.2 hshort), hparse]
    rfl

/-- A file is too long, or no document. -/
def Source.Illegible (source : Source) (path : String) : Prop :=
  (∃ size, source.size path = .ok size ∧ maxDocumentLength < size) ∨
    ∃ content fault, source.read path = .ok content ∧ Yaml.parse content = .error fault

theorem Source.document?_eq_none_iff {source : Source} {path : String} {size : Nat}
    {content : Bytes} (hsize : source.size path = .ok size)
    (hread : source.read path = .ok content) :
    source.document? path = none ↔ source.Illegible path := by
  rw [document?_eq hsize hread]
  constructor
  · intro h
    split at h
    · next hlong => exact .inl ⟨size, hsize, hlong⟩
    · cases hparse : Yaml.parse content with
      | error fault => exact .inr ⟨content, fault, hread, hparse⟩
      | ok document =>
        rw [hparse] at h
        cases h
  · rintro (⟨size', hsize', hlong⟩ | ⟨content', fault, hread', hparse⟩)
    · cases hsize.symm.trans hsize'
      exact if_pos hlong
    · cases hread.symm.trans hread'
      rw [hparse]
      split <;> rfl

/-! ## Reports -/

namespace SyntaxRules

variable {s : Subject} {source : Source} {e : Entry}

/-- What is reported about a file. -/
def found? (source : Source) (e : Entry) : Option Finding :=
  match rule? e, source.size e.path, source.read e.path with
  | some rule, .ok size, .ok content =>
    if maxDocumentLength < size then
      some ⟨rule, s!"file too large: {e.path} ({size} bytes)"⟩
    else (problem? rule content).map fun problem => ⟨rule, s!"{e.path}: {problem}"⟩
  | _, _, _ => none

/-- What is reported about a file that can be used. -/
theorem visit_eq (hsource : s.source.Readable) (he : e ∈ Checker.visited s) :
    visit s e = Check.reporting (found? s.source e) () := by
  rcases hsource.of_visited he with ⟨size, content, hsize, hread⟩
  rw [Check.reporting_unit, visit, found?, hsize, hread]
  cases rule? e with
  | none => rfl
  | some rule =>
    dsimp only
    rw [inspect, hsize, Check.ofFile_bind]
    split
    · rfl
    · rw [hread, Check.ofFile_bind]
      cases problem? rule content <;> rfl

/-- A finding is under the rule that the file is under. -/
theorem rule?_of_found? {f : Finding} (h : found? source e = some f) :
    rule? e = some f.check := by
  unfold found? at h
  split at h
  · next rule _ _ hrule _ _ =>
    split at h
    · cases h
      exact hrule
    · rcases Option.map_eq_some_iff.1 h with ⟨problem, -, rfl⟩
      exact hrule
  · cases h

theorem check_of_found? {f : Finding} (hcompanion : e.isCompanion = true)
    (h : found? source e = some f) : f.check = companionRule := by
  have hrule : rule? e = some companionRule := if_pos hcompanion
  exact Option.some.inj ((rule?_of_found? h).symm.trans hrule)

/-- A companion file is reported if and only if it has no document. -/
theorem exists_found?_iff (hsource : s.source.Readable) (he : e ∈ Checker.visited s)
    (hcompanion : e.isCompanion = true) :
    (∃ f, found? s.source e = some f) ↔ s.source.document? e.path = none := by
  rcases hsource.of_visited he with ⟨size, content, hsize, hread⟩
  have hrule : rule? e = some companionRule := if_pos hcompanion
  have hyaml : companionRule ≠ jsonRule := by decide
  rw [found?, hrule, Source.document?_eq hsize hread, hsize, hread]
  dsimp only
  by_cases hlong : maxDocumentLength < size
  · simp [hlong]
  · rw [if_neg hlong, if_neg hlong, problem?, if_neg hyaml]
    cases Yaml.parse content <;> simp [Except.toOption]

/-- What is reported about a package. -/
theorem audit_eq (hsource : s.source.Readable) :
    checker.audit s = .ok ⟨(Checker.visited s).filterMap (found? s.source), [], []⟩ :=
  have hbuild : (checker.build s).perform checker.name checker.checks .empty =
      (.empty, .ok (some ())) := rfl
  Checker.audit_of_reporting hbuild rfl rfl rfl (fun _ he => visit_eq hsource he)
    (fun _ _ _ h => rule?_mem (rule?_of_found? h)) rfl

end SyntaxRules

end PackageAudit
