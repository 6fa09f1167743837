import PackageAudit.Audit.Run
import PackageAudit.Package.Memory
import PackageAudit.Proofs.Audit.Safety
import PackageAudit.Proofs.Document.Yaml.Numeral
import PackageAudit.Proofs.Text.Utf8
import PackageAudit.Rules.Identity

/-!
# Proofs.Rules.Identity — identifiers as the rules see them

An identifier is an unquoted scalar of a companion file, so the reader decides first whether it is a
text at all. Where its digits are the numeral of a number, the file is said to lack an identifier.

* `IdentityRules.declaration` — a companion file that declares an identifier;
* `IdentityRules.parse_declaration` — its document;
* `IdentityRules.visit_declaration` — what is reported about it.
-/

namespace PackageAudit

namespace IdentityRules

open Yaml

/-- A companion file whose first line declares an identifier, with `more` behind that line. -/
def declaration (value : List Char) (more : String) : Bytes :=
  textBytes ("guid: " ++ .ofList value ++ "\n" ++ more)

/-- Nothing, or entries that can stand behind a declaration. -/
def Entries (more : String) : Prop :=
  ∃ d, Yaml.parse (declaration ['x'] more) = .ok d

instance : DecidablePred Entries := fun more =>
  match h : Yaml.parse (declaration ['x'] more) with
  | .ok d => isTrue ⟨d, h⟩
  | .error _ => isFalse fun ⟨_, hd⟩ => nomatch hd.symm.trans h

/-- Digits of base sixteen, as many as an identifier has. -/
structure Identifier (value : List Char) : Prop where
  length : value.length = 32
  digits : ∀ c ∈ value, HexChar c

variable {value : List Char} {more : String}

theorem word_guid : Yaml.Word ['g', 'u', 'i', 'd'] :=
  ⟨nofun, List.all_eq_true.1 rfl⟩

theorem Identifier.word (h : Identifier value) : Yaml.Word value where
  ne_nil hnil := absurd h.length (by rw [hnil]; decide)
  alphanumeric c hc := (h.digits c hc).isAlphanum

theorem Identifier.isIdentifier (h : Identifier value) :
    isIdentifier (.ofList value) = true := by
  rw [IdentityRules.isIdentifier, String.toList_ofList, h.length, Bool.and_eq_true,
    List.all_eq_true]
  refine ⟨rfl, fun c hc => ?_⟩
  rcases h.digits c hc with hdigit | ⟨hlow, hhigh⟩
  · rw [hdigit, Bool.true_or]
  · rw [decide_eq_true hlow, decide_eq_true hhigh, Bool.and_self, Bool.or_true]

theorem parse_declaration_eq (value : List Char) (more : String) :
    Yaml.parse (declaration value more) =
      (readText (entryLine ['g', 'u', 'i', 'd'] value ++ '\n' :: more.toList)).map Document.mk := by
  have htext : ("guid: " ++ .ofList value ++ "\n" ++ more : String).toList =
      entryLine ['g', 'u', 'i', 'd'] value ++ '\n' :: more.toList := by
    have hvalue : (String.ofList value).toList = value := String.toList_ofList
    rw [String.toList_append, String.toList_append, String.toList_append, hvalue, List.append_assoc]
    rfl
  rw [Yaml.parse, Yaml.read, declaration, textBytes, htext, Utf8.split_encode]
  rfl

/-- The document of a declaration holds the value of the identifier under its key. -/
theorem parse_declaration {v : Value} (hmore : Entries more) (hvalue : Yaml.Word value)
    (hv : plainValue value = .ok v) :
    ∃ ms, Yaml.parse (declaration value more) = .ok ⟨.object (("guid", v) :: ms) []⟩ := by
  obtain ⟨d, hd⟩ := hmore
  rw [parse_declaration_eq] at hd ⊢
  obtain ⟨root, hroot, -⟩ := of_map hd
  have hx : Yaml.Word ['x'] := ⟨nofun, List.all_eq_true.1 rfl⟩
  have hplain : (plainValue ['x']).isOk = true := by decide +kernel
  cases hvx : plainValue ['x'] with
  | error e =>
    rw [hvx] at hplain
    cases hplain
  | ok vx =>
    obtain ⟨ms, -, hread⟩ := readText_entryLine word_guid hx hvalue hvx hv hroot
    rw [hread]
    exact ⟨ms, rfl⟩

/-! ## What is reported -/

section Visits

variable {s : Subject} {e : Entry} {owners : Owners} {content : Bytes} {d : Document}

/-- A companion file that is small enough and can be read gets no report about its syntax. -/
theorem visit_legible (hcompanion : e.isCompanion = true)
    (hsize : s.source.size e.path = .ok content.length)
    (hread : s.source.read e.path = .ok content) (hlength : content.length ≤ maxDocumentLength)
    (hparse : Yaml.parse content = .ok d) : SyntaxRules.visit s e = pure () := by
  have hproblem : SyntaxRules.problem? SyntaxRules.companionRule content = none := by
    rw [SyntaxRules.problem?, if_neg (by decide), hparse]
  rw [SyntaxRules.visit, SyntaxRules.rule?, if_pos hcompanion]
  dsimp only
  rw [SyntaxRules.inspect, hsize, Check.ofFile_bind, if_neg (Nat.not_lt.2 hlength), hread,
    Check.ofFile_bind, hproblem]

/-- An identifier is kept with its path; what is wrong with one is reported. -/
def keepOrReport (owners : Owners) (path : String) : Except String String → Check Owners
  | .ok value => pure ((value, path) :: owners)
  | .error problem => Check.finding formatRule problem >>= fun _ => pure owners

/-- The report about the identifier of a visible companion file that can be read. -/
theorem visit_identity (hcompanion : e.isCompanion = true) (hvisible : e.isHidden = false)
    (hsize : s.source.size e.path = .ok content.length)
    (hread : s.source.read e.path = .ok content) (hlength : content.length ≤ maxDocumentLength)
    (hparse : Yaml.parse content = .ok d) :
    visit s e owners = keepOrReport owners e.path (identifier d e.path) := by
  rw [visit, hcompanion, hvisible]
  change inspect s.source e.path owners = _
  rw [inspect, hsize, Check.ofFile_bind, if_neg (Nat.not_lt.2 hlength), hread, Check.ofFile_bind,
    hparse]
  rfl

/-- The place of an identifier in the document of a declaration. -/
theorem get_guid (v : Value) (ms : List (String × Value)) :
    (Document.mk (.object (("guid", v) :: ms) [])).rootNode.get "guid" =
      .present v [(.member "guid", .object (("guid", v) :: ms) [])] := by
  have hmember : (Value.object (("guid", v) :: ms) []).member? "guid" = some v := by
    rw [Value.member?, List.lookup_cons_self]
  rw [Document.rootNode, Node.get]
  dsimp only
  rw [hmember]

theorem identifier_number (n : Number) (ms : List (String × Value)) (path : String) :
    identifier ⟨.object (("guid", .number n) :: ms) []⟩ path =
      .error (path ++ ": .guid: expected string, found number") := by
  have hpath : formatPath [.member "guid"] = ".guid" := by decide +kernel
  rw [identifier, get_guid]
  change Except.error (path ++ ": " ++ (formatPath [.member "guid"] ++ ": expected " ++ "string" ++
    ", found " ++ "number")) = _
  rw [hpath, String.append_assoc]
  rfl

theorem identifier_string {text : String} (h : isIdentifier text = true)
    (ms : List (String × Value)) (path : String) :
    identifier ⟨.object (("guid", .string text) :: ms) []⟩ path = .ok text := by
  rw [identifier, get_guid]
  change (if isIdentifier text then _ else _) = _
  rw [if_pos h]

/--
What is reported about a visible companion file that declares an identifier. Its syntax is never at
fault. The identifier is kept unless its digits are also the numeral of a number: then the reader
has made a number of it, and the file is said to have none.
-/
theorem visit_declaration (hcompanion : e.isCompanion = true) (hvisible : e.isHidden = false)
    (hid : Identifier value) (hmore : Entries more)
    (hsize : s.source.size e.path = .ok (declaration value more).length)
    (hread : s.source.read e.path = .ok (declaration value more))
    (hlength : (declaration value more).length ≤ maxDocumentLength) :
    SyntaxRules.visit s e = pure () ∧
      (Numeric value → visit s e owners =
        Check.finding formatRule (e.path ++ ": .guid: expected string, found number") >>=
          fun _ => pure owners) ∧
      (¬ Numeric value → visit s e owners = pure ((.ofList value, e.path) :: owners)) := by
  have hlong : 5 < value.length := by
    rw [hid.length]
    decide
  obtain ⟨hnumber, hstring⟩ := plainValue_of_long hlong hid.digits
  by_cases hnumeric : Numeric value
  · obtain ⟨n, hn⟩ := hnumber hnumeric
    obtain ⟨ms, hparse⟩ := parse_declaration hmore hid.word hn
    refine ⟨visit_legible hcompanion hsize hread hlength hparse, fun _ => ?_, (absurd hnumeric ·)⟩
    rw [visit_identity hcompanion hvisible hsize hread hlength hparse, identifier_number,
      keepOrReport]
  · obtain ⟨ms, hparse⟩ := parse_declaration hmore hid.word (hstring hnumeric)
    refine ⟨visit_legible hcompanion hsize hread hlength hparse, (absurd · hnumeric), fun _ => ?_⟩
    rw [visit_identity hcompanion hvisible hsize hread hlength hparse,
      identifier_string hid.isIdentifier, keepOrReport]

end Visits

/-! ## Decimal identifiers -/

/-- An identifier without letters. -/
def decimalIdentifier : List Char :=
  "01234567890123456789012345678901".toList

theorem decimalIdentifier_numeric : Identifier decimalIdentifier ∧ Numeric decimalIdentifier := by
  have hdigits : ∀ c ∈ decimalIdentifier, c.isDigit = true :=
    List.all_eq_true.1 (by decide +kernel)
  exact ⟨⟨by decide +kernel, fun c hc => .inl (hdigits c hc)⟩, .inl ⟨by decide +kernel, hdigits⟩⟩

/-- A companion file with such an identifier and one more entry. -/
def decimalPackage : MemoryPackage :=
  ⟨[("a.meta", declaration decimalIdentifier "name: a\n")]⟩

theorem visit_declaration_decimal :
    let s := Subject.of decimalPackage.source .offline
    let e := Entry.classify s.target false "a.meta"
    e.isCompanion = true ∧ e.isHidden = false ∧ Entries "name: a\n" ∧
      SyntaxRules.visit s e = pure () ∧
      visit s e [] =
        Check.finding formatRule ("a.meta" ++ ": .guid: expected string, found number") >>=
          fun _ => pure [] := by
  intro s e
  have hcompanion : e.isCompanion = true := by decide +kernel
  have hvisible : e.isHidden = false := by decide +kernel
  have hmore : Entries "name: a\n" := by decide +kernel
  have hlength : (declaration decimalIdentifier "name: a\n").length ≤ maxDocumentLength := by
    decide +kernel
  have hsize : s.source.size e.path = .ok (declaration decimalIdentifier "name: a\n").length := rfl
  have hread : s.source.read e.path = .ok (declaration decimalIdentifier "name: a\n") := rfl
  obtain ⟨hlegible, hidentity, -⟩ :=
    visit_declaration hcompanion hvisible decimalIdentifier_numeric.1 hmore hsize hread hlength
  exact ⟨hcompanion, hvisible, hmore, hlegible, hidentity decimalIdentifier_numeric.2⟩

/-- The report on a package whose only identifier has no letters. -/
theorem decimal_identifier_reported :
    Identifier decimalIdentifier ∧ Entries "name: a\n" ∧
      ((Audit.mk [SyntaxRules.checker, checker] []).run decimalPackage.source .offline).map
          Report.findings =
        .ok [⟨formatRule, "a.meta: .guid: expected string, found number"⟩] :=
  ⟨decimalIdentifier_numeric.1, by decide +kernel, by decide +kernel⟩

end IdentityRules

end PackageAudit
