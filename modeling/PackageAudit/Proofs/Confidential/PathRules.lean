import Mathlib.Data.List.TakeWhile
import PackageAudit.Proofs.Confidential.Roundtrip
import PackageAudit.Proofs.Pattern.Glob
import PackageAudit.Proofs.Unicode.Case
import PackageAudit.Rules.Confidential

/-!
# Proofs.Confidential.PathRules — patterns that are paths

A pattern is brought into lower case as a text, and so are its letters beyond ASCII. A path is
brought into the lower case of ASCII only. Where nothing but the letters of ASCII has two forms,
the two agree.

* `PathRules.Applies`, `PathRules.selects_iff` — a path is selected if one of the texts applies;
* `PathRules.IsLiteral` — paths in which a pattern sees no signs;
* `PathRules.HasOneForm` — texts that have no other lower case than that of ASCII;
* `PathRules.selects_own_path` — when a pattern selects the path that it is.
-/

namespace PackageAudit

namespace Confidential

namespace PathRules

open Pattern (Glob)

variable {p text : String} {texts : List String} {r rules : PathRules} {path : List Char}

/-! ## Lists of texts -/

/-- The file name that a path ends with. -/
def nameOf (path : List Char) : List Char :=
  (path.reverse.takeWhile (· != '/')).reverse

/-- A text is a pattern for a path, or for the file name if it has no slash. -/
def Applies (text : String) (path : List Char) : Prop :=
  ∃ g, Glob.ofText (Case.lower text.toList) = .ok g ∧
    g.accepts (if text.contains '/' then path else nameOf path) = true

/-- One more text selects the paths that it applies to. -/
theorem selects_add (h : r.add text = .ok rules) :
    rules.selects path = true ↔ r.selects path = true ∨ Applies text path := by
  rw [add] at h
  split at h
  · cases h
  · next g hg =>
    obtain rfl := Except.ok.inj h
    simp only [Applies, hg, Except.ok.injEq, exists_eq_left']
    by_cases hslash : text.contains '/' = true
    · rw [if_pos hslash, if_pos hslash]
      simp only [selects, List.any_append, List.any_cons, List.any_nil, Bool.or_false,
        Bool.or_eq_true]
      exact or_assoc.symm
    · rw [if_neg hslash, if_neg hslash]
      simp only [selects, List.any_append, List.any_cons, List.any_nil, Bool.or_false,
        Bool.or_eq_true]
      exact or_right_comm

/-- The paths that the texts of a list select. -/
theorem selects_iff (h : ofTexts texts = .ok rules) :
    rules.selects path = true ↔ ∃ text ∈ texts, Applies text path := by
  -- On the texts, behind whatever patterns were added before them.
  suffices hfrom : ∀ r, texts.foldlM add r = .ok rules →
      (rules.selects path = true ↔ r.selects path = true ∨ ∃ text ∈ texts, Applies text path) by
    simpa [selects] using hfrom ⟨[], []⟩ h
  clear h
  induction texts with
  | nil =>
    intro r h
    obtain rfl : r = rules := Except.ok.inj h
    simp
  | cons text texts ih =>
    intro r h
    rw [List.foldlM_cons] at h
    cases hadd : r.add text with
    | error e => rw [hadd] at h; cases h
    | ok next =>
      rw [hadd] at h
      rw [ih next h, selects_add hadd, or_assoc, List.exists_mem_cons_iff]

/-! ## Paths as patterns -/

/-- The signs that mean something in a pattern. -/
def signs : List Char := ['*', '?', '[', ']', '{', '}', '\\']

/-- A text without signs that mean something in a pattern. -/
def IsLiteral (p : String) : Prop :=
  ∀ c ∈ p.toList, c ∉ signs

/-- A text of which no character but the letters of ASCII has a lower case of its own. -/
def HasOneForm (p : String) : Prop :=
  ∀ c ∈ p.toList, 0x80 ≤ c.toNat → Case.lower [c] = [c]

instance (p : String) : Decidable (IsLiteral p) :=
  List.decidableBAll (· ∉ signs) p.toList

instance (p : String) : Decidable (HasOneForm p) :=
  List.decidableBAll (fun c : Char => 0x80 ≤ c.toNat → Case.lower [c] = [c]) p.toList

theorem of_mem_signs : ∀ c ∈ signs, c.toNat < 0x80 ∧ c.isAlpha = false := by
  simp [signs]

theorem isPlain_of_not_mem_signs {c : Char} (h : c ∉ signs) : Glob.IsPlain c := by
  simp only [signs, List.mem_cons, List.not_mem_nil, or_false, not_or] at h
  simp only [Glob.IsPlain, List.mem_cons, List.not_mem_nil, or_false, not_or]
  exact ⟨h.1, h.2.1, h.2.2.1, h.2.2.2.2⟩

/-- No sign comes up in lower case. -/
theorem IsLiteral.lower (h : IsLiteral p) : ∀ c ∈ Case.lower p.toList, Glob.IsPlain c := by
  intro c hc
  refine isPlain_of_not_mem_signs fun hsign => ?_
  obtain ⟨hascii, hletter⟩ := of_mem_signs c hsign
  exact h c (Case.mem_of_mem_lower hascii hletter hc) hsign

/-- In lower case a path has its slashes where it had them. -/
theorem mem_slash : '/' ∈ PathText.lower p.toList ↔ '/' ∈ p.toList := by
  rw [PathText.lower, List.mem_map]
  constructor
  · rintro ⟨c, hc, hlow⟩
    have hletter : c.toLower.isAlpha = false := hlow ▸ rfl
    rwa [← hlow, Case.toLower_eq_self hletter]
  · exact fun h => ⟨'/', h, rfl⟩

/-- What a pattern is compared with when it meets its own path. -/
theorem ite_nameOf :
    (if p.contains '/' then PathText.lower p.toList else nameOf (PathText.lower p.toList)) =
      PathText.lower p.toList := by
  split
  · rfl
  · next h =>
    have hnone : '/' ∉ p.toList := by simpa using h
    have hall : ∀ c ∈ (PathText.lower p.toList).reverse, (c != '/') = true := by
      intro c hc
      rw [bne_iff_ne]
      rintro rfl
      exact hnone (mem_slash.1 (List.mem_reverse.1 hc))
    rw [nameOf, List.takeWhile_eq_self_iff.2 hall, List.reverse_reverse]

theorem applies_own_path (h : IsLiteral p) :
    Applies p (PathText.lower p.toList) ↔ HasOneForm p := by
  obtain ⟨g, hg, haccepts⟩ := Glob.ofText_plain h.lower
  rw [Applies, ite_nameOf]
  simp only [hg, Except.ok.injEq, exists_eq_left', haccepts]
  rw [eq_comm]
  exact Case.lower_eq_iff

/-- A literal path alone makes rules. -/
theorem ofTexts_own_path (h : IsLiteral p) : ∃ rules, ofTexts [p] = .ok rules ∧
    (rules.selects (PathText.lower p.toList) = true ↔ HasOneForm p) := by
  obtain ⟨g, hg, -⟩ := Glob.ofText_plain h.lower
  obtain ⟨rules, hrules⟩ := exists_ofTexts (List.forall_mem_singleton.2 ⟨g, hg⟩)
  refine ⟨rules, hrules, ?_⟩
  rw [selects_iff hrules, ← applies_own_path h]
  simp

theorem lowerPath_classify (target : Target) (isDirectory : Bool) (p : String) :
    ConfidentialRules.lowerPath (.classify target isDirectory p) = PathText.lower p.toList :=
  String.toList_ofList

/--
A literal path is a pattern, and as the only one it selects its own file if and only if it has one
form. In that case it does so among any other patterns.
-/
theorem selects_own_path (target : Target) (isDirectory : Bool) (h : IsLiteral p) :
    (∃ rules, ofTexts [p] = .ok rules ∧
      (rules.selects (ConfidentialRules.lowerPath (.classify target isDirectory p)) = true ↔
        HasOneForm p)) ∧
    ∀ texts rules, p ∈ texts → ofTexts texts = .ok rules → HasOneForm p →
      rules.selects (ConfidentialRules.lowerPath (.classify target isDirectory p)) = true := by
  rw [lowerPath_classify]
  refine ⟨ofTexts_own_path h, fun texts rules hp hrules hform => ?_⟩
  exact (selects_iff hrules).2 ⟨p, hp, (applies_own_path h).2 hform⟩

theorem selects_own_path_small : IsLiteral "Keys/schlüssel.PEM" ∧ HasOneForm "Keys/schlüssel.PEM" ∧
    ∃ rules, ofTexts ["Keys/schlüssel.PEM"] = .ok rules ∧
      rules.selects (ConfidentialRules.lowerPath
        (.classify ⟨none⟩ false "Keys/schlüssel.PEM")) = true := by
  have hliteral : IsLiteral "Keys/schlüssel.PEM" := by decide
  have hform : HasOneForm "Keys/schlüssel.PEM" := by decide
  obtain ⟨⟨rules, hrules, hselects⟩, -⟩ := selects_own_path ⟨none⟩ false hliteral
  exact ⟨hliteral, hform, rules, hrules, hselects.2 hform⟩

/-- The path `É.pem` does not select itself: the pattern becomes `é.pem`, and the path does not. -/
theorem capital_not_selected : validatePath "É.pem" = .ok () ∧ IsLiteral "É.pem" ∧
    ∃ rules, ofTexts ["É.pem"] = .ok rules ∧
      rules.selects (ConfidentialRules.lowerPath (.classify ⟨none⟩ false "É.pem")) = false := by
  have hliteral : IsLiteral "É.pem" := by decide
  obtain ⟨rules, hrules, hselects⟩ := ofTexts_own_path hliteral
  refine ⟨by decide, hliteral, rules, hrules, ?_⟩
  rw [lowerPath_classify, ← Bool.not_eq_true, hselects]
  decide

end PathRules

end Confidential

end PackageAudit
