import Mathlib
import PackageAudit.Proofs.Document.Yaml.Schema

/-!
# Proofs.Document.Yaml.Capitals — plain scalars in other capitals

A name keeps its value in other capitals or is refused, and so do numbers, their letters being
those of digits and of the exponent. Only the mark of a base is not looked for in capitals:
behind one, digits are a string.

* `Yaml.Schema.SameLetters` — equal up to capitals;
* `Yaml.Schema.CapitalMark` — texts that begin with the mark of a base in capitals;
* `Yaml.Schema.NumberText.sameLetters` — numbers in other capitals;
* `Yaml.Schema.plainValue_capitals` — plain scalars in other capitals.
-/

namespace PackageAudit

namespace Yaml

namespace Schema

variable {t u cs ds m s : List Char} {base n : Nat} {c d : Char} {negative : Bool} {x : ℚ}
  {v w : Value}

/-- Equal up to the capitals of ASCII. -/
def SameLetters (t u : List Char) : Prop :=
  t.map Char.toLower = u.map Char.toLower

/-- The mark of a base in capitals, whatever follows it. -/
inductive CapitalMark : List Char → Prop where
  | octal (ds : List Char) : CapitalMark ('0' :: 'O' :: ds)
  | hexadecimal (ds : List Char) : CapitalMark ('0' :: 'X' :: ds)

/-! ## Letters -/

theorem SameLetters.symm (h : SameLetters t u) : SameLetters u t :=
  Eq.symm h

theorem SameLetters.of_cons (h : SameLetters (c :: t) u) :
    ∃ d us, u = d :: us ∧ c.toLower = d.toLower ∧ SameLetters t us := by
  rw [SameLetters, List.map_cons, eq_comm, List.map_eq_cons_iff] at h
  obtain ⟨d, us, rfl, hd, hus⟩ := h
  exact ⟨d, us, rfl, hd.symm, hus.symm⟩

theorem SameLetters.of_append (h : SameLetters (s ++ t) u) :
    ∃ us ut, u = us ++ ut ∧ SameLetters s us ∧ SameLetters t ut := by
  rw [SameLetters, List.map_append, eq_comm, List.map_eq_append_iff] at h
  obtain ⟨us, ut, rfl, hs, ht⟩ := h
  exact ⟨us, ut, rfl, hs.symm, ht.symm⟩

/-- A letter has two forms. -/
theorem eq_of_toLower_eq (h : c.toLower = d.toLower) : d = c.toLower ∨ d = c.toUpper := by
  by_cases hd : d.isUpper = true
  · have hupper : d.toUpper = d :=
      Char.toUpper_eq_of_not_isLower (Char.not_isLower_of_isUpper hd)
    rw [← Char.toUpper_toLower_eq_toUpper, h, Char.toUpper_toLower_eq_toUpper, hupper]
    exact .inr rfl
  · rw [h, Char.toLower_eq_of_not_isUpper hd]
    exact .inl rfl

/-- What is no letter has one. -/
theorem eq_of_not_isAlpha (hc : c.isAlpha = false) (h : c.toLower = d.toLower) : d = c := by
  obtain ⟨hupper, hlower⟩ := Bool.or_eq_false_iff.1 hc
  rw [← Bool.not_eq_true] at hupper hlower
  rcases eq_of_toLower_eq h with rfl | rfl
  · exact Char.toLower_eq_of_not_isUpper hupper
  · exact Char.toUpper_eq_of_not_isLower hlower

theorem SameLetters.eq (h : SameLetters t u) (ht : ∀ c ∈ t, c.isAlpha = false) : u = t := by
  induction t generalizing u with
  | nil => exact List.map_eq_nil_iff.1 (Eq.symm h)
  | cons c t ih =>
    obtain ⟨d, us, rfl, hd, hus⟩ := h.of_cons
    rw [List.forall_mem_cons] at ht
    rw [eq_of_not_isAlpha ht.1 hd, ih hus ht.2]

theorem isAlpha_of_isDigit (h : c.isDigit = true) : c.isAlpha = false := by
  have hall : ∀ n < 0x80, (Char.ofNat n).isDigit = true →
      (Char.ofNat n).isAlpha = false := by decide
  have hc := hall c.toNat (Json.lt_of_isDigit h)
  rw [Char.ofNat_toNat] at hc
  exact hc h

/-! ## Names -/

/-- In lower case a name has the same value. -/
theorem Named.lower {text : String} (h : Named text v) :
    ∃ name, text.map Char.toLower = name ∧ Named name v ∧ (text = "~" ∨ name ∈ lowerNames) := by
  cases h with
  | null h =>
    simp only [List.mem_cons, List.not_mem_nil, or_false] at h
    rcases h with rfl | rfl | rfl | rfl
    · exact ⟨"~", by cbv, .null (by decide), .inl rfl⟩
    all_goals exact ⟨"null", by cbv, .null (by decide), .inr (by decide)⟩
  | truth h =>
    simp only [List.mem_cons, List.not_mem_nil, or_false] at h
    rcases h with rfl | rfl | rfl
    all_goals exact ⟨"true", by cbv, .truth (by decide), .inr (by decide)⟩
  | falsity h =>
    simp only [List.mem_cons, List.not_mem_nil, or_false] at h
    rcases h with rfl | rfl | rfl
    all_goals exact ⟨"false", by cbv, .falsity (by decide), .inr (by decide)⟩
  | infinity h =>
    simp only [List.mem_cons, List.not_mem_nil, or_false] at h
    rcases h with rfl | rfl | rfl | h
    · exact ⟨".inf", by cbv, .infinity (by decide), .inr (by decide)⟩
    · exact ⟨".inf", by cbv, .infinity (by decide), .inr (by decide)⟩
    · exact ⟨".inf", by cbv, .infinity (by decide), .inr (by decide)⟩
    rcases h with rfl | rfl | rfl
    all_goals exact ⟨"+.inf", by cbv, .infinity (by decide), .inr (by decide)⟩
  | minusInfinity h =>
    simp only [List.mem_cons, List.not_mem_nil, or_false] at h
    rcases h with rfl | rfl | rfl
    all_goals exact ⟨"-.inf", by cbv, .minusInfinity (by decide), .inr (by decide)⟩
  | nan h =>
    simp only [List.mem_cons, List.not_mem_nil, or_false] at h
    rcases h with rfl | rfl | rfl
    all_goals exact ⟨".nan", by cbv, .nan (by decide), .inr (by decide)⟩

theorem SameLetters.map_ofList (h : SameLetters t u) :
    (String.ofList t).map Char.toLower = (String.ofList u).map Char.toLower := by
  rw [← String.toList_inj, String.toList_map, String.toList_map, String.toList_ofList,
    String.toList_ofList]
  exact h

/-- A name in other capitals has the same value, or it is refused. -/
theorem Named.sameLetters (h : Named (.ofList t) v) (hu : SameLetters t u) :
    Named (.ofList u) v ∨ Ambiguous (.ofList u) := by
  obtain ⟨name, hname, hv, htilde | hlower⟩ := h.lower
  · obtain rfl : t = ['~'] := String.ofList_injective htilde
    obtain rfl := hu.eq (List.forall_mem_singleton.2 rfl)
    exact .inl h
  by_cases hnamed : ∃ w, Named (.ofList u) w
  · obtain ⟨w, hw⟩ := hnamed
    obtain ⟨_, rfl, hw', -⟩ := hw.lower
    rw [← hu.map_ofList, hname] at hw'
    have hsame := (namedValue?_iff.2 hv).symm.trans (namedValue?_iff.2 hw')
    rw [Option.some.inj hsame]
    exact .inl hw
  · refine .inr ⟨?_, hnamed⟩
    rwa [← hu.map_ofList, hname]

/-! ## Numbers -/

theorem digitValue?_toLower (base : Nat) (c : Char) :
    digitValue? base c.toLower = digitValue? base c := by
  by_cases h : c.isUpper = true
  · have hall (n : Nat) (hlow : 65 ≤ n) (hhigh : n ≤ 90) :
        digitValue? base (Char.ofNat n).toLower = digitValue? base (Char.ofNat n) := by
      interval_cases n <;> rfl
    have hc := of_decide_eq_true h
    rw [← Char.ofNat_toNat c]
    exact hall c.toNat hc.1 hc.2
  · rw [Char.toLower_eq_of_not_isUpper h]

theorem Figures.sameLetters (h : Figures base t n) (hu : SameLetters t u) : Figures base u n := by
  have hlower (cs : List Char) :
      digitsValue? base (cs.map Char.toLower) = digitsValue? base cs := by
    simp only [digitsValue?, List.foldlM_map, digitValue?_toLower]
  rw [← digitsValue?_iff] at h ⊢
  rw [← hlower, ← hu, hlower, h]

theorem Numeral.sameLetters (h : Numeral base t n) (hu : SameLetters t u) : Numeral base u n := by
  refine ⟨?_, h.2.sameLetters hu⟩
  rintro rfl
  exact h.1 (List.map_eq_nil_iff.1 hu)

theorem Sign.sameLetters (h : Sign negative s) (hu : SameLetters s u) : u = s :=
  hu.eq fun c hc => by rcases h.chars c hc with rfl | rfl <;> rfl

theorem SignedText.sameLetters {i : Int} (h : SignedText t i) (hu : SameLetters t u) : u = t := by
  obtain ⟨hs, hds⟩ := h
  refine hu.eq (List.forall_mem_append.2 ⟨fun c hc => ?_, fun c hc => ?_⟩)
  · rcases hs.chars c hc with rfl | rfl <;> rfl
  · exact isAlpha_of_isDigit ((numeral_ten_iff.1 hds).1.digits c hc)

theorem Mantissa.sameLetters (h : Mantissa m x) (hu : SameLetters m u) : u = m :=
  hu.eq fun c hc => by
    rcases h.chars c hc with hdigit | rfl
    · exact isAlpha_of_isDigit hdigit
    · rfl

/-- The letter of an exponent is looked for in either case. -/
theorem Exponent.sameLetters {p : Int} (h : Exponent t p) (hu : SameLetters t u) :
    Exponent u p := by
  cases h with
  | none =>
    obtain rfl := hu.eq (List.forall_mem_nil _)
    exact .none
  | some hmark hs hds =>
    obtain ⟨mark, us, rfl, hlower, hus⟩ := hu.of_cons
    obtain ⟨s, ds, rfl, hs', hds'⟩ := hus.of_append
    obtain rfl := hs.sameLetters hs'
    refine .some ?_ hs (hds.sameLetters hds')
    rcases hmark with rfl | rfl
    all_goals exact eq_of_toLower_eq hlower

theorem DecimalText.sameLetters (h : DecimalText t negative x) (hu : SameLetters t u) :
    DecimalText u negative x := by
  obtain ⟨hs, hm, he⟩ := h
  obtain ⟨_, _, rfl, hs', hu⟩ := hu.of_append
  obtain ⟨_, _, rfl, hm', he'⟩ := hu.of_append
  obtain rfl := hs.sameLetters hs'
  obtain rfl := hm.sameLetters hm'
  exact .mk hs (.mk hm (he.sameLetters he'))

theorem RadixText.sameLetters (h : RadixText t n) (hu : SameLetters t u) :
    RadixText u n ∨ CapitalMark u := by
  cases h with
  | octal h =>
    obtain ⟨zero, _, rfl, hzero, hu⟩ := hu.of_cons
    obtain ⟨mark, ds, rfl, hmark, hds⟩ := hu.of_cons
    obtain rfl := eq_of_not_isAlpha rfl hzero
    rcases eq_of_toLower_eq hmark with rfl | rfl
    · exact .inl (.octal (h.sameLetters hds))
    · exact .inr (.octal ds)
  | hexadecimal h =>
    obtain ⟨zero, _, rfl, hzero, hu⟩ := hu.of_cons
    obtain ⟨mark, ds, rfl, hmark, hds⟩ := hu.of_cons
    obtain rfl := eq_of_not_isAlpha rfl hzero
    rcases eq_of_toLower_eq hmark with rfl | rfl
    · exact .inl (.hexadecimal (h.sameLetters hds))
    · exact .inr (.hexadecimal ds)

theorem IntegerText.sameLetters {i : Int} (h : IntegerText t i) (hu : SameLetters t u) :
    IntegerText u i ∨ CapitalMark u := by
  cases h with
  | decimal h =>
    obtain rfl := h.sameLetters hu
    exact .inl (.decimal h)
  | radix h => exact (h.sameLetters hu).imp_left .radix

/-- There is no mark of a base in a numeral of base ten. -/
theorem DecimalText.not_capitalMark (h : DecimalText t negative x) : ¬ CapitalMark t := by
  have hchar {mark : Char} (hmark : mark ∈ t) (hcapital : mark = 'O' ∨ mark = 'X') : False := by
    have hchar := h.chars mark hmark
    rcases hcapital with rfl | rfl <;> exact absurd hchar (by decide)
  rintro (_ | _)
  · exact hchar (List.mem_cons_of_mem _ List.mem_cons_self) (.inl rfl)
  · exact hchar (List.mem_cons_of_mem _ List.mem_cons_self) (.inr rfl)

/-- In other capitals a number is the same, but for the mark of its base. -/
theorem NumberText.sameLetters {i : Number} (h : NumberText t i) (hu : SameLetters t u) :
    NumberText u i ∨ CapitalMark u := by
  cases h with
  | int h => exact (h.1.sameLetters hu).imp_left fun hint => .int ⟨hint, h.2⟩
  | radix h hfits hn => exact (h.sameLetters hu).imp_left fun hradix => .radix hradix hfits hn
  | decimal h hfits =>
    refine .inl (.decimal (h.sameLetters hu) ?_)
    rintro ⟨n, hint, hn⟩
    rcases hint.sameLetters hu.symm with hint | hmark
    · exact hfits ⟨n, hint, hn⟩
    · exact h.not_capitalMark hmark

/-! ## Plain scalars -/

/-- Behind the mark of a base in capitals, there is no number. -/
theorem plainValue_of_capitalMark (h : CapitalMark u) :
    plainValue u = .ok (.string (.ofList u)) := by
  have hzero : '0' ∈ u := by cases h <;> exact List.mem_cons_self
  refine plainValue_iff.2 (.string ?_ ?_ ?_)
  · rintro ⟨v, hv⟩
    cases hv.not_digit hzero
  · rintro ⟨i, hi⟩
    have hradix {n : Nat} : ¬ RadixText u n := by
      intro hradix
      cases h <;> cases hradix
    have hdecimal {negative : Bool} {x : ℚ} : ¬ DecimalText u negative x :=
      fun hx => hx.not_capitalMark h
    rcases hi with ⟨hint | hint, -⟩ | ⟨hint, -⟩ | ⟨hx, -⟩
    · obtain ⟨_, _, hx⟩ := hint.decimal
      exact hdecimal hx
    · exact hradix hint
    · exact hradix hint
    · exact hdecimal hx
  · intro hambiguous
    cases hambiguous.not_digit hzero

/--
What is no string in some capitals has the same value in others, or it is refused, unless a number
has got its mark in capitals: that is a string.
-/
theorem plainValue_capitals (hu : SameLetters t u) (h : plainValue t = .ok v)
    (hstring : ∀ text, v ≠ .string text) :
    (¬ CapitalMark u → plainValue u = .ok v ∨
      plainValue u = .error (.ambiguousLiteral (.ofList u))) ∧
    (CapitalMark u → plainValue u = .ok (.string (.ofList u))) := by
  refine ⟨fun hmark => ?_, plainValue_of_capitalMark⟩
  rw [plainValue_iff, plainValue_iff]
  cases plainValue_iff.1 h with
  | named hname => exact (hname.sameLetters hu).imp .named .ambiguous
  | number hnumber => exact .inl (.number ((hnumber.sameLetters hu).resolve_right hmark))
  | string => exact absurd rfl (hstring _)

theorem plainValue_capitals_digits :
    SameLetters ['0', 'x', '1', 'f'] ['0', 'x', '1', 'F'] ∧
      plainValue ['0', 'x', '1', 'f'] = .ok (.number (.int 31)) ∧
      ¬ CapitalMark ['0', 'x', '1', 'F'] ∧
      (plainValue ['0', 'x', '1', 'F'] = .ok (.number (.int 31)) ∨
        plainValue ['0', 'x', '1', 'F'] =
          .error (.ambiguousLiteral (.ofList ['0', 'x', '1', 'F']))) := by
  have hu : SameLetters ['0', 'x', '1', 'f'] ['0', 'x', '1', 'F'] := rfl
  have h : plainValue ['0', 'x', '1', 'f'] = .ok (.number (.int 31)) := by cbv
  have hmark : ¬ CapitalMark ['0', 'x', '1', 'F'] := by
    intro hmark
    cases hmark
  exact ⟨hu, h, hmark, (plainValue_capitals hu h fun _ => Value.noConfusion).1 hmark⟩

/-- `0x1F` is an integer, and `0X1F` a string. -/
theorem capital_mark_read_as_string :
    ¬ ∀ t u v, SameLetters t u → plainValue t = .ok v → (∀ text, v ≠ .string text) →
      plainValue u = .ok v ∨
        plainValue u = .error (.ambiguousLiteral (.ofList u)) := by
  intro h
  have hread : plainValue ['0', 'x', '1', 'F'] = .ok (.number (.int 31)) := by cbv
  have hstring : plainValue ['0', 'X', '1', 'F'] = .ok (.string "0X1F") := by cbv
  have hor := h ['0', 'x', '1', 'F'] ['0', 'X', '1', 'F'] _ rfl hread fun _ => Value.noConfusion
  rw [hstring] at hor
  rcases hor with hvalue | herror
  · cases hvalue
  · cases herror

end Schema

end Yaml

end PackageAudit
