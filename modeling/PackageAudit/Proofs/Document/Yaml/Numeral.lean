import PackageAudit.Proofs.Document.Yaml.Mapping

/-!
# Proofs.Document.Yaml.Numeral — digits of base sixteen as plain scalars

A reader of plain scalars looks for numbers first. A text of digits of base sixteen may happen to be
the numeral of another number in base ten.

* `Yaml.Numeric` — texts of digits, or of digits on both sides of an `e`;
* `Yaml.isSome_decimal?_numeric` — the numerals among texts of base sixteen;
* `Yaml.plainValue_of_long` — what such a text stands for, if it is too long to be a name.
-/

namespace PackageAudit

namespace Yaml

/-! ## Numerals with an exponent -/

variable {ds es : List Char}

/-- A digit of base sixteen, letters in lower case. -/
def HexChar (c : Char) : Prop :=
  c.isDigit = true ∨ ('a' ≤ c ∧ c ≤ 'f')

theorem HexChar.isAlphanum {c : Char} (h : HexChar c) : c.isAlphanum = true := by
  rcases h with h | ⟨hlow, hhigh⟩
  · rw [Char.isAlphanum, h, Bool.or_true]
  · have hlower : c.isLower = true := Bool.and_eq_true _ _ ▸
      ⟨decide_eq_true hlow, decide_eq_true (Char.le_trans hhigh (by decide))⟩
    have hletter : c.isAlpha = true := Bool.or_eq_true _ _ ▸ .inr hlower
    rw [Char.isAlphanum, hletter, Bool.true_or]

theorem HexChar.ne {c d : Char} (h : HexChar c) (hd : d.isAlphanum = false) : c ≠ d :=
  ne_of_isAlphanum hd h.isAlphanum

/-- No digit of base sixteen but `e` starts an exponent. -/
theorem HexChar.isExponentMark {c : Char} (h : HexChar c) (hc : c ≠ 'e') :
    (c == 'e' || c == 'E') = false := by
  have hE : c ≠ 'E' := by
    rintro rfl
    exact absurd h (by unfold HexChar; decide)
  rw [beq_eq_false_iff_ne.2 hc, beq_eq_false_iff_ne.2 hE]
  rfl

theorem splitAt?_of_forall {p : Char → Bool} (h : ∀ c ∈ ds, p c = false) :
    splitAt? p ds = (ds, none) := by
  have hall : ∀ c ∈ ds, (!p c) = true := fun c hc => by rw [h c hc]; rfl
  have htake : ds.takeWhile (!p ·) = ds := by
    rw [← List.append_nil ds, List.takeWhile_append_of_pos hall]
    rfl
  have hdrop : ds.dropWhile (!p ·) = [] := by
    rw [← List.append_nil ds, List.dropWhile_append_of_pos hall]
    rfl
  rw [splitAt?, htake, hdrop]
  rfl

theorem splitAt?_append {p : Char → Bool} {c : Char} (h : ∀ c ∈ ds, p c = false)
    (hc : p c = true) : splitAt? p (ds ++ c :: es) = (ds, some es) := by
  have hall : ∀ c ∈ ds, (!p c) = true := fun c hc => by rw [h c hc]; rfl
  have hstop : ¬ (!p c) = true := by rw [hc]; exact Bool.false_ne_true
  have htake : (c :: es).takeWhile (!p ·) = [] := List.takeWhile_cons_of_neg hstop
  have hdrop : (c :: es).dropWhile (!p ·) = c :: es := List.dropWhile_cons_of_neg hstop
  rw [splitAt?, List.takeWhile_append_of_pos hall, List.dropWhile_append_of_pos hall, htake, hdrop,
    List.append_nil]
  rfl

theorem splitSign_of_forall (h : ∀ c ∈ ds, HexChar c) : splitSign ds = (false, ds) := by
  unfold splitSign
  split
  · exact absurd rfl ((h _ List.mem_cons_self).ne (by decide))
  · exact absurd rfl ((h _ List.mem_cons_self).ne (by decide))
  · rfl

/-- One digit or more. -/
structure DigitRun (ds : List Char) : Prop where
  ne_nil : ds ≠ []
  digits : ∀ c ∈ ds, c.isDigit = true

theorem digitRun_iff : DigitRun ds ↔ ds.all Char.isDigit = true ∧ ds.isEmpty = false := by
  rw [List.all_eq_true, List.isEmpty_eq_false_iff]
  exact ⟨fun h => ⟨h.digits, h.ne_nil⟩, fun h => ⟨h.2, h.1⟩⟩

/-- Digits of base sixteen in front of the first `e`. -/
def Mantissa (ds : List Char) : Prop :=
  ∀ c ∈ ds, HexChar c ∧ c ≠ 'e'

/-- Without an exponent the only numerals are runs of digits. -/
theorem isSome_decimal?_iff (h : Mantissa ds) : (decimal? ds).isSome = true ↔ DigitRun ds := by
  have hmark : ∀ c ∈ ds, (c == 'e' || c == 'E') = false := fun c hc =>
    (h c hc).1.isExponentMark (h c hc).2
  have hpoint : ∀ c ∈ ds, (c == '.') = false := fun c hc =>
    beq_eq_false_iff_ne.2 ((h c hc).1.ne (by decide))
  rw [digitRun_iff, decimal?, splitAt?_of_forall hmark]
  dsimp only
  rw [splitAt?_of_forall hpoint]
  simp only [Option.getD_none, List.all_nil, List.isEmpty_nil, Option.map_none, and_true, true_and,
    Option.isSome_ite, Bool.not_eq_true]

/-- Around the letter of an exponent there are digits. -/
theorem isSome_decimal?_exponent (h : Mantissa ds) (hes : ∀ c ∈ es, HexChar c) :
    (decimal? (ds ++ 'e' :: es)).isSome = true ↔ DigitRun ds ∧ DigitRun es := by
  have hmark : ∀ c ∈ ds, (c == 'e' || c == 'E') = false := fun c hc =>
    (h c hc).1.isExponentMark (h c hc).2
  have hpoint : ∀ c ∈ ds, (c == '.') = false := fun c hc =>
    beq_eq_false_iff_ne.2 ((h c hc).1.ne (by decide))
  have hsign : splitSign es = (false, es) := splitSign_of_forall hes
  rw [digitRun_iff, digitRun_iff, decimal?, splitAt?_append hmark (by decide)]
  dsimp only
  rw [splitAt?_of_forall hpoint, Option.map_some, hsign]
  simp only [Option.getD_none, List.all_nil, List.isEmpty_nil, and_true, true_and,
    Bool.not_eq_true]
  split
  · next hds =>
    rw [and_iff_right hds]
    cases es.isEmpty <;> cases es.all Char.isDigit <;> simp
  · next hds => exact iff_of_false nofun fun h => hds h.1

/-! ## Plain values -/

/-- Texts of digits, or of digits on both sides of an `e`. -/
def Numeric (cs : List Char) : Prop :=
  DigitRun cs ∨ ∃ ds es, cs = ds ++ 'e' :: es ∧ DigitRun ds ∧ DigitRun es

theorem DigitRun.mantissa (h : DigitRun ds) : Mantissa ds := fun c hc => by
  refine ⟨.inl (h.digits c hc), ?_⟩
  rintro rfl
  exact absurd (h.digits _ hc) (by decide)

/-- The numerals among texts of base sixteen. -/
theorem isSome_decimal?_numeric {cs : List Char} (h : ∀ c ∈ cs, HexChar c) :
    (decimal? cs).isSome = true ↔ Numeric cs := by
  constructor
  · intro hsome
    by_cases he : 'e' ∈ cs
    · -- The first `e` ends the mantissa, so that the exponent may hold no other.
      obtain ⟨ds, es, rfl, hfirst⟩ := List.eq_append_cons_of_mem he
      have hds : Mantissa ds := fun c hc =>
        ⟨h c (List.mem_append_left _ hc), fun hce => hfirst (hce ▸ hc)⟩
      have hes : ∀ c ∈ es, HexChar c := fun c hc =>
        h c (List.mem_append_right _ (List.mem_cons_of_mem _ hc))
      exact .inr ⟨ds, es, rfl, (isSome_decimal?_exponent hds hes).1 hsome⟩
    · exact .inl ((isSome_decimal?_iff fun c hc => ⟨h c hc, fun hce => he (hce ▸ hc)⟩).1 hsome)
  · rintro (hcs | ⟨ds, es, rfl, hds, hes⟩)
    · exact (isSome_decimal?_iff hcs.mantissa).2 hcs
    · exact (isSome_decimal?_exponent hds.mantissa fun c hc => (hes.mantissa c hc).1).2 ⟨hds, hes⟩

theorem number?_eq_decimalNumber? {cs : List Char} (h : ∀ c ∈ cs, HexChar c) :
    number? cs = decimalNumber? cs := by
  have hne {c : Char} (hc : c ∈ cs) : c ≠ 'x' ∧ c ≠ 'o' := by
    constructor
    all_goals
      rintro rfl
      exact absurd (h _ hc) (by unfold HexChar; decide)
  unfold number?
  split
  · exact absurd rfl (hne (List.mem_cons_of_mem _ List.mem_cons_self)).1
  · exact absurd rfl (hne (List.mem_cons_of_mem _ List.mem_cons_self)).2
  · rfl

theorem isSome_number?_iff {cs : List Char} (h : ∀ c ∈ cs, HexChar c) :
    (number? cs).isSome = true ↔ Numeric cs := by
  rw [number?_eq_decimalNumber? h, decimalNumber?, splitSign_of_forall h]
  dsimp only
  split
  · next n hn =>
    have hinteger : integer? false cs = some n := (Option.filter_eq_some_iff.1 hn).1
    unfold integer? at hinteger
    split at hinteger
    · next hcs => exact iff_of_true rfl (.inl ⟨hcs.1, List.all_eq_true.1 hcs.2⟩)
    · cases hinteger
  · rw [Option.isSome_map, isSome_decimal?_numeric h]

/-- The names with a value of their own are short. -/
theorem namedValue?_of_long {text : String} (h : 5 < text.length) : namedValue? text = none := by
  unfold namedValue?
  split
  all_goals first | rfl | exact absurd h (by decide)

theorem isAmbiguous_of_long {text : String} (h : 5 < text.length) : isAmbiguous text = false := by
  rw [isAmbiguous, ← Bool.not_eq_true, List.contains_iff_mem]
  intro hmem
  have hshort : ∀ name ∈ ["null", "true", "false", ".inf", "+.inf", "-.inf", ".nan"],
      name.length ≤ 5 := by decide
  have := hshort _ hmem
  rw [String.length_map] at this
  omega

/-- A long text of base sixteen is a number if it is numeric, and else a string. -/
theorem plainValue_of_long {cs : List Char} (hlong : 5 < cs.length) (h : ∀ c ∈ cs, HexChar c) :
    (Numeric cs → ∃ n, plainValue cs = .ok (.number n)) ∧
      (¬ Numeric cs → plainValue cs = .ok (.string (.ofList cs))) := by
  have hlong' : 5 < (String.ofList cs).length := by rwa [String.length_ofList]
  have hnumber := isSome_number?_iff h
  rw [plainValue]
  rw [namedValue?_of_long hlong', isAmbiguous_of_long hlong']
  cases hn : number? cs with
  | some n => exact ⟨fun _ => ⟨n, rfl⟩, fun hnot => absurd (hnumber.1 (hn ▸ rfl)) hnot⟩
  | none =>
    refine ⟨fun hnumeric => ?_, fun _ => rfl⟩
    rw [hn] at hnumber
    cases hnumber.2 hnumeric

end Yaml

end PackageAudit
