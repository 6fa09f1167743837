import PackageAudit.Document.Printer
import PackageAudit.Proofs.Binary64.Decimal
import PackageAudit.Proofs.Document.Json.Number
import PackageAudit.Proofs.Text.Utf8

/-!
# Proofs.Document.NumberText — numbers are written as literals that read back

* `Json.natural_encode` — the number that written digits stand for;
* `Json.spells_int` — the text of an integer of 64 bits;
* `Json.FloatChars` — a text is a literal, with a point or an exponent, of a given value;
* `Json.spells_float` — the text of a finite double.
-/

namespace PackageAudit

/-! ## Digits -/

namespace Json

variable {cs : List Char} {n : Nat}

/-- Decimal digits only. -/
def DigitChars (cs : List Char) : Prop :=
  ∀ c ∈ cs, c.isDigit = true

theorem DigitChars.append {ds : List Char} (hcs : DigitChars cs) (hds : DigitChars ds) :
    DigitChars (cs ++ ds) :=
  fun c hc => (List.mem_append.1 hc).elim (hcs c) (hds c)

theorem digitChars_replicate (n : Nat) : DigitChars (List.replicate n '0') := by
  intro c hc
  rw [List.eq_of_mem_replicate hc]
  rfl

theorem digitChars_toDigits (n : Nat) : DigitChars (Nat.toDigits 10 n) :=
  fun _ hc => Nat.isDigit_of_mem_toDigits (by decide) (by decide) hc

theorem lt_of_isDigit {c : Char} (h : c.isDigit = true) : c.toNat < 0x80 := by
  rw [Char.isDigit, Bool.and_eq_true, decide_eq_true_eq, decide_eq_true_eq] at h
  exact Nat.lt_of_le_of_lt h.2 (by decide)

theorem encode_ascii (h : ∀ c ∈ cs, c.toNat < 0x80) : Utf8.encode cs = cs.map Char.toUInt8 := by
  induction cs with
  | nil => rfl
  | cons c cs ih =>
    rw [Utf8.encode_cons, Utf8.encodeChar_of_lt (h c List.mem_cons_self),
      ih fun d hd => h d (List.mem_cons_of_mem c hd)]
    rfl

theorem DigitChars.encode (h : DigitChars cs) : Utf8.encode cs = cs.map Char.toUInt8 :=
  encode_ascii fun c hc => lt_of_isDigit (h c hc)

theorem DigitChars.digits (h : DigitChars cs) (hne : cs ≠ []) : Digits (Utf8.encode cs) := by
  rw [h.encode]
  refine ⟨fun hmap => hne (List.map_eq_nil_iff.1 hmap), fun b hb => ?_⟩
  obtain ⟨c, hc, rfl⟩ := List.mem_map.1 hb
  have hbyte : c.toNat < 256 := Nat.lt_trans (lt_of_isDigit (h c hc)) (by decide)
  rw [← isDigit_iff, isDigit, (ofUInt8_eq_iff hbyte).2 rfl]
  exact h c hc

theorem ofUInt8_toUInt8 {c : Char} (h : c.isDigit = true) : Char.ofUInt8 c.toUInt8 = c :=
  (ofUInt8_eq_iff (Nat.lt_trans (lt_of_isDigit h) (by decide))).2 rfl

/-- Digits stand for the number that they were written from. -/
theorem DigitChars.natural (h : DigitChars cs) :
    natural (Utf8.encode cs) = Nat.ofDigitChars 10 cs 0 := by
  have hback : (cs.map Char.toUInt8).map Char.ofUInt8 = cs := by
    rw [List.map_map]
    exact (List.map_congr_left fun c hc => ofUInt8_toUInt8 (h c hc)).trans (List.map_id cs)
  rw [h.encode, ← digits_eq_natural, Literal.digits, hback]
  rfl

theorem head_toDigits (h : 0 < n) : (Nat.toDigits 10 n).head? ≠ some '0' := by
  induction n using Nat.base_induction 10 (by decide) with
  | single m hm =>
    rw [Nat.toDigits_of_lt_base hm, List.head?_singleton, ne_eq, Option.some_inj,
      Nat.digitChar_eq_zero]
    exact h.ne'
  | digit m k hk hm ih =>
    rw [← Nat.toDigits_append_toDigits (by decide) hm hk,
      List.head?_append_of_ne_nil _ Nat.toDigits_ne_nil]
    exact ih hm

/-- No zero stands in front of other digits. -/
theorem DigitChars.whole (h : DigitChars cs) (hne : cs ≠ [])
    (hhead : cs.head? = some '0' → cs.length = 1) : Whole (Utf8.encode cs) := by
  refine ⟨h.digits hne, ?_⟩
  rw [h.encode, List.head?_map, List.length_map]
  intro hzero
  obtain ⟨c, hc, hbyte⟩ := Option.map_eq_some_iff.1 hzero
  have hback := ofUInt8_toUInt8 (h c (List.mem_of_head? hc))
  rw [hbyte] at hback
  exact hhead (hc.trans (congrArg some hback.symm))

theorem whole_toDigits (n : Nat) : Whole (Utf8.encode (Nat.toDigits 10 n)) := by
  refine (digitChars_toDigits n).whole Nat.toDigits_ne_nil fun hhead => ?_
  rcases Nat.eq_zero_or_pos n with rfl | hn
  · rw [Nat.toDigits_zero]
    rfl
  · exact absurd hhead (head_toDigits hn)

theorem natural_toDigits (n : Nat) : natural (Utf8.encode (Nat.toDigits 10 n)) = n := by
  rw [(digitChars_toDigits n).natural, Nat.ofDigitChars_ten_toDigits]

/-! ## Integers -/

theorem toList_toString (n : Int) :
    (toString n).toList = (if n < 0 then ['-'] else []) ++ Nat.toDigits 10 n.natAbs := by
  rw [Int.toString_eq_repr, Int.repr_eq_if]
  by_cases h : 0 ≤ n
  · rw [if_pos h, if_neg (Int.not_lt.2 h), Nat.toList_repr, List.nil_append]
    congr 1
    omega
  · rw [if_neg h, if_pos (Int.not_le.1 h), String.toList_append, Nat.toList_repr]
    congr 2
    omega

theorem encode_sign {p : Prop} [Decidable p] :
    Utf8.encode (if p then ['-'] else []) = minus (decide p) := by
  by_cases h : p
  · rw [if_pos h, decide_eq_true h]
    rfl
  · rw [if_neg h, decide_eq_false h]
    rfl

/-- An integer of 64 bits is written as a literal that stands for it. -/
theorem spells_int {n : Int} (h : Fits n) :
    ∃ l, Numeral l (textBytes (toString n)) ∧ Denotes l (.int n) := by
  let l : Literal := ⟨decide (n < 0), Utf8.encode (Nat.toDigits 10 n.natAbs), none, none⟩
  have hinteger : l.integer = n := by
    unfold Literal.integer
    rw [natural_toDigits]
    by_cases hn : n < 0
    · rw [if_pos (decide_eq_true hn)]
      omega
    · rw [if_neg (by simpa [l] using hn)]
      omega
  have hdenotes : Denotes l (.int l.integer) := .int rfl rfl (hinteger.symm ▸ h)
  refine ⟨l, ?_, hinteger ▸ hdenotes⟩
  rw [textBytes, toList_toString, Utf8.encode_append, encode_sign]
  have hnumeral : Numeral l
      (minus (decide (n < 0)) ++ (Utf8.encode (Nat.toDigits 10 n.natAbs) ++ [])) :=
    .mk (whole_toDigits n.natAbs) .none .none
  rwa [List.append_nil] at hnumeral

/-! ## Doubles -/

/-- The characters are an unsigned literal with a point or an exponent, of the given value. -/
def FloatChars (cs : List Char) (x : ℚ) : Prop :=
  ∃ (l : Literal) (f e : Bytes), Whole l.whole ∧ Fraction l.fraction f ∧ Exponent l.exponent e ∧
    (l.fraction ≠ none ∨ l.exponent ≠ none) ∧ Utf8.encode cs = l.whole ++ (f ++ e) ∧
    l.decimal.value = x

theorem length_encode (h : DigitChars cs) : (Utf8.encode cs).length = cs.length := by
  rw [h.encode, List.length_map]

/-- Digits around a point. -/
theorem floatChars_point {whole fraction : List Char} (hw : DigitChars whole) (hne : whole ≠ [])
    (hhead : whole.head? = some '0' → whole.length = 1) (hf : DigitChars fraction)
    (hne' : fraction ≠ []) :
    FloatChars (whole ++ '.' :: fraction)
      (Decimal.value ⟨Nat.ofDigitChars 10 (whole ++ fraction) 0, -(fraction.length : Int)⟩) := by
  refine ⟨⟨false, Utf8.encode whole, some (Utf8.encode fraction), none⟩, _, [],
    hw.whole hne hhead, .some (hf.digits hne'), .none, .inl (Option.some_ne_none _), ?_, ?_⟩
  · rw [Utf8.encode_append, List.append_nil]
    rfl
  · rw [Literal.decimal]
    dsimp only [Option.getD_some]
    rw [digits_eq_natural, ← Utf8.encode_append, (hw.append hf).natural, length_encode hf,
      Int.zero_sub]

theorem head_digits_append {n : Nat} (hn : 0 < n) (cs : List Char) :
    (Nat.toDigits 10 n ++ cs).head? ≠ some '0' := by
  rw [List.head?_append_of_ne_nil _ Nat.toDigits_ne_nil]
  exact head_toDigits hn

/-- An integer is written with zeros up to the point, and one behind it. -/
theorem floatChars_integral {n k : Nat} (h : 0 < n ∨ k = 0) :
    FloatChars (Nat.toDigits 10 n ++ List.replicate k '0' ++ ['.', '0'])
      (Decimal.value ⟨n, k⟩) := by
  have hwhole := (digitChars_toDigits n).append (digitChars_replicate k)
  have hne := List.append_ne_nil_of_left_ne_nil (Nat.toDigits_ne_nil (n := n) (b := 10))
    (List.replicate k '0')
  have hhead : (Nat.toDigits 10 n ++ List.replicate k '0').head? = some '0' →
      (Nat.toDigits 10 n ++ List.replicate k '0').length = 1 := by
    intro hzero
    rcases Nat.eq_zero_or_pos n with rfl | hn
    · rw [h.resolve_left (Nat.lt_irrefl 0), Nat.toDigits_zero]
      rfl
    · exact absurd hzero (head_digits_append hn _)
  have hpoint := floatChars_point hwhole hne hhead (digitChars_replicate 1) (List.cons_ne_nil _ _)
  have hvalue : Decimal.value
      ⟨Nat.ofDigitChars 10 (Nat.toDigits 10 n ++ List.replicate k '0' ++ List.replicate 1 '0') 0,
        -(List.length (List.replicate 1 '0') : Int)⟩ = Decimal.value ⟨n, k⟩ := by
    rw [Nat.ofDigitChars_append, Nat.ofDigitChars_append, Nat.ofDigitChars_ten_toDigits,
      Nat.ofDigitChars_replicate_zero, Nat.ofDigitChars_replicate_zero, List.length_replicate,
      Decimal.value, Decimal.value]
    push_cast
    rw [zpow_natCast, zpow_neg, zpow_one]
    ring
  exact hvalue ▸ hpoint

/-- A number below the last digits is written with zeros behind the point. -/
theorem floatChars_fractional {n places : Nat} (hn : 0 < n) (hplaces : 0 < places)
    {padded : List Char}
    (hpadded : padded =
      List.replicate (places + 1 - (Nat.toDigits 10 n).length) '0' ++ Nat.toDigits 10 n) :
    FloatChars
      (padded.take (padded.length - places) ++ '.' :: padded.drop (padded.length - places))
      (Decimal.value ⟨n, -(places : Int)⟩) := by
  have hlength : padded.length =
      places + 1 - (Nat.toDigits 10 n).length + (Nat.toDigits 10 n).length := by
    rw [hpadded, List.length_append, List.length_replicate]
  have hdigits : DigitChars padded :=
    hpadded ▸ (digitChars_replicate _).append (digitChars_toDigits n)
  have hhead : (padded.take (padded.length - places)).head? = some '0' →
      (padded.take (padded.length - places)).length = 1 := by
    intro hzero
    rw [List.length_take]
    by_cases hpad : places + 1 ≤ (Nat.toDigits 10 n).length
    · -- nothing was put in front, and the first digit is no zero
      rw [Nat.sub_eq_zero_of_le hpad, List.replicate_zero, List.nil_append] at hpadded
      rw [List.head?_take, if_neg (by omega), hpadded] at hzero
      exact absurd hzero (head_toDigits hn)
    · omega
  have hfront : padded.take (padded.length - places) ≠ [] := by
    rw [← List.length_pos_iff, List.length_take]
    omega
  have hback : padded.drop (padded.length - places) ≠ [] := by
    rw [← List.length_pos_iff, List.length_drop]
    omega
  have hpoint := floatChars_point (fun c hc => hdigits c (List.mem_of_mem_take hc)) hfront hhead
    (fun c hc => hdigits c (List.mem_of_mem_drop hc)) hback
  rw [List.take_append_drop, List.length_drop] at hpoint
  have hvalue : Nat.ofDigitChars 10 padded 0 = n := by
    rw [hpadded, Nat.ofDigitChars_append, Nat.ofDigitChars_replicate_zero, Nat.mul_zero,
      Nat.ofDigitChars_ten_toDigits]
  have hbehind : padded.length - (padded.length - places) = places := by omega
  rwa [hvalue, hbehind] at hpoint

theorem floatChars_positional {n : Nat} {e : Int} (h : 0 < n ∨ e = 0) :
    FloatChars (Binary64.positional Binary64.plain (Nat.toDigits 10 n) e)
      (Decimal.value ⟨n, e⟩) := by
  unfold Binary64.positional
  by_cases he : 0 ≤ e
  · rw [if_pos he]
    have hpoint := floatChars_integral (h.imp_right fun h => by omega : 0 < n ∨ e.toNat = 0)
    rwa [Int.toNat_of_nonneg he] at hpoint
  · rw [if_neg he]
    have hplaces : 0 < (-e).toNat := by omega
    have hpoint := floatChars_fractional (h.resolve_right (by omega)) hplaces rfl
    rwa [Int.toNat_of_nonneg (by omega), Int.neg_neg] at hpoint

/-- An exponent is written as an integer. -/
theorem exponent_toString (power : Int) :
    Exponent (some (decide (power < 0), Utf8.encode (Nat.toDigits 10 power.natAbs)))
      ('e'.toUInt8 :: Utf8.encode (toString power).toList) := by
  rw [toList_toString, Utf8.encode_append]
  have hdigits := (whole_toDigits power.natAbs).1
  by_cases h : power < 0
  · rw [if_pos h, decide_eq_true h]
    exact .some (.inl rfl) .minus hdigits
  · rw [if_neg h, decide_eq_false h]
    exact .some (.inl rfl) .none hdigits

theorem decimal_of_exponent {whole : Bytes} {fraction : Option Bytes} (power : Int) :
    Literal.decimal ⟨false, whole, fraction,
        some (decide (power < 0), Utf8.encode (Nat.toDigits 10 power.natAbs))⟩ =
      ⟨natural (whole ++ fraction.getD []), power - (fraction.getD []).length⟩ := by
  unfold Literal.decimal
  by_cases h : power < 0
  · rw [decide_eq_true h]
    simp only [digits_eq_natural, natural_toDigits]
    congr 2
    omega
  · rw [decide_eq_false h]
    simp only [digits_eq_natural, natural_toDigits]
    congr 2
    omega

/-- One digit before the point, the others behind it, and an exponent. -/
theorem floatChars_scientific {n : Nat} {e : Int} :
    FloatChars
      (Binary64.scientific (Nat.toDigits 10 n) (e + ((Nat.toDigits 10 n).length - 1 : Nat)))
      (Decimal.value ⟨n, e⟩) := by
  have hdigits := digitChars_toDigits n
  have hvalue : Nat.ofDigitChars 10 (Nat.toDigits 10 n) 0 = n := Nat.ofDigitChars_ten_toDigits
  cases hcs : Nat.toDigits 10 n with
  | nil => exact absurd hcs Nat.toDigits_ne_nil
  | cons d ds =>
    rw [hcs] at hdigits hvalue
    have hfirst : DigitChars [d] := fun c hc =>
      hdigits c (List.mem_cons.2 (.inl (List.mem_singleton.1 hc)))
    have hwhole : Whole (Utf8.encode [d]) := hfirst.whole (List.cons_ne_nil _ _) fun _ => rfl
    have hexponent := exponent_toString (e + ds.length)
    have hvalue' : natural (Utf8.encode [d] ++ Utf8.encode ds) = n := by
      rw [← Utf8.encode_append, List.singleton_append, hdigits.natural, hvalue]
    rw [List.length_cons, Nat.add_sub_cancel]
    cases ds with
    | nil =>
      -- A single digit has no point behind it, and is a float because of its exponent.
      refine ⟨⟨false, Utf8.encode [d], none, _⟩, [], _, hwhole, .none, hexponent,
        .inr (Option.some_ne_none _), Utf8.encode_append [d] ('e' :: _), ?_⟩
      rw [decimal_of_exponent, Option.getD_none, List.length_nil, List.length_nil,
        Int.natCast_zero, Int.add_zero, Int.sub_zero]
      exact congrArg (fun n => Decimal.value ⟨n, e⟩) hvalue'
    | cons d' ds =>
      have hfraction : DigitChars (d' :: ds) := fun c hc => hdigits c (List.mem_cons_of_mem d hc)
      refine ⟨⟨false, Utf8.encode [d], some (Utf8.encode (d' :: ds)), _⟩, _, _, hwhole,
        .some (hfraction.digits (List.cons_ne_nil _ _)), hexponent,
        .inl (Option.some_ne_none _), ?_, ?_⟩
      · change Utf8.encode ([d] ++ ('.' :: ((d' :: ds) ++ 'e' :: _))) = _
        rw [Utf8.encode_append]
        exact congrArg (fun t => Utf8.encode [d] ++ '.'.toUInt8 :: t)
          (Utf8.encode_append (d' :: ds) ('e' :: _))
      · rw [decimal_of_exponent, Option.getD_some, length_encode hfraction, hvalue',
          Int.add_sub_cancel]

/-- The text of a finite double without its sign. -/
theorem floatChars_decimalText {d : Decimal} (h : 0 < d.digits ∨ d = ⟨0, 0⟩) :
    FloatChars (Binary64.decimalText Binary64.plain d) d.value := by
  have hexponent : 0 < d.digits ∨ d.exponent = 0 := h.imp_right fun h => by rw [h]
  unfold Binary64.decimalText
  rw [Nat.toString_eq_repr, Nat.toList_repr]
  dsimp only
  split_ifs
  · exact floatChars_positional hexponent
  · exact floatChars_scientific

theorem digits_shortest_pos {index : Fin Binary64.overflow} (h : index.val ≠ 0) :
    0 < (Binary64.shortest index).digits := by
  refine Nat.pos_of_ne_zero fun hzero => h ?_
  rw [← Binary64.nearestIndex_shortest, Decimal.value, hzero, Nat.cast_zero, zero_mul,
    Binary64.nearestIndex, if_pos rfl]

/-- The numeral that a grid point is written as reads back as that point. -/
theorem floatChars_gridPoint (index : Fin Binary64.overflow) :
    ∃ x, Binary64.nearestIndex x = index ∧
      FloatChars (Binary64.decimalText Binary64.plain
        (if index.val = 0 then ⟨0, 0⟩ else Binary64.shortest index)) x := by
  by_cases h : index.val = 0
  · rw [if_pos h]
    refine ⟨_, ?_, floatChars_decimalText (.inr rfl)⟩
    rw [h, Decimal.value, Nat.cast_zero, zero_mul, Binary64.nearestIndex, if_pos rfl]
  · rw [if_neg h]
    exact ⟨_, Binary64.nearestIndex_shortest index,
      floatChars_decimalText (.inl (digits_shortest_pos h))⟩

/-- A finite double is written as a literal that stands for it. -/
theorem spells_float {x : Binary64} (h : x.isFinite = true) :
    ∃ l, Numeral l (textBytes (Number.text (.float x))) ∧ Denotes l (.float x) := by
  cases x with
  | infinite | nan => cases h
  | finite negative index =>
    obtain ⟨x, hindex, l, f, e, hw, hf, he, hfloat, hencode, rfl⟩ := floatChars_gridPoint index
    refine ⟨⟨negative, l.whole, l.fraction, l.exponent⟩, ?_, ?_⟩
    · rw [Number.text, textBytes, String.toList_ofList, Binary64.text, Utf8.encode_append,
        encode_sign, hencode, Bool.decide_eq_true]
      exact .mk hw hf he
    · have hdouble : Binary64.ofDecimal negative l.decimal = .finite negative index := by
        rw [Binary64.ofDecimal_eq, Binary64.ofIndex_eq_finite, hindex]
      rw [← hdouble]
      exact .float (hfloat.imp_right .inl)

end Json

end PackageAudit
