import PackageAudit.Proofs.Document.Json.Completeness
import PackageAudit.Proofs.Document.Json.Standing

/-!
# Proofs.Document.Json.Literals — the number literals of relaxed rules

Where a point may stand without digits on one side, it may do so on both. Such a literal has no
digit but those of its exponent, and is read as zero.

* `Json.RelaxedNumeral` — literals with a digit in front of the exponent;
* `Json.BarePoint` — literals with a point only;
* `Json.looseNumeral_iff` — there are no others if no rule holds;
* `Json.readValue_number_iff` — where a value is a number;
* `Json.readValue_barePoint` — the rule about points refuses those that stand alone;
* `Json.number_literals` — which literals are read where points may stand alone, and as what.
-/

namespace PackageAudit

namespace Json

variable {o : JsonOptions} {l : Literal} {n : Number} {bs s rest : Bytes}

/-! ## Literals -/

/-- A digit at least, and a point in front of it, among them or behind them. -/
inductive Mantissa : Bytes → Option Bytes → Bytes → Prop where
  | integer {ds : Bytes} (h : Digits ds) : Mantissa ds none ds
  | point {ds fs : Bytes} (h : Digits ds) (hf : ∀ b ∈ fs, Digit b) :
      Mantissa ds (some fs) (ds ++ '.'.toUInt8 :: fs)
  | fraction {fs : Bytes} (h : Digits fs) : Mantissa [] (some fs) ('.'.toUInt8 :: fs)

/-- A literal with a digit in front of the exponent. -/
inductive RelaxedNumeral : Literal → Bytes → Prop where
  | mk {negative : Bool} {whole m e : Bytes} {fraction : Option Bytes}
      {exponent : Option (Bool × Bytes)} (hm : Mantissa whole fraction m)
      (he : Exponent exponent e) :
      RelaxedNumeral ⟨negative, whole, fraction, exponent⟩ (minus negative ++ (m ++ e))

theorem RelaxedNumeral.exists_digit (h : RelaxedNumeral l bs) : ∃ b ∈ bs, Digit b := by
  have hmem {m : Bytes} {negative : Bool} {e : Bytes} (h : ∃ b ∈ m, Digit b) :
      ∃ b ∈ minus negative ++ (m ++ e), Digit b := by
    obtain ⟨b, hb, hdigit⟩ := h
    exact ⟨b, List.mem_append_right _ (List.mem_append_left _ hb), hdigit⟩
  have hdigits {ds : Bytes} (h : Digits ds) : ∃ b ∈ ds, Digit b := by
    obtain ⟨b, hb⟩ := List.exists_mem_of_ne_nil ds h.1
    exact ⟨b, hb, h.2 b hb⟩
  cases h with
  | mk hm he =>
  refine hmem ?_
  cases hm with
  | integer h => exact hdigits h
  | point h =>
    obtain ⟨b, hb, hdigit⟩ := hdigits h
    exact ⟨b, List.mem_append_left _ hb, hdigit⟩
  | fraction h =>
    obtain ⟨b, hb, hdigit⟩ := hdigits h
    exact ⟨b, List.mem_cons_of_mem _ hb, hdigit⟩

/-- A literal with a point and no digit in front of the exponent. -/
inductive BarePoint : Literal → Bytes → Prop where
  | mk {negative : Bool} {e : Bytes} {exponent : Option (Bool × Bytes)} (he : Exponent exponent e) :
      BarePoint ⟨negative, [], some [], exponent⟩ (minus negative ++ '.'.toUInt8 :: e)

/-- A literal has a digit in front of the exponent, or a point only. -/
theorem looseNumeral_iff : LooseNumeral l bs ↔ RelaxedNumeral l bs ∨ BarePoint l bs := by
  constructor
  · intro h
    cases h with
    | @mk negative whole f e fraction exponent hw hf hne he =>
    cases hf with
    | none => exact .inl (.mk (.integer ⟨hne.resolve_right (· rfl), hw⟩) he)
    | @some fs hfs =>
      by_cases hwhole : whole = []
      · subst hwhole
        by_cases hfraction : fs = []
        · subst hfraction
          exact .inr (.mk he)
        · exact .inl (.mk (m := '.'.toUInt8 :: fs) (.fraction ⟨hfraction, hfs⟩) he)
      · rw [← List.append_assoc whole]
        exact .inl (.mk (.point ⟨hwhole, hw⟩ hfs) he)
  · rintro (h | h)
    · cases h with
      | mk hm he =>
      cases hm with
      | integer h => exact .mk h.2 .none (.inl h.1) he
      | point h hf =>
        rw [List.append_assoc]
        exact .mk h.2 (.some hf) (.inl h.1) he
      | fraction h => exact .mk (List.forall_mem_nil _) (.some h.2) (.inr nofun) he
    · cases h with
      | mk he =>
      exact .mk (List.forall_mem_nil _) (.some (List.forall_mem_nil _)) (.inr nofun) he

/-- Without digits there is nothing but zero, whatever the exponent. -/
theorem BarePoint.denotes_iff (h : BarePoint l bs) :
    Denotes l n ↔ n = .float (.finite l.negative 0) := by
  cases h with
  | mk he =>
  rw [Json.denotes_iff, eq_comm]
  rfl

/-- The literals that are read where points may stand alone. -/
structure Accepted (o : JsonOptions) (l : Literal) (bs : Bytes) : Prop where
  numeral : RelaxedNumeral l bs ∨ BarePoint l bs
  zeros : o.leadingZeros = true ∨ (l.whole.head? = some '0'.toUInt8 → l.whole.length = 1)

theorem accepted_iff (ho : o.malformedDecimals = true) :
    Accepted o l bs ↔ LooseNumeral l bs ∧ l.Allowed o := by
  rw [looseNumeral_iff]
  exact ⟨fun h => ⟨h.numeral, h.zeros, .inl ho⟩, fun h => ⟨h.1, h.2.zeros⟩⟩

/-! ## Numbers among values -/

variable {site : Site}

theorem readNumber_of_readScalar {b : UInt8} {x : Reading (b :: s) Scalar}
    (hx : readScalar o b s = some x) (hn : x.value = .number n) :
    Yields (readNumber o (b :: s)) n x.rest := by
  unfold readScalar at hx
  split at hx
  case h_1 =>
    obtain ⟨k, -, rfl⟩ := Option.map_eq_some_iff.1 hx
    cases hn
  case h_2 => cases (value_of_readWord hx).symm.trans hn
  case h_3 => cases (value_of_readWord hx).symm.trans hn
  case h_4 => cases (value_of_readWord hx).symm.trans hn
  case h_5 =>
    split at hx
    · obtain ⟨r, hr, rfl⟩ := Option.map_eq_some_iff.1 hx
      exact ⟨r, eq_ok_of_toOption hr, Scalar.number.inj hn, rfl⟩
    · cases hx

/-- A value is a number where `readNumber` finds one. -/
theorem readValue_number_iff :
    Yields (readValue o site s) (.number n) rest ↔ Yields (readNumber o s) n rest := by
  constructor
  · rintro ⟨v, hv, hn, rfl⟩
    have htree := settles o s site
    rw [hv] at htree
    obtain ⟨w, hw, rfl⟩ := Option.map_eq_some_iff.1 htree.symm
    cases s with
    | nil =>
      rw [readTree] at hw
      cases hw
    | cons b s =>
      by_cases hobject : Char.ofUInt8 b = '\x7b'
      · obtain ⟨-, ⟨close, -, rfl⟩ | ⟨-, members, -, rfl⟩⟩ := readTree_object hobject hw <;>
          cases hn
      by_cases harray : Char.ofUInt8 b = '['
      · obtain ⟨-, ⟨close, -, rfl⟩ | ⟨-, items, -, rfl⟩⟩ := readTree_array hobject harray hw <;>
          cases hn
      obtain ⟨x, hx, rfl⟩ := readTree_scalar hobject harray hw
      refine readNumber_of_readScalar hx ?_
      cases hvalue : x.value <;> rw [Reading.map, Reading.map, hvalue] at hn <;> cases hn
      rfl
  · intro h
    obtain ⟨l, bs, hl, ho, -, hs, -⟩ := readNumber_iff.1 h
    obtain ⟨b, t, rfl, hb⟩ := head_of_literal hl ho
    rw [hs] at h ⊢
    exact readValue_number hb h

/-- What begins as a number is no other value. -/
theorem exists_number_of_readValue {b : UInt8} {v : Value} (hb : StartsNumber .legacy b)
    (h : Yields (readValue o site (b :: s)) v rest) : ∃ n, v = .number n := by
  rw [readValue] at h
  split at h
  case h_1 hc => exact absurd hc (hb.ne (by decide) (by decide))
  case h_2 hc => exact absurd hc (hb.ne (by decide) (by decide))
  case h_3 hc => exact absurd hc (hb.ne (by decide) (by decide))
  case h_4 hc => exact absurd hc (hb.ne (by decide) (by decide))
  case h_5 hc => exact absurd hc (hb.ne (by decide) (by decide))
  case h_6 hc => exact absurd hc (hb.ne (by decide) (by decide))
  case h_7 =>
    split at h
    · obtain ⟨r, -, rfl, -⟩ := map_yields.1 h
      exact ⟨r.value, rfl⟩
    · exact absurd h not_yields_error

/-- A literal with digits in front of the point does not begin like a point that stands alone. -/
theorem BarePoint.ne_literal {l' : Literal} {bs' rest' : Bytes} (h : BarePoint l bs)
    (hl : LooseNumeral l' bs') (hwhole : l'.whole ≠ []) : bs ++ rest ≠ bs' ++ rest' := by
  cases h with
  | @mk negative e exponent he =>
  cases hl with
  | @mk negative' whole f e' fraction exponent' hw hf hne he' =>
  cases whole with
  | nil => exact absurd rfl hwhole
  | cons d ds =>
  have hd : Digit d := hw d List.mem_cons_self
  intro heq
  cases negative <;> cases negative'
  · exact absurd ((List.cons.inj heq).1 ▸ hd) (by decide)
  · exact absurd (List.cons.inj heq).1 (by decide)
  · exact absurd ((List.cons.inj heq).1 ▸ hd) (by decide)
  · exact absurd ((List.cons.inj (List.cons.inj heq).2).1 ▸ hd) (by decide)

theorem BarePoint.not_yields {v : Value} {rest' : Bytes} (h : BarePoint l bs)
    (ho : o.malformedDecimals = false) : ¬ Yields (readValue o site (bs ++ rest)) v rest' := by
  intro hread
  obtain ⟨b, t, hbs, hb⟩ : ∃ b t, bs = b :: t ∧ StartsNumber .legacy b :=
    head_of_literal (looseNumeral_iff.2 (.inr h)) ⟨.inl rfl, .inl rfl⟩
  obtain ⟨n, rfl⟩ : ∃ n, v = .number n := exists_number_of_readValue hb (hbs ▸ hread)
  obtain ⟨l', bs', hl', ho', -, heq, -⟩ := readNumber_iff.1 (readValue_number_iff.1 hread)
  have hpoint := ho'.point.resolve_left (by rw [ho]; exact Bool.false_ne_true)
  exact h.ne_literal hl' hpoint.1 heq

/-- A point that stands alone is refused unless the rules allow it. -/
theorem readValue_barePoint (ho : o.malformedDecimals = false) (h : BarePoint l bs) :
    ∃ stop, readValue o site (bs ++ rest) = .error stop := by
  cases hread : readValue o site (bs ++ rest) with
  | error stop => exact ⟨stop, rfl⟩
  | ok r => exact absurd ⟨r, hread, rfl, rfl⟩ (h.not_yields ho)

/-! ## Documents -/

/--
Which literals are read where points may stand without digits, and what stands in the text of a
document for its numbers. Among them are points without any digit: they are read as zero, though
such a literal is refused where points need digits.
-/
theorem number_literals (o : JsonOptions) (ho : o.malformedDecimals = true) :
    (∀ site s n rest, Yields (readValue o site s) (.number n) rest ↔
      ∃ l bs, Accepted o l bs ∧ Denotes l n ∧ s = bs ++ rest ∧ l.Ends rest) ∧
    (∀ s d, read o s = .ok d → d.root.AllNumbers fun n =>
      ∃ l bs front rest, Accepted o l bs ∧ Denotes l n ∧ s = front ++ (bs ++ rest) ∧
        Clear front ∧ l.Ends rest) ∧
    (∀ l bs n, BarePoint l bs → (Denotes l n ↔ n = .float (.finite l.negative 0))) ∧
    ∀ o' : JsonOptions, o'.malformedDecimals = false → ∀ site l bs rest, BarePoint l bs →
      ∃ stop, readValue o' site (bs ++ rest) = .error stop := by
  refine ⟨fun site s n rest => ?_, fun s d hread => ?_, fun l bs n h => h.denotes_iff,
    fun o' ho' site l bs rest h => readValue_barePoint ho' h⟩
  · rw [readValue_number_iff, readNumber_iff]
    simp only [accepted_iff ho, and_assoc]
  · refine (readIn_of_read hread).numbers.mono fun n hn => ?_
    obtain ⟨l, ⟨bs, front, rest, hl, hallowed, hs, hclear, hends⟩, hn⟩ := hn
    exact ⟨l, bs, front, rest, (accepted_iff ho).2 ⟨hl, hallowed⟩, hn, hs, hclear, hends⟩

/-- A text with a point and nothing else. -/
theorem number_literals_point :
    JsonOptions.legacy.malformedDecimals = true ∧
      Yields (readValue .legacy ⟨0, []⟩ (textBytes ".")) (.number (.float (.finite false 0))) [] ∧
      ∃ stop, readValue .strict ⟨0, []⟩ (textBytes ".") = .error stop := by
  obtain ⟨hvalue, -, hzero, hstrict⟩ := number_literals .legacy rfl
  have hpoint : BarePoint ⟨false, [], some [], none⟩ (textBytes ".") := .mk .none
  refine ⟨rfl, (hvalue _ _ _ _).2 ⟨_, _, ⟨.inr hpoint, .inl rfl⟩, (hzero _ _ _ hpoint).2 rfl, rfl,
    nofun⟩, hstrict .strict rfl _ _ (textBytes ".") [] hpoint⟩

/-- A literal without a digit in front of the exponent is accepted, and its value is zero. -/
theorem read_point_as_zero :
    JsonOptions.legacy.malformedDecimals = true ∧
      read .legacy (textBytes ".") = .ok ⟨.number (.float (.finite false 0))⟩ ∧
      ¬ ∃ l, RelaxedNumeral l (textBytes ".") := by
  refine ⟨rfl, by cbv, ?_⟩
  rintro ⟨l, h⟩
  obtain ⟨b, hb, hdigit⟩ := h.exists_digit
  have hb : b ∈ ['.'.toUInt8] := hb
  rw [List.mem_singleton.1 hb] at hdigit
  exact absurd hdigit (by decide)

end Json

end PackageAudit
