import Mathlib.Data.List.Induction
import Mathlib.Data.List.TakeWhile
import PackageAudit.Document.Json.Number
import PackageAudit.Proofs.Document.Json.Grammar

/-!
# Proofs.Document.Json.Number — numbers are read as the grammar spells them

* `Json.Yields` — a reader's value and the rest it leaves;
* `Json.denotes_iff` — the value that the reader gives a literal is the number it stands for;
* `Json.readExponent_iff`, `Json.readNumber_iff` — under any rules, a number is found where a literal
  stands that the rules allow, and the literal is read to its end;
* `Json.numeral_of_readNumber`, `Json.readNumber_numeral` — the same under every rule.
-/

namespace PackageAudit

namespace Json

variable {b : UInt8} {c : Char} {s r rest : Bytes}

/-- Reading succeeds with this value and leaves this rest. -/
def Yields {α ε : Type} (result : Except ε (Reading s α)) (value : α) (rest : Bytes) : Prop :=
  ∃ r, result = .ok r ∧ r.value = value ∧ r.rest = rest

section Yields

variable {α ε : Type}

theorem yields_ok {r : Reading s α} {a : α} :
    Yields (.ok r : Except ε (Reading s α)) a rest ↔ r.value = a ∧ r.rest = rest := by
  constructor
  · rintro ⟨_, ⟨⟩, h⟩
    exact h
  · exact fun h => ⟨r, rfl, h⟩

theorem not_yields_error {e : ε} {a : α} :
    ¬ Yields (.error e : Except ε (Reading s α)) a rest := by
  rintro ⟨_, ⟨⟩, _⟩

end Yields

/-! ## One character -/

theorem toNat_toUInt8 (h : c.toNat < 256) : c.toUInt8.toNat = c.toNat :=
  Nat.mod_eq_of_lt h

theorem toNat_ofUInt8 (b : UInt8) : (Char.ofUInt8 b).toNat = b.toNat :=
  rfl

theorem ofUInt8_eq_iff (h : c.toNat < 256) : Char.ofUInt8 b = c ↔ b = c.toUInt8 := by
  rw [← Char.toNat_inj, toNat_ofUInt8, ← UInt8.toNat_inj, toNat_toUInt8 h]

theorem after?_cons (h : c.toNat < 256) : after? c (c.toUInt8 :: s) = some s :=
  if_pos (toNat_toUInt8 h)

theorem eq_cons_of_after? (h : c.toNat < 256) (hs : after? c s = some r) :
    s = c.toUInt8 :: r := by
  cases s with
  | nil => cases hs
  | cons b rest =>
    simp only [after?] at hs
    split_ifs at hs with hb
    cases hs
    rw [UInt8.toNat_inj.1 (hb.trans (toNat_toUInt8 h).symm)]

theorem after?_eq_none_iff (h : c.toNat < 256) :
    after? c s = none ↔ ∀ b, s.head? = some b → b ≠ c.toUInt8 := by
  constructor
  · rintro hnone b hb rfl
    obtain ⟨t, rfl⟩ := List.head?_eq_some_iff.1 hb
    cases hnone.symm.trans (after?_cons h)
  · intro hs
    cases hresult : after? c s with
    | none => rfl
    | some r => exact absurd rfl (hs _ (by rw [eq_cons_of_after? h hresult]; rfl))

/-! ## Digits -/

theorem isDigit_iff : isDigit b = true ↔ Digit b := by
  rw [isDigit, Char.isDigit, Bool.and_eq_true, decide_eq_true_eq, decide_eq_true_eq]
  exact Iff.rfl

theorem digits_takeWhile (h : s.takeWhile isDigit ≠ []) : Digits (s.takeWhile isDigit) :=
  ⟨h, fun _ hb => isDigit_iff.1 (List.mem_takeWhile_imp hb)⟩

theorem not_digit_of_dropWhile (hb : (s.dropWhile isDigit).head? = some b) : ¬ Digit b := by
  intro h
  have hstop := List.head?_dropWhile_not isDigit s
  rw [hb] at hstop
  exact Bool.false_ne_true (hstop.symm.trans (isDigit_iff.2 h))

/-- A run of digits is read to its end. -/
theorem span_digits {ds : Bytes} (hds : ∀ b ∈ ds, Digit b)
    (hrest : ∀ b, rest.head? = some b → ¬ Digit b) :
    (ds ++ rest).takeWhile isDigit = ds ∧ (ds ++ rest).dropWhile isDigit = rest := by
  have hds' : ∀ b ∈ ds, isDigit b = true := fun b hb => isDigit_iff.2 (hds b hb)
  rw [List.takeWhile_append_of_pos hds', List.dropWhile_append_of_pos hds']
  cases rest with
  | nil => exact ⟨List.append_nil ds, rfl⟩
  | cons b rest =>
    have hb : ¬ isDigit b = true := fun h => hrest b rfl (isDigit_iff.1 h)
    rw [List.takeWhile_cons_of_neg hb, List.dropWhile_cons_of_neg hb]
    exact ⟨List.append_nil ds, rfl⟩

theorem natural_concat (ds : Bytes) (b : UInt8) :
    natural (ds ++ [b]) = 10 * natural ds + (b.toNat - '0'.toNat) := by
  rw [natural, List.reverse_append, List.reverse_singleton, List.singleton_append, List.map_cons,
    Nat.ofDigits_cons, Nat.add_comm]
  rfl

theorem digits_eq_natural (ds : Bytes) : Literal.digits ds = natural ds := by
  induction ds using List.reverseRecOn with
  | nil => rfl
  | append_singleton ds b ih =>
    rw [natural_concat, ← ih]
    simp only [Literal.digits, Digits.value, List.map_append, List.map_singleton,
      List.foldl_append, List.foldl_cons, List.foldl_nil, toNat_ofUInt8]

/-! ## Values -/

theorem inRange_iff (n : Int) : Number.inRange n = true ↔ Fits n := by
  rw [Number.inRange, Bool.and_eq_true, decide_eq_true_eq, decide_eq_true_eq]
  exact Iff.rfl

theorem value_eq (l : Literal) :
    l.value = if l.fraction.isNone ∧ l.exponent.isNone ∧ Fits l.integer then .int l.integer
      else .float (.ofDecimal l.negative l.decimal) := by
  simp only [Literal.value, digits_eq_natural, inRange_iff, Literal.integer]
  congr

/-- A literal stands for exactly the number that the reader makes of it. -/
theorem denotes_iff {l : Literal} {n : Number} : Denotes l n ↔ l.value = n := by
  rw [value_eq]
  constructor
  · rintro (⟨hf, he, hn⟩ | h)
    · rw [if_pos ⟨Option.isNone_iff_eq_none.2 hf, Option.isNone_iff_eq_none.2 he, hn⟩]
    · rw [if_neg]
      rintro ⟨hf, he, hn⟩
      rw [Option.isNone_iff_eq_none] at hf he
      exact h.elim (· hf) (·.elim (· he) (· hn))
  · rintro rfl
    split_ifs with h
    · rw [Option.isNone_iff_eq_none, Option.isNone_iff_eq_none] at h
      exact .int h.1 h.2.1 h.2.2
    · refine .float ?_
      rw [Option.isNone_iff_eq_none, Option.isNone_iff_eq_none] at h
      tauto

/-! ## Exponents -/

theorem exponentSign_readSign (s : Bytes) :
    ∃ bs, ExponentSign (readSign s).1 bs ∧ s = bs ++ (readSign s).2 := by
  unfold readSign
  split
  · next rest h =>
    exact ⟨_, .minus, eq_cons_of_after? (by decide) h⟩
  · next rest _ h =>
    exact ⟨_, .plus, eq_cons_of_after? (by decide) h⟩
  · exact ⟨_, .none, rfl⟩

theorem head?_append_of_digits {ds : Bytes} (h : Digits ds) (hb : (ds ++ rest).head? = some b) :
    Digit b := by
  obtain ⟨hne, hdigit⟩ := h
  cases ds with
  | nil => exact absurd rfl hne
  | cons d ds =>
    cases hb
    exact hdigit _ List.mem_cons_self

theorem readSign_append {negative : Bool} {sign ds : Bytes} (hsign : ExponentSign negative sign)
    (hds : Digits ds) : readSign (sign ++ (ds ++ rest)) = (negative, ds ++ rest) := by
  have hne {c : Char} (hc : c.toNat < 256) (hdigit : ¬ Digit c.toUInt8) :
      after? c (ds ++ rest) = none :=
    (after?_eq_none_iff hc).2 fun b hb heq => hdigit (heq ▸ head?_append_of_digits hds hb)
  unfold readSign
  cases hsign with
  | none =>
    rw [List.nil_append, hne (by decide) (by decide), hne (by decide) (by decide)]
  | plus =>
    rw [List.singleton_append, after?_cons (by decide), (after?_eq_none_iff (by decide)).2]
    rintro b ⟨⟩
    decide
  | minus => rw [List.singleton_append, after?_cons (by decide)]

theorem afterExponentMark?_eq_some_iff :
    afterExponentMark? s = some r ↔
      ∃ mark, (mark = 'e'.toUInt8 ∨ mark = 'E'.toUInt8) ∧ s = mark :: r := by
  unfold afterExponentMark?
  constructor
  · intro h
    split at h
    · next hlower =>
      cases h
      exact ⟨_, .inl rfl, eq_cons_of_after? (by decide) hlower⟩
    · exact ⟨_, .inr rfl, eq_cons_of_after? (by decide) h⟩
  · rintro ⟨mark, rfl | rfl, rfl⟩
    · rw [after?_cons (by decide)]
    · rw [(after?_eq_none_iff (by decide)).2, after?_cons (by decide)]
      rintro b ⟨⟩
      decide

theorem afterExponentMark?_eq_none_iff :
    afterExponentMark? s = none ↔
      ∀ b, s.head? = some b → ¬ (b = 'e'.toUInt8 ∨ b = 'E'.toUInt8) := by
  constructor
  · intro hnone b hb hmark
    obtain ⟨t, rfl⟩ := List.head?_eq_some_iff.1 hb
    cases hnone.symm.trans (afterExponentMark?_eq_some_iff.2 ⟨b, hmark, rfl⟩)
  · intro h
    cases hsome : afterExponentMark? s with
    | none => rfl
    | some r =>
      obtain ⟨mark, hmark, rfl⟩ := afterExponentMark?_eq_some_iff.1 hsome
      exact absurd hmark (h mark rfl)

/-- What stands at `s` begins neither with a digit nor, behind an integer, with a point. -/
def BehindDigits (fraction : Option Bytes) (s : Bytes) : Prop :=
  ∀ b, s.head? = some b → ¬ Digit b ∧ (fraction = none → b ≠ '.'.toUInt8)

variable {negative : Bool} {whole : Bytes} {fraction : Option Bytes} {n : Number}

theorem Exponent.behindDigits {exponent : Option (Bool × Bytes)} {e : Bytes}
    (he : Exponent exponent e) (hends : Literal.Ends ⟨negative, whole, fraction, exponent⟩ rest) :
    BehindDigits fraction (e ++ rest) := by
  intro b hb
  cases he with
  | none => exact ⟨fun h => hends b hb (.digit h), fun h heq => hends b hb (heq ▸ .point h rfl)⟩
  | some hmark =>
    cases hb
    rcases hmark with rfl | rfl <;> exact ⟨by decide, fun _ => by decide⟩

/-- Behind the digits of a literal its exponent is read to its end. -/
theorem readExponent_iff {start : Bytes} {h : s.length < start.length}
    (hs : BehindDigits fraction s) :
    Yields (readExponent start ⟨negative, whole, fraction, none⟩ s h) n rest ↔
      ∃ exponent e, Exponent exponent e ∧ Denotes ⟨negative, whole, fraction, exponent⟩ n ∧
        s = e ++ rest ∧ Literal.Ends ⟨negative, whole, fraction, exponent⟩ rest := by
  unfold readExponent
  split
  · next hnone =>
    rw [afterExponentMark?_eq_none_iff] at hnone
    rw [yields_ok]
    constructor
    · rintro ⟨hn, rfl⟩
      refine ⟨none, [], .none, denotes_iff.2 hn, rfl, fun b hb hon => ?_⟩
      cases hon with
      | digit h => exact (hs b hb).1 h
      | point hf => exact (hs _ hb).2 hf rfl
      | mark _ h => exact hnone b hb h
    · rintro ⟨exponent, e, he, hn, hrest, -⟩
      cases he with
      | none => exact ⟨denotes_iff.1 hn, hrest⟩
      | some hmark => exact absurd hmark (hnone _ (hrest ▸ rfl))
  · next more hsome =>
    obtain ⟨mark, hmark, rfl⟩ := afterExponentMark?_eq_some_iff.1 hsome
    dsimp only
    constructor
    · intro hread
      split at hread
      · exact absurd hread not_yields_error
      next hds =>
      obtain ⟨hn, rfl⟩ := yields_ok.1 hread
      obtain ⟨sign, hsign, hmore⟩ := exponentSign_readSign more
      have hdigits := digits_takeWhile fun h => hds (List.isEmpty_iff.2 h)
      refine ⟨_, _, .some hmark hsign hdigits, denotes_iff.2 hn, ?_, fun b hb hon => ?_⟩
      · rw [List.cons_append, List.append_assoc, List.takeWhile_append_dropWhile, ← hmore]
      · cases hon with
        | digit h => exact not_digit_of_dropWhile hb h
        | point _ he => cases he
        | mark he => cases he
    · rintro ⟨exponent, e, he, hn, hrest, hends⟩
      cases he with
      | none =>
        obtain rfl : mark :: more = rest := hrest
        exact absurd (.mark rfl hmark) (hends mark rfl)
      | @some mark' negative' sign ds _ hsign hds =>
        obtain rfl : more = sign ++ (ds ++ rest) :=
          (List.cons.inj hrest).2.trans (List.append_assoc ..)
        obtain ⟨htake, hdrop⟩ := span_digits hds.2 fun b hb h => hends b hb (.digit h)
        simp only [readSign_append hsign hds, htake, hdrop]
        rw [if_neg fun h => hds.1 (List.isEmpty_iff.1 h)]
        exact yields_ok.2 ⟨denotes_iff.1 hn, rfl⟩

/-! ## Literals -/

theorem minus_dropMinus (s : Bytes) : s = minus (after? '-' s).isSome ++ dropMinus s := by
  unfold dropMinus
  cases h : after? '-' s with
  | none => rfl
  | some rest => exact eq_cons_of_after? (by decide) h

theorem dropMinus_append (negative : Bool) (h : after? '-' s = none) :
    (after? '-' (minus negative ++ s)).isSome = negative ∧ dropMinus (minus negative ++ s) = s := by
  unfold dropMinus
  cases negative with
  | false =>
    rw [minus, if_neg Bool.false_ne_true, List.nil_append, h]
    exact ⟨rfl, rfl⟩
  | true =>
    rw [minus, if_pos rfl, List.singleton_append, after?_cons (by decide)]
    exact ⟨rfl, rfl⟩

/-- No needless zero stands in front, or zeros may. -/
theorem zeros_iff {o : JsonOptions} :
    ¬ (1 < whole.length ∧ whole.head? = some 0x30 ∧ ¬ o.leadingZeros) ↔
      o.leadingZeros = true ∨ (whole.head? = some '0'.toUInt8 → whole.length = 1) := by
  have hpos (h : whole.head? = some '0'.toUInt8) : 0 < whole.length := by
    obtain ⟨t, rfl⟩ := List.head?_eq_some_iff.1 h
    exact Nat.succ_pos _
  constructor
  · intro h
    by_cases hzeros : o.leadingZeros = true
    · exact .inl hzeros
    · refine .inr fun hhead => ?_
      have := hpos hhead
      by_contra hlength
      exact h ⟨by omega, hhead, hzeros⟩
  · rintro (h | h) ⟨hlength, hhead, hzeros⟩
    · exact hzeros h
    · exact absurd (h hhead) (Nat.ne_of_gt hlength)

/-- Digits stand on both sides of the point, or need not. -/
theorem point_iff {o : JsonOptions} {ds : Bytes} :
    ¬ ((whole.isEmpty ∨ ds.isEmpty) ∧ ¬ o.malformedDecimals) ↔
      o.malformedDecimals = true ∨ (whole ≠ [] ∧ some ds ≠ some []) := by
  rw [List.isEmpty_iff, List.isEmpty_iff, Ne, Ne, Option.some_inj]
  tauto

/-- The first byte behind the digits of a literal in front of the point. -/
theorem not_digit_behind_whole {f e : Bytes} {exponent : Option (Bool × Bytes)}
    (hf : LooseFraction fraction f) (he : Exponent exponent e)
    (hends : Literal.Ends ⟨negative, whole, fraction, exponent⟩ rest)
    (hb : (f ++ (e ++ rest)).head? = some b) : ¬ Digit b := by
  cases hf with
  | none => exact (he.behindDigits hends b hb).1
  | some =>
    cases hb
    decide

variable {o : JsonOptions} {l : Literal} {bs : Bytes}

/-- What is taken for a number is a literal that the rules allow, up to its end. -/
theorem literal_of_readNumber (hread : Yields (readNumber o s) n rest) :
    ∃ l bs, LooseNumeral l bs ∧ l.Allowed o ∧ Denotes l n ∧ s = bs ++ rest ∧ l.Ends rest := by
  unfold readNumber at hread
  dsimp only at hread
  split at hread
  · exact absurd hread not_yields_error
  next hzeros =>
  rw [zeros_iff] at hzeros
  have hwhole : ∀ b ∈ (dropMinus s).takeWhile isDigit, Digit b := fun _ hb =>
    isDigit_iff.1 (List.mem_takeWhile_imp hb)
  have hsplit := (List.takeWhile_append_dropWhile (p := isDigit) (l := dropMinus s)).symm
  split at hread
  · next hpoint =>
    rw [after?_eq_none_iff (by decide)] at hpoint
    split at hread
    · exact absurd hread not_yields_error
    next hne =>
    have hbehind : BehindDigits none ((dropMinus s).dropWhile isDigit) := fun b hb =>
      ⟨not_digit_of_dropWhile hb, fun _ => hpoint b hb⟩
    obtain ⟨exponent, e, he, hn, hrest, hends⟩ := (readExponent_iff hbehind).1 hread
    refine ⟨_, _, .mk hwhole .none (.inl hne) he, ⟨hzeros, .inr ⟨hne, (Option.some_ne_none _).symm⟩⟩, hn, ?_, hends⟩
    rw [List.nil_append, List.append_assoc, List.append_assoc, ← hrest, ← hsplit, ← minus_dropMinus]
  · next more hpoint =>
    split at hread
    · exact absurd hread not_yields_error
    next hparts =>
    have hbehind (fraction : Bytes) : BehindDigits (some fraction) (more.dropWhile isDigit) :=
      fun b hb => ⟨not_digit_of_dropWhile hb, fun h => absurd h (Option.some_ne_none _)⟩
    obtain ⟨exponent, e, he, hn, hrest, hends⟩ := (readExponent_iff (hbehind _)).1 hread
    have hfraction : ∀ b ∈ more.takeWhile isDigit, Digit b := fun _ hb =>
      isDigit_iff.1 (List.mem_takeWhile_imp hb)
    refine ⟨_, _, .mk hwhole (.some hfraction) (.inr (Option.some_ne_none _)) he, ⟨hzeros, point_iff.1 hparts⟩, hn,
      ?_, hends⟩
    rw [List.append_assoc, List.append_assoc, List.append_assoc, ← hrest, List.cons_append,
      List.takeWhile_append_dropWhile, ← eq_cons_of_after? (by decide) hpoint, ← hsplit,
      ← minus_dropMinus]

/-- A literal that the rules allow is read, if it ends where its bytes do. -/
theorem readNumber_literal (hl : LooseNumeral l bs) (ho : l.Allowed o) (hn : Denotes l n)
    (hends : l.Ends rest) : Yields (readNumber o (bs ++ rest)) n rest := by
  cases hl with
  | @mk negative whole f e fraction exponent hw hf hne he =>
  obtain ⟨hzeros, hparts⟩ := ho
  have hbehind : ∀ b, (f ++ (e ++ rest)).head? = some b → ¬ Digit b := fun b hb =>
    not_digit_behind_whole hf he hends hb
  have hminus : after? '-' (whole ++ (f ++ (e ++ rest))) = none := by
    rw [after?_eq_none_iff (by decide)]
    rintro b hb rfl
    cases whole with
    | cons d ds =>
      cases hb
      exact absurd (hw _ List.mem_cons_self) (by decide)
    | nil =>
      cases hf with
      | none => exact hne.elim (· rfl) (· rfl)
      | some => exact absurd (Option.some.inj hb) (by decide)
  obtain ⟨hsign, hunsigned⟩ := dropMinus_append negative hminus
  obtain ⟨hwhole, hfraction⟩ := span_digits hw hbehind
  rw [List.append_assoc, List.append_assoc, List.append_assoc]
  unfold readNumber
  simp only [hsign, hunsigned, hwhole, hfraction, if_neg (zeros_iff.2 hzeros)]
  cases hf with
  | none =>
    have hpoint : after? '.' (e ++ rest) = none :=
      (after?_eq_none_iff (by decide)).2 fun b hb => (he.behindDigits hends b hb).2 rfl
    split
    · rw [dif_neg (hne.resolve_right (· rfl))]
      exact (readExponent_iff (he.behindDigits hends)).2 ⟨_, _, he, hn, rfl, hends⟩
    · next hsome =>
      rw [hunsigned, hfraction, List.nil_append, hpoint] at hsome
      cases hsome
  | @some ds hds =>
    have hpoint : after? '.' ('.'.toUInt8 :: (ds ++ (e ++ rest))) = some (ds ++ (e ++ rest)) :=
      after?_cons (by decide)
    obtain ⟨htake, hdrop⟩ := span_digits hds fun b hb => (he.behindDigits hends b hb).1
    split
    · next hnone =>
      rw [hunsigned, hfraction, List.cons_append, hpoint] at hnone
      cases hnone
    · next more hsome =>
      rw [hunsigned, hfraction, List.cons_append, hpoint] at hsome
      cases hsome
      simp only [htake, hdrop, if_neg (point_iff.2 hparts)]
      exact (readExponent_iff (he.behindDigits hends)).2 ⟨_, _, he, hn, rfl, hends⟩

/-- Where the reader finds a number, and how far the number goes, under any rules. -/
theorem readNumber_iff :
    Yields (readNumber o s) n rest ↔
      ∃ l bs, LooseNumeral l bs ∧ l.Allowed o ∧ Denotes l n ∧ s = bs ++ rest ∧ l.Ends rest := by
  constructor
  · exact literal_of_readNumber
  · rintro ⟨l, bs, hl, ho, hn, rfl, hends⟩
    exact readNumber_literal hl ho hn hends

/-- The first bytes of numbers. -/
def StartsNumber (o : JsonOptions) (b : UInt8) : Prop :=
  b = '-'.toUInt8 ∨ Digit b ∨ (b = '.'.toUInt8 ∧ o.malformedDecimals = true)

theorem head_of_literal (hl : LooseNumeral l bs) (ho : l.Allowed o) :
    ∃ b t, bs = b :: t ∧ StartsNumber o b := by
  cases hl with
  | @mk negative whole f e fraction exponent hw hf hne he =>
  cases negative with
  | true => exact ⟨_, _, rfl, .inl rfl⟩
  | false =>
    cases whole with
    | cons d ds => exact ⟨d, _, rfl, .inr (.inl (hw d List.mem_cons_self))⟩
    | nil =>
      cases hf with
      | none => exact absurd rfl (hne.resolve_left (· rfl))
      | some => exact ⟨_, _, rfl, .inr (.inr ⟨rfl, ho.point.resolve_right fun h => h.1 rfl⟩)⟩

/-! ## Under every rule -/

/-- The strict rules allow the literals of the grammar. -/
theorem numeral_iff : Numeral l bs ↔ LooseNumeral l bs ∧ l.Allowed .strict := by
  constructor
  · intro h
    cases h with
    | mk hw hf he =>
    obtain ⟨⟨hne, hdigits⟩, hzero⟩ := hw
    cases hf with
    | none => exact ⟨.mk hdigits .none (.inl hne) he, .inr hzero, .inr ⟨hne, nofun⟩⟩
    | some hds =>
      exact ⟨.mk hdigits (.some hds.2) (.inl hne) he, .inr hzero,
        .inr ⟨hne, fun h => hds.1 (Option.some.inj h)⟩⟩
  · rintro ⟨h, hzeros, hpoint⟩
    cases h with
    | mk hw hf hne he =>
    obtain ⟨hwhole, hfraction⟩ := hpoint.resolve_left Bool.false_ne_true
    have hw' : Whole _ := ⟨⟨hwhole, hw⟩, hzeros.resolve_left Bool.false_ne_true⟩
    cases hf with
    | none => exact .mk hw' .none he
    | some hds => exact .mk hw' (.some ⟨fun h => hfraction (congrArg some h), hds⟩) he

/-- What the strict reader takes for a number is a literal of the grammar. -/
theorem numeral_of_readNumber (hread : Yields (readNumber .strict s) n rest) :
    ∃ l bs, Numeral l bs ∧ Denotes l n ∧ s = bs ++ rest := by
  obtain ⟨l, bs, hl, ho, hn, hs, -⟩ := readNumber_iff.1 hread
  exact ⟨l, bs, numeral_iff.2 ⟨hl, ho⟩, hn, hs⟩

/-- Nothing at the head could go on with a number. -/
def NumberEnds (rest : Bytes) : Prop :=
  ∀ b, rest.head? = some b →
    ¬ Digit b ∧ b ≠ '.'.toUInt8 ∧ b ≠ 'e'.toUInt8 ∧ b ≠ 'E'.toUInt8

theorem NumberEnds.ends (h : NumberEnds rest) (l : Literal) : l.Ends rest := by
  rintro b hb (hdigit | - | ⟨-, rfl | rfl⟩)
  · exact (h b hb).1 hdigit
  · exact (h _ hb).2.1 rfl
  · exact (h _ hb).2.2.1 rfl
  · exact (h _ hb).2.2.2 rfl

/-- A literal is read as a whole, unless what follows could belong to it. -/
theorem readNumber_numeral (hbs : Numeral l bs) (hn : Denotes l n) (hrest : NumberEnds rest) :
    Yields (readNumber .strict (bs ++ rest)) n rest := by
  obtain ⟨hl, ho⟩ := numeral_iff.1 hbs
  exact readNumber_literal hl ho hn (hrest.ends l)

theorem head_of_numeral (h : Numeral l bs) :
    ∃ b t, bs = b :: t ∧ (b = '-'.toUInt8 ∨ Digit b) := by
  obtain ⟨hl, ho⟩ := numeral_iff.1 h
  obtain ⟨b, t, rfl, hb⟩ := head_of_literal hl ho
  exact ⟨b, t, rfl, hb.imp_right (·.resolve_right nofun)⟩

end Json

end PackageAudit
