import Mathlib.Tactic.IntervalCases
import PackageAudit.Proofs.Binary64.Decimal
import PackageAudit.Proofs.Document.Json.Number
import PackageAudit.Proofs.Document.Yaml.Content

/-!
# Proofs.Document.Yaml.Schema — plain scalars by the core schema

YAML 1.2 tells what a plain scalar stands for by regular expressions. Here they are relations
between texts and values, so that `[-+]?[0-9]+` also says which number is meant.

* `Yaml.Schema.Named` — the names with a value of their own;
* `Yaml.Schema.Numeral` — digits of a base, with the number they stand for;
* `Yaml.Schema.IntegerText`, `Yaml.Schema.DecimalText` — integers, and numerals with a point or an
  exponent;
* `Yaml.Schema.NumberText` — the texts of numbers, integers out of range among the doubles;
* `Yaml.Schema.number?_iff` — the reader of numbers finds these and no others;
* `Yaml.Schema.plainValue_by_schema` — what a plain scalar stands for.
-/

namespace PackageAudit

namespace Yaml

namespace Schema

variable {cs ds es fs : List Char} {base n k : Nat} {c : Char} {negative : Bool} {x : ℚ}

/-! ## Names -/

/-- The spellings of null, the truth values, the infinities and the NaN. -/
inductive Named (text : String) : Value → Prop where
  | null (h : text ∈ ["~", "null", "Null", "NULL"]) : Named text .null
  | truth (h : text ∈ ["true", "True", "TRUE"]) : Named text (.bool true)
  | falsity (h : text ∈ ["false", "False", "FALSE"]) : Named text (.bool false)
  | infinity (h : text ∈ [".inf", ".Inf", ".INF", "+.inf", "+.Inf", "+.INF"]) :
      Named text (.number (.float (.infinite false)))
  | minusInfinity (h : text ∈ ["-.inf", "-.Inf", "-.INF"]) :
      Named text (.number (.float (.infinite true)))
  | nan (h : text ∈ [".nan", ".NaN", ".NAN"]) : Named text (.number (.float .nan))

theorem namedValue?_iff {text : String} {v : Value} :
    namedValue? text = some v ↔ Named text v := by
  constructor
  · intro h
    unfold namedValue? at h
    split at h <;> cases h
    case h_1 | h_2 | h_3 | h_4 => exact .null (by decide)
    case h_5 | h_6 | h_7 => exact .truth (by decide)
    case h_8 | h_9 | h_10 => exact .falsity (by decide)
    case h_11 | h_12 | h_13 | h_14 | h_15 | h_16 => exact .infinity (by decide)
    case h_17 | h_18 | h_19 => exact .minusInfinity (by decide)
    case h_20 | h_21 | h_22 => exact .nan (by decide)
  · rintro (h | h | h | h | h | h)
    all_goals
      simp only [List.mem_cons, List.not_mem_nil, or_false] at h
      rcases h with rfl | rfl | rfl | rfl | rfl | rfl <;> rfl

/-- The names in lower case, but for the tilde. -/
def lowerNames : List String :=
  ["null", "true", "false", ".inf", "+.inf", "-.inf", ".nan"]

/-- A name in capitals that are none of its spellings. -/
def Ambiguous (text : String) : Prop :=
  text.map Char.toLower ∈ lowerNames ∧ ¬ ∃ v, Named text v

/-! ## Digits -/

/-- A digit of a base with its value; letters of either case count on from ten. -/
inductive Digit (base : Nat) : Char → Nat → Prop where
  | decimal {n : Nat} (h : n < 10) (hbase : n < base) : Digit base (Char.ofNat ('0'.toNat + n)) n
  | lower {n : Nat} (h : n < 6) (hbase : 10 + n < base) :
      Digit base (Char.ofNat ('a'.toNat + n)) (10 + n)
  | upper {n : Nat} (h : n < 6) (hbase : 10 + n < base) :
      Digit base (Char.ofNat ('A'.toNat + n)) (10 + n)

/-- Any number of digits, and the number they stand for, the first digit being the greatest. -/
def Figures (base : Nat) (ds : List Char) (n : Nat) : Prop :=
  ∃ ns, List.Forall₂ (Digit base) ds ns ∧ n = Nat.ofDigits base ns.reverse

/-- One digit or more. -/
def Numeral (base : Nat) (ds : List Char) (n : Nat) : Prop :=
  ds ≠ [] ∧ Figures base ds n

/-! ## Numbers -/

/-- The sign of a number, negative or not. -/
inductive Sign : Bool → List Char → Prop where
  | none : Sign false []
  | plus : Sign false ['+']
  | minus : Sign true ['-']

/-- Digits in base eight or sixteen behind their mark: `0o[0-7]+` and `0x[0-9a-fA-F]+`. -/
inductive RadixText : List Char → Nat → Prop where
  | octal {ds : List Char} {n : Nat} (h : Numeral 8 ds n) : RadixText ('0' :: 'o' :: ds) n
  | hexadecimal {ds : List Char} {n : Nat} (h : Numeral 16 ds n) : RadixText ('0' :: 'x' :: ds) n

/-- Digits in base ten with a sign: `[-+]?[0-9]+`. -/
inductive SignedText : List Char → Int → Prop where
  | mk {negative : Bool} {s ds : List Char} {n : Nat} (hs : Sign negative s)
      (h : Numeral 10 ds n) : SignedText (s ++ ds) (if negative then -(n : Int) else n)

/-- The spellings of an integer. -/
inductive IntegerText (cs : List Char) : Int → Prop where
  | decimal {n : Int} (h : SignedText cs n) : IntegerText cs n
  | radix {n : Nat} (h : RadixText cs n) : IntegerText cs n

/-- Digits with a point: `\.[0-9]+|[0-9]+(\.[0-9]*)?`. -/
inductive Mantissa : List Char → ℚ → Prop where
  | fraction {fs : List Char} {k : Nat} (h : Numeral 10 fs k) :
      Mantissa ('.' :: fs) (k / 10 ^ fs.length)
  | integer {ds : List Char} {n : Nat} (h : Numeral 10 ds n) : Mantissa ds n
  | point {ds fs : List Char} {n k : Nat} (h : Numeral 10 ds n) (hf : Figures 10 fs k) :
      Mantissa (ds ++ '.' :: fs) (n + k / 10 ^ fs.length)

/-- The power of ten: `([eE][-+]?[0-9]+)?`. -/
inductive Exponent : List Char → Int → Prop where
  | none : Exponent [] 0
  | some {mark : Char} {negative : Bool} {s ds : List Char} {n : Nat}
      (hmark : mark = 'e' ∨ mark = 'E') (hs : Sign negative s) (h : Numeral 10 ds n) :
      Exponent (mark :: (s ++ ds)) (if negative then -(n : Int) else n)

/-- A numeral without its sign. -/
inductive UnsignedText : List Char → ℚ → Prop where
  | mk {m e : List Char} {x : ℚ} {p : Int} (hm : Mantissa m x) (he : Exponent e p) :
      UnsignedText (m ++ e) (x * 10 ^ p)

/-- Numerals with a sign, a point and an exponent, each of which may be missing. -/
inductive DecimalText : List Char → Bool → ℚ → Prop where
  | mk {negative : Bool} {s cs : List Char} {x : ℚ} (hs : Sign negative s)
      (h : UnsignedText cs x) : DecimalText (s ++ cs) negative x

/-- The double nearest to a number of a given sign, an infinity where the doubles end. -/
def nearestDouble (negative : Bool) (x : ℚ) : Binary64 :=
  .ofIndex negative (Binary64.nearestIndex x)

/-- An integer of 64 bits. -/
def FittingText (cs : List Char) (n : Int) : Prop :=
  IntegerText cs n ∧ Json.Fits n

/--
The texts of numbers. What spells an integer of 64 bits is no double; in base eight and sixteen
there is an end at 128 bits.
-/
inductive NumberText (cs : List Char) : Number → Prop where
  | int {n : Int} (h : FittingText cs n) : NumberText cs (.int n)
  | radix {n : Nat} (h : RadixText cs n) (hfits : ¬ Json.Fits n) (hn : n < 2 ^ 128) :
      NumberText cs (.float (nearestDouble false n))
  | decimal {negative : Bool} {x : ℚ} (h : DecimalText cs negative x)
      (hfits : ¬ ∃ n, FittingText cs n) : NumberText cs (.float (nearestDouble negative x))

/-! ## Readers of digits -/

theorem digitValue?_iff : digitValue? base c = some n ↔ Digit base c n := by
  constructor
  · intro h
    obtain ⟨hvalue, hbase⟩ := Option.filter_eq_some_iff.1 h
    have hbase : n < base := of_decide_eq_true hbase
    split at hvalue
    · next hc =>
      cases hvalue
      rw [Char.isDigit, Bool.and_eq_true, decide_eq_true_eq, decide_eq_true_eq] at hc
      have hlow : '0'.toNat ≤ c.toNat := hc.1
      have hhigh : c.toNat ≤ '9'.toNat := hc.2
      have h : Digit base _ _ := .decimal (n := c.toNat - '0'.toNat)
        (by simp at hhigh ⊢; omega) hbase
      rwa [Nat.add_sub_cancel' hlow, Char.ofNat_toNat] at h
    split at hvalue
    · next hc =>
      cases hvalue
      have hlow : 'a'.toNat ≤ c.toNat := hc.1
      have hhigh : c.toNat ≤ 'f'.toNat := hc.2
      have h : Digit base _ _ := .lower (n := c.toNat - 'a'.toNat)
        (by simp at hhigh ⊢; omega) (by omega)
      rwa [Nat.add_sub_cancel' hlow, Char.ofNat_toNat, Nat.add_comm 10] at h
    split at hvalue
    · next hc =>
      cases hvalue
      have hlow : 'A'.toNat ≤ c.toNat := hc.1
      have hhigh : c.toNat ≤ 'F'.toNat := hc.2
      have h : Digit base _ _ := .upper (n := c.toNat - 'A'.toNat)
        (by simp at hhigh ⊢; omega) (by omega)
      rwa [Nat.add_sub_cancel' hlow, Char.ofNat_toNat, Nat.add_comm 10] at h
    · cases hvalue
  · have hread {m : Nat} (hm : m < base)
        (h : digitValue? base c = (some m).filter (· < base)) : digitValue? base c = some m := by
      rw [h, Option.filter_some, if_pos (decide_eq_true hm)]
    rintro (⟨h, hbase⟩ | @⟨n, h, hbase⟩ | @⟨n, h, hbase⟩)
    all_goals
      refine hread hbase ?_
      clear hread hbase
      interval_cases n <;> rfl

theorem ofDigits_next (base start k : Nat) (ns : List Nat) :
    Nat.ofDigits base ((k :: ns).reverse ++ [start]) =
      Nat.ofDigits base (ns.reverse ++ [base * start + k]) := by
  have hpair : Nat.ofDigits base [k, start] = Nat.ofDigits base [base * start + k] := by
    rw [Nat.ofDigits_cons, Nat.ofDigits_singleton, Nat.ofDigits_singleton, Nat.add_comm k]
  rw [List.reverse_cons, List.append_assoc, List.singleton_append, Nat.ofDigits_append,
    Nat.ofDigits_append, hpair]

/-- What is read so far counts as one more digit in front. -/
theorem foldlM_digitValue?_iff {start : Nat} :
    ds.foldlM (fun n c => (digitValue? base c).map (base * n + ·)) start = some n ↔
      ∃ ns, List.Forall₂ (Digit base) ds ns ∧ n = Nat.ofDigits base (ns.reverse ++ [start]) := by
  induction ds generalizing start with
  | nil =>
    rw [List.foldlM_nil]
    constructor
    · rintro ⟨⟩
      exact ⟨[], .nil, Nat.ofDigits_singleton.symm⟩
    · rintro ⟨ns, h, rfl⟩
      cases h
      exact congrArg some Nat.ofDigits_singleton.symm
  | cons d ds ih =>
    rw [List.foldlM_cons]
    constructor
    · intro h
      obtain ⟨_, hd, h⟩ := Option.bind_eq_some_iff.1 h
      obtain ⟨k, hk, rfl⟩ := Option.map_eq_some_iff.1 hd
      obtain ⟨ns, hns, rfl⟩ := ih.1 h
      exact ⟨k :: ns, .cons (digitValue?_iff.1 hk) hns, (ofDigits_next base start k ns).symm⟩
    · rintro ⟨ns, h, rfl⟩
      cases h with
      | @cons _ k _ ns hk hns =>
      refine Option.bind_eq_some_iff.2
        ⟨base * start + k, ?_, ih.2 ⟨ns, hns, ofDigits_next base start k ns⟩⟩
      rw [digitValue?_iff.2 hk, Option.map_some]

theorem digitsValue?_iff : digitsValue? base ds = some n ↔ Figures base ds n := by
  rw [digitsValue?, foldlM_digitValue?_iff, Figures]
  simp only [Nat.ofDigits_append, Nat.ofDigits_singleton, Nat.mul_zero, Nat.add_zero]

/-- Digits of base ten are those without letters. -/
theorem digit_ten_iff : Digit 10 c k ↔ c.isDigit = true ∧ k = c.toNat - '0'.toNat := by
  rw [← digitValue?_iff, digitValue?, Option.filter_eq_some_iff]
  constructor
  · rintro ⟨hvalue, hbase⟩
    have hbase : k < 10 := of_decide_eq_true hbase
    split at hvalue
    · next hc => exact ⟨hc, (Option.some.inj hvalue).symm⟩
    split at hvalue
    · cases hvalue
      exact absurd hbase (Nat.not_lt.2 (Nat.le_add_left _ _))
    split at hvalue
    · cases hvalue
      exact absurd hbase (Nat.not_lt.2 (Nat.le_add_left _ _))
    · cases hvalue
  · rintro ⟨hc, rfl⟩
    rw [if_pos hc]
    refine ⟨rfl, decide_eq_true ?_⟩
    rw [Char.isDigit, Bool.and_eq_true, decide_eq_true_eq, decide_eq_true_eq] at hc
    have hhigh : c.toNat ≤ '9'.toNat := hc.2
    exact Nat.lt_of_le_of_lt (Nat.sub_le_sub_right hhigh _) (by decide)

theorem figures_ten_iff :
    Figures 10 ds n ↔ (∀ c ∈ ds, c.isDigit = true) ∧ n = PackageAudit.Digits.value ds := by
  have hvalue (start : Nat) (ds : List Char) (hds : ∀ c ∈ ds, c.isDigit = true) :
      ds.foldlM (fun n c => (digitValue? 10 c).map (10 * n + ·)) start =
        some (ds.foldl (fun n c => 10 * n + (c.toNat - '0'.toNat)) start) := by
    induction ds generalizing start with
    | nil => rfl
    | cons d ds ih =>
      rw [List.forall_mem_cons] at hds
      rw [List.foldlM_cons, digitValue?_iff.2 (digit_ten_iff.2 ⟨hds.1, rfl⟩)]
      exact ih _ hds.2
  constructor
  · intro h
    have hds : ∀ c ∈ ds, c.isDigit = true := by
      obtain ⟨ns, hns, -⟩ := h
      clear hvalue
      induction hns with
      | nil => exact List.forall_mem_nil _
      | cons hc _ ih => exact List.forall_mem_cons.2 ⟨(digit_ten_iff.1 hc).1, ih⟩
    have hread := (digitsValue?_iff.2 h).symm.trans (hvalue 0 ds hds)
    exact ⟨hds, Option.some.inj hread⟩
  · rintro ⟨hds, rfl⟩
    exact digitsValue?_iff.1 (hvalue 0 ds hds)

theorem numeral_ten_iff : Numeral 10 ds n ↔ DigitRun ds ∧ n = PackageAudit.Digits.value ds := by
  rw [Numeral, figures_ten_iff, ← and_assoc]
  exact and_congr_left' ⟨fun h => ⟨h.1, h.2⟩, fun h => ⟨h.ne_nil, h.digits⟩⟩

theorem Figures.append (hds : Figures base ds n) (hes : Figures base es k) :
    Figures base (ds ++ es) (n * base ^ es.length + k) := by
  obtain ⟨ns, hns, rfl⟩ := hds
  obtain ⟨ks, hks, rfl⟩ := hes
  refine ⟨ns ++ ks, List.rel_append hns hks, ?_⟩
  rw [List.reverse_append, Nat.ofDigits_append, List.length_reverse, ← hks.length_eq,
    Nat.mul_comm, Nat.add_comm]

/-! ## Signs -/

theorem sign_of_splitSign (h : splitSign cs = (negative, ds)) :
    ∃ s, cs = s ++ ds ∧ Sign negative s := by
  unfold splitSign at h
  split at h <;> cases h
  · exact ⟨_, rfl, .minus⟩
  · exact ⟨_, rfl, .plus⟩
  · exact ⟨[], rfl, .none⟩

theorem splitSign_append {s : List Char} (hs : Sign negative s)
    (hds : ∀ c, ds.head? = some c → c ≠ '-' ∧ c ≠ '+') :
    splitSign (s ++ ds) = (negative, ds) := by
  cases hs with
  | none =>
    rw [List.nil_append]
    unfold splitSign
    split
    · exact absurd rfl (hds _ rfl).1
    · exact absurd rfl (hds _ rfl).2
    · rfl
  | plus | minus => rfl

theorem ne_sign_of_digitRun (h : DigitRun ds) (hc : ds.head? = some c) : c ≠ '-' ∧ c ≠ '+' := by
  have hdigit := h.digits c (List.mem_of_head? hc)
  constructor
  all_goals
    rintro rfl
    cases hdigit

/-! ## Points and exponents -/

section Split

variable {p : Char → Bool}

theorem of_splitAt?_none (h : splitAt? p cs = (ds, none)) : cs = ds ∧ ∀ c ∈ ds, p c = false := by
  obtain ⟨rfl, hdrop⟩ := Prod.mk.inj h
  have hnil : cs.dropWhile (!p ·) = [] := by
    cases hcs : cs.dropWhile (!p ·) with
    | nil => rfl
    | cons c rest =>
      rw [hcs] at hdrop
      cases hdrop
  have hcs := List.takeWhile_append_dropWhile (p := (!p ·)) (l := cs)
  rw [hnil, List.append_nil] at hcs
  refine ⟨hcs.symm, fun c hc => ?_⟩
  have hall := List.all_eq_true.1 (List.all_takeWhile (p := (!p ·)) (l := cs)) c hc
  rwa [Bool.not_eq_true'] at hall

theorem of_splitAt?_some (h : splitAt? p cs = (ds, some es)) :
    (∃ c, p c = true ∧ cs = ds ++ c :: es) ∧ ∀ c ∈ ds, p c = false := by
  obtain ⟨rfl, hdrop⟩ := Prod.mk.inj h
  cases hcs : cs.dropWhile (!p ·) with
  | nil =>
    rw [hcs] at hdrop
    cases hdrop
  | cons c rest =>
    rw [hcs] at hdrop
    cases hdrop
    refine ⟨⟨c, ?_, ?_⟩, fun c hc => ?_⟩
    · have hc := List.head?_dropWhile_not (!p ·) cs
      rw [hcs, List.head?_cons] at hc
      simpa using hc
    · rw [← hcs, List.takeWhile_append_dropWhile]
    · have hall := List.all_eq_true.1 (List.all_takeWhile (p := (!p ·)) (l := cs)) c hc
      rwa [Bool.not_eq_true'] at hall

end Split

theorem no_point_of_isDigit (hds : ∀ c ∈ ds, c.isDigit = true) :
    ∀ c ∈ ds, (c == '.') = false := fun c hc => by
  refine beq_eq_false_iff_ne.2 ?_
  rintro rfl
  cases hds _ hc

/-- The digits behind the point are worth their number over a power of ten. -/
theorem Figures.fraction (hds : Figures 10 ds n) (hfs : Figures 10 fs k) :
    (n + k / 10 ^ fs.length : ℚ) = PackageAudit.Digits.value (ds ++ fs) / 10 ^ fs.length := by
  rw [← (figures_ten_iff.1 (hds.append hfs)).2]
  push_cast
  field_simp

/-- A mantissa split at its point has digits on one side of it. -/
theorem mantissa_iff {m : List Char} :
    Mantissa m x ↔ ∃ whole fraction, splitAt? (· == '.') m = (whole, fraction) ∧
      (∀ c ∈ whole, c.isDigit = true) ∧ (∀ c ∈ fraction.getD [], c.isDigit = true) ∧
      ¬ (whole = [] ∧ fraction.getD [] = []) ∧
      x = PackageAudit.Digits.value (whole ++ fraction.getD []) /
        10 ^ (fraction.getD []).length := by
  constructor
  · intro h
    cases h with
    | @fraction fs k h =>
      obtain ⟨hrun, rfl⟩ := numeral_ten_iff.1 h
      exact ⟨[], some fs, rfl, List.forall_mem_nil _, hrun.digits, fun h => hrun.ne_nil h.2, rfl⟩
    | @integer m n h =>
      obtain ⟨hrun, rfl⟩ := numeral_ten_iff.1 h
      refine ⟨m, none, splitAt?_of_forall (no_point_of_isDigit hrun.digits), hrun.digits,
        List.forall_mem_nil _, fun h => hrun.ne_nil h.1, ?_⟩
      rw [Option.getD_none, List.append_nil, List.length_nil, pow_zero, div_one]
    | @point ds fs n k h hf =>
      obtain ⟨hrun, -⟩ := numeral_ten_iff.1 h
      exact ⟨ds, some fs, splitAt?_append (no_point_of_isDigit hrun.digits) rfl, hrun.digits,
        (figures_ten_iff.1 hf).1, fun h => hrun.ne_nil h.1, h.2.fraction hf⟩
  · rintro ⟨ds, fraction, hsplit, hds, hfs, hne, rfl⟩
    have hwhole : Figures 10 ds (PackageAudit.Digits.value ds) := figures_ten_iff.2 ⟨hds, rfl⟩
    cases fraction with
    | none =>
      obtain ⟨rfl, -⟩ := of_splitAt?_none hsplit
      rw [Option.getD_none, List.append_nil, List.length_nil, pow_zero, div_one]
      exact .integer ⟨fun hnil => hne ⟨hnil, rfl⟩, hwhole⟩
    | some fs =>
      obtain ⟨⟨c, hc, rfl⟩, -⟩ := of_splitAt?_some hsplit
      obtain rfl := eq_of_beq hc
      have hfraction : Figures 10 fs (PackageAudit.Digits.value fs) :=
        figures_ten_iff.2 ⟨hfs, rfl⟩
      rw [Option.getD_some]
      by_cases hnil : ds = []
      · subst hnil
        exact .fraction ⟨fun hfs => hne ⟨rfl, hfs⟩, hfraction⟩
      · rw [← hwhole.fraction hfraction]
        exact .point ⟨hnil, hwhole⟩ hfraction

/-- The letter of an exponent. -/
def IsMark (c : Char) : Prop :=
  (c == 'e' || c == 'E') = true

theorem exponent_some_iff {p : Int} :
    Exponent (c :: es) p ↔ IsMark c ∧ ∃ negative ds, splitSign es = (negative, ds) ∧
      DigitRun ds ∧ p = if negative then -(PackageAudit.Digits.value ds : Int)
        else PackageAudit.Digits.value ds := by
  rw [IsMark, Bool.or_eq_true, beq_iff_eq, beq_iff_eq]
  constructor
  · intro h
    cases h with
    | @some _ negative s ds n hmark hs h =>
    obtain ⟨hrun, rfl⟩ := numeral_ten_iff.1 h
    exact ⟨hmark, negative, ds, splitSign_append hs fun c => ne_sign_of_digitRun hrun, hrun, rfl⟩
  · rintro ⟨hmark, negative, ds, hsign, hrun, rfl⟩
    obtain ⟨s, rfl, hs⟩ := sign_of_splitSign hsign
    exact .some hmark hs (numeral_ten_iff.2 ⟨hrun, rfl⟩)

/-- The characters of a mantissa. -/
theorem Mantissa.chars {m : List Char} (h : Mantissa m x) :
    ∀ c ∈ m, c.isDigit = true ∨ c = '.' := by
  obtain ⟨whole, fraction, hsplit, hwhole, hfraction, -, -⟩ := mantissa_iff.1 h
  cases fraction with
  | none =>
    obtain ⟨rfl, -⟩ := of_splitAt?_none hsplit
    exact fun c hc => .inl (hwhole c hc)
  | some fs =>
    obtain ⟨⟨c, hc, rfl⟩, -⟩ := of_splitAt?_some hsplit
    obtain rfl := eq_of_beq hc
    rw [List.forall_mem_append, List.forall_mem_cons]
    exact ⟨fun c hc => .inl (hwhole c hc), .inr rfl, fun c hc => .inl (hfraction c hc)⟩

/-- The number of a mantissa and a power of ten. -/
theorem value_shifted (digits places : Nat) (p : Int) :
    (Decimal.mk digits (p - places)).value = digits / 10 ^ places * 10 ^ p := by
  rw [Decimal.value, zpow_sub₀ (by norm_num), zpow_natCast]
  ring

theorem decimal?_eq {m whole : List Char} {exponent fraction : Option (List Char)}
    (hm : splitAt? (fun c => c == 'e' || c == 'E') cs = (m, exponent))
    (hwhole : splitAt? (· == '.') m = (whole, fraction)) :
    decimal? cs =
      let digits := PackageAudit.Digits.value (whole ++ fraction.getD [])
      let places := (fraction.getD []).length
      if whole.all Char.isDigit ∧ (fraction.getD []).all Char.isDigit ∧
          ¬ (whole.isEmpty ∧ (fraction.getD []).isEmpty) then
        match exponent.map splitSign with
        | none => some ⟨digits, -(places : Int)⟩
        | some (negative, ds) =>
          if ds.isEmpty ∨ ¬ ds.all Char.isDigit then none
          else
            let power : Int := PackageAudit.Digits.value ds
            some ⟨digits, (if negative then -power else power) - places⟩
      else none := by
  rw [decimal?, hm]
  dsimp only
  generalize splitAt? (· == '.') m = parts at hwhole ⊢
  subst hwhole
  rfl

theorem unsignedText_of_decimal? {d : Decimal} (hd : decimal? cs = some d) :
    UnsignedText cs d.value := by
  obtain ⟨⟨m, exponent⟩, hm⟩ : ∃ r, splitAt? (fun c => c == 'e' || c == 'E') cs = r := ⟨_, rfl⟩
  obtain ⟨⟨whole, fraction⟩, hwhole⟩ : ∃ r, splitAt? (· == '.') m = r := ⟨_, rfl⟩
  rw [decimal?_eq hm hwhole] at hd
  dsimp only at hd
  split at hd
  next hdigits =>
    simp only [List.all_eq_true, List.isEmpty_iff] at hdigits
    have hmantissa : Mantissa m _ :=
      mantissa_iff.2 ⟨whole, fraction, hwhole, hdigits.1, hdigits.2.1, hdigits.2.2, rfl⟩
    cases exponent with
    | none =>
      obtain ⟨rfl, -⟩ := of_splitAt?_none hm
      cases hd
      have h := UnsignedText.mk hmantissa .none
      rwa [List.append_nil, ← value_shifted, zero_sub] at h
    | some es =>
      obtain ⟨⟨mark, hmark, rfl⟩, -⟩ := of_splitAt?_some hm
      rw [Option.map_some] at hd
      split at hd
      · next hnone => cases hnone
      next negative ds hsign =>
      have hsign : splitSign es = (negative, ds) := Option.some.inj hsign
      split at hd
      · cases hd
      next hrun =>
      rw [not_or, not_not, Bool.not_eq_true] at hrun
      cases hd
      rw [value_shifted]
      exact .mk hmantissa
        (exponent_some_iff.2 ⟨hmark, negative, ds, hsign, digitRun_iff.2 hrun.symm, rfl⟩)
  · cases hd

theorem exists_decimal? (h : UnsignedText cs x) : ∃ d, decimal? cs = some d ∧ d.value = x := by
  obtain @⟨m, e, x, p, hmantissa, hexponent⟩ := h
  have hmark : ∀ c ∈ m, (c == 'e' || c == 'E') = false := fun c hc => by
    rcases hmantissa.chars c hc with hdigit | rfl
    · exact HexChar.isExponentMark (.inl hdigit) fun he => absurd (he ▸ hdigit) (by decide)
    · rfl
  obtain ⟨whole, fraction, hwhole, hds, hfs, hne, rfl⟩ := mantissa_iff.1 hmantissa
  have hdigits : whole.all Char.isDigit ∧ (fraction.getD []).all Char.isDigit ∧
      ¬ (whole.isEmpty ∧ (fraction.getD []).isEmpty) := by
    simp only [List.all_eq_true, List.isEmpty_iff]
    exact ⟨hds, hfs, hne⟩
  cases e with
  | nil =>
    cases hexponent
    rw [List.append_nil, decimal?_eq (splitAt?_of_forall hmark) hwhole]
    dsimp only
    rw [if_pos hdigits]
    refine ⟨_, rfl, ?_⟩
    rw [← zero_sub, value_shifted]
  | cons mark es =>
    obtain ⟨hc, negative, ds, hsign, hrun, rfl⟩ := exponent_some_iff.1 hexponent
    have hrun : ¬ (ds.isEmpty = true ∨ ¬ ds.all Char.isDigit = true) := by
      rw [not_or, not_not, Bool.not_eq_true]
      exact (digitRun_iff.1 hrun).symm
    rw [decimal?_eq (splitAt?_append hmark hc) hwhole]
    dsimp only
    rw [if_pos hdigits, Option.map_some, hsign]
    dsimp only
    rw [if_neg hrun]
    exact ⟨_, rfl, value_shifted _ _ _⟩

/-- A numeral without its sign is split at its exponent, and then at its point. -/
theorem decimal?_iff : (∃ d, decimal? cs = some d ∧ d.value = x) ↔ UnsignedText cs x := by
  constructor
  · rintro ⟨d, hd, rfl⟩
    exact unsignedText_of_decimal? hd
  · exact exists_decimal?

/-! ## Readers of numbers -/

theorem Mantissa.exists_digit {m : List Char} (h : Mantissa m x) : ∃ c ∈ m, c.isDigit = true := by
  have hrun {ds : List Char} {n : Nat} (h : Numeral 10 ds n) : ∃ c ∈ ds, c.isDigit = true := by
    obtain ⟨c, hc⟩ := List.exists_mem_of_ne_nil ds h.1
    exact ⟨c, hc, (numeral_ten_iff.1 h).1.digits c hc⟩
  cases h with
  | fraction h =>
    obtain ⟨c, hc, hdigit⟩ := hrun h
    exact ⟨c, List.mem_cons_of_mem _ hc, hdigit⟩
  | integer h => exact hrun h
  | point h =>
    obtain ⟨c, hc, hdigit⟩ := hrun h
    exact ⟨c, List.mem_append_left _ hc, hdigit⟩

theorem UnsignedText.ne_sign (h : UnsignedText cs x) (hc : cs.head? = some c) :
    c ≠ '-' ∧ c ≠ '+' := by
  cases h with
  | @mk m e y p hm he =>
  obtain ⟨d, hd, -⟩ := hm.exists_digit
  obtain ⟨b, m, rfl⟩ := List.exists_cons_of_ne_nil (List.ne_nil_of_mem hd)
  obtain rfl : b = c := Option.some.inj hc
  rcases hm.chars b List.mem_cons_self with hdigit | rfl
  · constructor
    all_goals
      rintro rfl
      cases hdigit
  · decide

theorem Sign.chars {s : List Char} (h : Sign negative s) : ∀ c ∈ s, c = '+' ∨ c = '-' := by
  cases h <;> simp

/-- The characters of a numeral. -/
theorem DecimalText.chars (h : DecimalText cs negative x) :
    ∀ c ∈ cs, c.isDigit = true ∨ c ∈ ['+', '-', '.', 'e', 'E'] := by
  obtain ⟨hs, hm, he⟩ := h
  rw [List.forall_mem_append, List.forall_mem_append]
  refine ⟨fun c hc => ?_, fun c hc => ?_, ?_⟩
  · rcases hs.chars c hc with rfl | rfl <;> exact .inr (by decide)
  · rcases hm.chars c hc with hdigit | rfl
    · exact .inl hdigit
    · exact .inr (by decide)
  · cases he with
    | none => exact List.forall_mem_nil _
    | some hmark hs' hds =>
    rw [List.forall_mem_cons, List.forall_mem_append]
    refine ⟨?_, fun c hc => ?_, fun c hc => .inl ((numeral_ten_iff.1 hds).1.digits c hc)⟩
    · rcases hmark with rfl | rfl <;> exact .inr (by decide)
    · rcases hs'.chars c hc with rfl | rfl <;> exact .inr (by decide)

/-- Digits in base ten are a numeral without point and exponent. -/
theorem SignedText.decimal {i : Int} (h : SignedText cs i) :
    ∃ negative x, DecimalText cs negative x := by
  obtain ⟨hs, h⟩ := h
  have hunsigned := UnsignedText.mk (.integer h) .none
  rw [List.append_nil] at hunsigned
  exact ⟨_, _, .mk hs hunsigned⟩

theorem integer?_iff {i : Int} : integer? negative ds = some i ↔
    DigitRun ds ∧ i = if negative then -(PackageAudit.Digits.value ds : Int)
      else PackageAudit.Digits.value ds := by
  unfold integer?
  split
  · next h =>
    rw [Option.some_inj, eq_comm, and_iff_right ⟨h.1, List.all_eq_true.1 h.2⟩]
  · next h =>
    exact iff_of_false nofun fun hrun => h ⟨hrun.1.ne_nil, List.all_eq_true.2 hrun.1.digits⟩

/-- A text without a mark of its base is split at its sign. -/
theorem signedText_iff {i : Int} (h : splitSign cs = (negative, ds)) :
    SignedText cs i ↔ integer? negative ds = some i := by
  rw [integer?_iff]
  constructor
  · rintro ⟨hs, hn⟩
    obtain ⟨hrun, rfl⟩ := numeral_ten_iff.1 hn
    rw [splitSign_append hs fun c => ne_sign_of_digitRun hrun] at h
    cases h
    exact ⟨hrun, rfl⟩
  · rintro ⟨hrun, rfl⟩
    obtain ⟨s, rfl, hs⟩ := sign_of_splitSign h
    exact .mk hs (numeral_ten_iff.2 ⟨hrun, rfl⟩)

theorem decimalText_iff {negative' : Bool} (h : splitSign cs = (negative, ds)) :
    DecimalText cs negative' x ↔ negative' = negative ∧ UnsignedText ds x := by
  constructor
  · rintro ⟨hs, hx⟩
    rw [splitSign_append hs fun c => hx.ne_sign] at h
    cases h
    exact ⟨rfl, hx⟩
  · rintro ⟨rfl, hx⟩
    obtain ⟨s, rfl, hs⟩ := sign_of_splitSign h
    exact .mk hs hx

theorem radixNumber?_iff {i : Number} : radixNumber? base ds = some i ↔
    ∃ n : Nat, Numeral base ds n ∧ ((i = .int n ∧ Json.Fits n) ∨
      (i = .float (nearestDouble false n) ∧ ¬ Json.Fits n ∧ n < 2 ^ 128)) := by
  have hdouble (n : Nat) : Binary64.ofInt n = nearestDouble false n := by
    rw [Binary64.ofInt, Binary64.ofRatio_eq _ Nat.one_pos, nearestDouble, Int.natAbs_natCast,
      Nat.cast_one, div_one, decide_eq_false (Int.not_lt.2 (Int.natCast_nonneg n))]
  have hlimit : (2 : Nat) ^ 128 = 0x100000000000000000000000000000000 := by norm_num
  rw [radixNumber?]
  split
  · next hnil => exact iff_of_false nofun fun ⟨n, hn, _⟩ => hn.1 (List.isEmpty_iff.1 hnil)
  next hne =>
  have hne : ds ≠ [] := fun hnil => hne (List.isEmpty_iff.2 hnil)
  simp only [Option.bind_eq_some_iff, digitsValue?_iff, Numeral, and_iff_right hne, hdouble,
    Json.inRange_iff]
  refine exists_congr fun n => and_congr_right fun _ => ?_
  split
  · next hfits => simp only [Option.some_inj, hfits, and_true, not_true_eq_false, false_and,
      and_false, or_false, eq_comm]
  · next hfits =>
    rw [hlimit]
    split
    · next hn => simp only [Option.some_inj, hfits, hn, and_true, not_false_eq_true, and_false,
        false_or, eq_comm]
    · next hn => simp only [reduceCtorEq, hfits, hn, and_false, or_false]

theorem decimalNumber?_iff {i : Number} (hradix : ∀ n, ¬ RadixText cs n) :
    decimalNumber? cs = some i ↔ NumberText cs i := by
  obtain ⟨⟨negative, ds⟩, hsign⟩ : ∃ r, splitSign cs = r := ⟨_, rfl⟩
  have hfitting (n : Int) : FittingText cs n ↔
      (integer? negative ds).filter Number.inRange = some n := by
    rw [Option.filter_eq_some_iff, Json.inRange_iff, ← signedText_iff hsign]
    refine and_congr_left' ⟨fun h => ?_, .decimal⟩
    cases h with
    | decimal h => exact h
    | radix h => exact absurd h (hradix _)
  rw [decimalNumber?, hsign]
  dsimp only
  split
  · next n hn =>
    have hn := (hfitting n).2 hn
    constructor
    · rintro ⟨⟩
      exact .int hn
    · rintro (h | ⟨h, -⟩ | ⟨-, h⟩)
      · rw [Option.some.inj (((hfitting n).1 hn).symm.trans ((hfitting _).1 h))]
      · exact absurd h (hradix _)
      · exact absurd ⟨n, hn⟩ h
  · next hnone =>
    have hnone : ¬ ∃ n, FittingText cs n := by
      rintro ⟨n, hn⟩
      cases hnone.symm.trans ((hfitting n).1 hn)
    rw [Option.map_eq_some_iff]
    constructor
    · rintro ⟨d, hd, rfl⟩
      rw [Binary64.ofDecimal_eq]
      exact .decimal ((decimalText_iff hsign).2 ⟨rfl, decimal?_iff.1 ⟨d, hd, rfl⟩⟩) hnone
    · rintro (h | ⟨h, -⟩ | ⟨h, -⟩)
      · exact absurd ⟨_, h⟩ hnone
      · exact absurd h (hradix _)
      · obtain ⟨rfl, hx⟩ := (decimalText_iff hsign).1 h
        obtain ⟨d, hd, rfl⟩ := decimal?_iff.2 hx
        exact ⟨d, hd, by rw [Binary64.ofDecimal_eq, nearestDouble]⟩

/-- Behind the mark of a base there are digits of that base only. -/
theorem numberText_radix {mark : Char} {i : Number} (hmark : mark ∈ ['x', 'o'])
    (hradix : ∀ n, RadixText ('0' :: mark :: ds) n ↔ Numeral base ds n) :
    NumberText ('0' :: mark :: ds) i ↔ radixNumber? base ds = some i := by
  have hdecimal {negative : Bool} {x : ℚ} : ¬ DecimalText ('0' :: mark :: ds) negative x := by
    intro h
    have hchar := h.chars mark (List.mem_cons_of_mem _ List.mem_cons_self)
    simp only [List.mem_cons, List.not_mem_nil, or_false] at hmark
    rcases hmark with rfl | rfl <;> exact absurd hchar (by decide)
  rw [radixNumber?_iff]
  constructor
  · rintro (⟨h | h, hfits⟩ | ⟨h, hfits, hn⟩ | ⟨h, -⟩)
    · obtain ⟨_, _, h⟩ := h.decimal
      exact absurd h hdecimal
    · exact ⟨_, (hradix _).1 h, .inl ⟨rfl, hfits⟩⟩
    · exact ⟨_, (hradix _).1 h, .inr ⟨rfl, hfits, hn⟩⟩
    · exact absurd h hdecimal
  · rintro ⟨n, h, ⟨rfl, hfits⟩ | ⟨rfl, hfits, hn⟩⟩
    · exact .int ⟨.radix ((hradix n).2 h), hfits⟩
    · exact .radix ((hradix n).2 h) hfits hn

/-- The reader of numbers finds what the schema calls a number, and nothing else. -/
theorem number?_iff {i : Number} : number? cs = some i ↔ NumberText cs i := by
  unfold number?
  split
  · next ds =>
    refine (numberText_radix (by decide) fun n => ⟨fun h => ?_, .hexadecimal⟩).symm
    cases h with
    | hexadecimal h => exact h
  · next ds =>
    refine (numberText_radix (by decide) fun n => ⟨fun h => ?_, .octal⟩).symm
    cases h with
    | octal h => exact h
  · next hhex hoctal =>
    refine decimalNumber?_iff fun n h => ?_
    cases h with
    | octal => exact hoctal _ rfl
    | hexadecimal => exact hhex _ rfl

/-! ## Plain scalars -/

/-- There is a digit in the text of every number. -/
theorem NumberText.exists_digit {i : Number} (h : NumberText cs i) :
    ∃ c ∈ cs, c.isDigit = true := by
  have hdecimal {negative : Bool} {x : ℚ} (h : DecimalText cs negative x) :
      ∃ c ∈ cs, c.isDigit = true := by
    obtain ⟨-, hm, -⟩ := h
    obtain ⟨c, hc, hdigit⟩ := hm.exists_digit
    exact ⟨c, List.mem_append_right _ (List.mem_append_left _ hc), hdigit⟩
  have hradix {n : Nat} (h : RadixText cs n) : ∃ c ∈ cs, c.isDigit = true := by
    cases h <;> exact ⟨'0', List.mem_cons_self, rfl⟩
  rcases h with ⟨h | h, -⟩ | ⟨h, -⟩ | ⟨h, -⟩
  · obtain ⟨_, _, h⟩ := h.decimal
    exact hdecimal h
  · exact hradix h
  · exact hradix h
  · exact hdecimal h

/-- There is no digit in a name. -/
theorem Named.not_digit {v : Value} (h : Named (.ofList cs) v) (hc : c ∈ cs) :
    c.isDigit = false := by
  have hall : (String.ofList cs).toList.all (!·.isDigit) = true := by
    rcases h with h | h | h | h | h | h
    all_goals
      revert h
      generalize String.ofList cs = text
      simp only [List.mem_cons, List.not_mem_nil, or_false]
      rintro (rfl | rfl | rfl | rfl | rfl | rfl) <;> rfl
  rw [String.toList_ofList, List.all_eq_true] at hall
  exact Bool.not_eq_true' _ ▸ hall c hc

/-- Nor is there one in a name in other capitals. -/
theorem Ambiguous.not_digit (h : Ambiguous (.ofList cs)) (hc : c ∈ cs) : c.isDigit = false := by
  have hall : ∀ name ∈ lowerNames, name.toList.all (!·.isDigit) = true := by decide
  have hlower := hall _ h.1
  rw [String.toList_map, String.toList_ofList, List.all_eq_true] at hlower
  refine eq_false_of_ne_true fun hdigit => ?_
  have hnot := hlower _ (List.mem_map_of_mem hc)
  rw [toLower_of_isDigit hdigit, hdigit] at hnot
  cases hnot

/-- No name is the text of a number, in whatever capitals. -/
theorem NumberText.not_name {i : Number} (h : NumberText cs i) :
    (¬ ∃ v, Named (.ofList cs) v) ∧ ¬ Ambiguous (.ofList cs) := by
  obtain ⟨c, hc, hdigit⟩ := h.exists_digit
  constructor
  · rintro ⟨v, hv⟩
    cases hdigit.symm.trans (hv.not_digit hc)
  · intro hambiguous
    cases hdigit.symm.trans (hambiguous.not_digit hc)

theorem isAmbiguous_iff {text : String} (h : ¬ ∃ v, Named text v) :
    isAmbiguous text = true ↔ Ambiguous text := by
  rw [isAmbiguous, List.contains_iff_mem, Ambiguous, and_iff_left h]
  rfl

/-- What a plain scalar stands for, or why it stands for nothing. -/
inductive Means (cs : List Char) : Except YamlFault Value → Prop where
  | named {v : Value} (h : Named (.ofList cs) v) : Means cs (.ok v)
  | number {i : Number} (h : NumberText cs i) : Means cs (.ok (.number i))
  | ambiguous (h : Ambiguous (.ofList cs)) :
      Means cs (.error (.ambiguousLiteral (.ofList cs)))
  | string (hnamed : ¬ ∃ v, Named (.ofList cs) v) (hnumber : ¬ ∃ i, NumberText cs i)
      (hambiguous : ¬ Ambiguous (.ofList cs)) : Means cs (.ok (.string (.ofList cs)))

theorem means_plainValue (cs : List Char) : Means cs (plainValue cs) := by
  unfold plainValue
  dsimp only
  split
  · next v hv => exact .named (namedValue?_iff.1 hv)
  next hname =>
  have hname : ¬ ∃ v, Named (.ofList cs) v := by
    rintro ⟨v, hv⟩
    cases hname.symm.trans (namedValue?_iff.2 hv)
  split
  · next h => exact .ambiguous ((isAmbiguous_iff hname).1 h)
  next hambiguous =>
  split
  · next i hi => exact .number (number?_iff.1 hi)
  next hnumber =>
  refine .string hname ?_ fun h => hambiguous ((isAmbiguous_iff hname).2 h)
  rintro ⟨i, hi⟩
  cases hnumber.symm.trans (number?_iff.2 hi)

/-- The families of texts do not overlap. -/
theorem Means.unique {r r' : Except YamlFault Value} (h : Means cs r) (h' : Means cs r') :
    r = r' := by
  cases h with
  | @named v h =>
    cases h' with
    | @named w h' =>
      have hread := (namedValue?_iff.2 h).symm.trans (namedValue?_iff.2 h')
      rw [Option.some.inj hread]
    | number h' => exact absurd ⟨v, h⟩ h'.not_name.1
    | ambiguous h' => exact absurd ⟨v, h⟩ h'.2
    | string hnamed => exact absurd ⟨v, h⟩ hnamed
  | @number i h =>
    cases h' with
    | @named w h' => exact absurd ⟨w, h'⟩ h.not_name.1
    | number h' =>
      have hread := (number?_iff.2 h).symm.trans (number?_iff.2 h')
      rw [Option.some.inj hread]
    | ambiguous h' => exact absurd h' h.not_name.2
    | string _ hnumber => exact absurd ⟨i, h⟩ hnumber
  | ambiguous h =>
    cases h' with
    | @named w h' => exact absurd ⟨w, h'⟩ h.2
    | number h' => exact absurd h h'.not_name.2
    | ambiguous => rfl
    | string _ _ hambiguous => exact absurd h hambiguous
  | string hnamed hnumber hambiguous =>
    cases h' with
    | @named w h' => exact absurd ⟨w, h'⟩ hnamed
    | @number i h' => exact absurd ⟨i, h'⟩ hnumber
    | ambiguous h' => exact absurd h' hambiguous
    | string => rfl

theorem plainValue_iff {r : Except YamlFault Value} : plainValue cs = r ↔ Means cs r :=
  ⟨fun h => h ▸ means_plainValue cs, fun h => (means_plainValue cs).unique h⟩

/--
What every plain scalar stands for: null and the truth values by their names alone; an integer of
64 bits by its spellings; a double by the names of infinities and NaN, by an integer in base eight
or sixteen between 64 and 128 bits, or by any other numeral. A name in other capitals is refused,
and all the rest are strings.
-/
theorem plainValue_by_schema (cs : List Char) :
    (plainValue cs = .ok .null ↔ Named (.ofList cs) .null) ∧
    (∀ b, plainValue cs = .ok (.bool b) ↔ Named (.ofList cs) (.bool b)) ∧
    (∀ n, plainValue cs = .ok (.number (.int n)) ↔ IntegerText cs n ∧ Json.Fits n) ∧
    (∀ x, plainValue cs = .ok (.number (.float x)) ↔
      Named (.ofList cs) (.number (.float x)) ∨
      (∃ n : Nat, RadixText cs n ∧ ¬ Json.Fits n ∧ n < 2 ^ 128 ∧ x = nearestDouble false n) ∨
      ∃ negative q, DecimalText cs negative q ∧ (¬ ∃ n, IntegerText cs n ∧ Json.Fits n) ∧
        x = nearestDouble negative q) ∧
    (∀ fault, plainValue cs = .error fault ↔
      fault = .ambiguousLiteral (.ofList cs) ∧ Ambiguous (.ofList cs)) ∧
    (∀ s, plainValue cs = .ok (.string s) ↔ s = .ofList cs ∧ (¬ ∃ v, Named (.ofList cs) v) ∧
      (¬ ∃ i, NumberText cs i) ∧ ¬ Ambiguous (.ofList cs)) := by
  simp only [plainValue_iff]
  refine ⟨⟨fun h => ?_, .named⟩, fun b => ⟨fun h => ?_, .named⟩,
    fun n => ⟨fun h => ?_, fun h => .number (.int h)⟩, fun x => ⟨fun h => ?_, ?_⟩,
    fun fault => ⟨fun h => ?_, ?_⟩, fun s => ⟨fun h => ?_, ?_⟩⟩
  · cases h with
    | named h => exact h
  · cases h with
    | named h => exact h
  · cases h with
    | named h => cases h
    | number h =>
      cases h with
      | int h => exact h
  · cases h with
    | named h => exact .inl h
    | number h =>
      cases h with
      | radix h hfits hn => exact .inr (.inl ⟨_, h, hfits, hn, rfl⟩)
      | decimal h hfits => exact .inr (.inr ⟨_, _, h, hfits, rfl⟩)
  · rintro (h | ⟨n, h, hfits, hn, rfl⟩ | ⟨negative, q, h, hfits, rfl⟩)
    · exact .named h
    · exact .number (.radix h hfits hn)
    · exact .number (.decimal h hfits)
  · cases h with
    | ambiguous h => exact ⟨rfl, h⟩
  · rintro ⟨rfl, h⟩
    exact .ambiguous h
  · cases h with
    | named h => cases h
    | string hname hnumber hambiguous => exact ⟨rfl, hname, hnumber, hambiguous⟩
  · rintro ⟨rfl, hname, hnumber, hambiguous⟩
    exact .string hname hnumber hambiguous

end Schema

end Yaml

end PackageAudit
