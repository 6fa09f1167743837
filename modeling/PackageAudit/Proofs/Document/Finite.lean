import PackageAudit.Proofs.Document.Roundtrip

/-!
# Proofs.Document.Finite — trees with infinite numbers, and their texts

A number that is too large for the finite doubles is read as an infinity, and null is written for
an infinity or a NaN.

* `Json.Denotes.printable_iff` — which literals stand for numbers that have a text;
* `Value.finite` — a tree with null in the place of infinities and NaNs, as it is written;
* `Value.WellFormed.parse_finite` — the text of a tree is read as that;
* `Value.same_finite_current` — it is another tree unless every number is finite;
* `Json.numbers_of_read` — what becomes of the numbers of a JSON text, read, written and read again.
-/

namespace PackageAudit

/-! ## Literals -/

namespace Json

variable {l : Literal} {n : Number}

theorem value_of_integer (hf : l.fraction = none) (he : l.exponent = none) :
    l.decimal.value = natural l.whole := by
  simp [Literal.decimal, Decimal.value, hf, he, digits_eq_natural]

/-- An integer of 64 bits is far from the limit of the doubles. -/
theorem natural_lt_limit (h : Fits l.integer) : (natural l.whole : ℚ) < Binary64.limit := by
  have hnat : natural l.whole ≤ 2 ^ 63 := by
    unfold Fits Literal.integer at h
    split_ifs at h <;> omega
  calc (natural l.whole : ℚ) ≤ 2 ^ (63 : Int) := by exact_mod_cast hnat
    _ < 2 ^ (1023 : Int) := zpow_lt_zpow_right₀ one_lt_two (by decide)
    _ ≤ Binary64.limit := Binary64.two_zpow_le_limit

/-- The literals below the limit stand for integers of 64 bits and finite doubles. -/
theorem Denotes.printable_iff (h : Denotes l n) :
    Value.Printable n ↔ l.decimal.value < Binary64.limit := by
  cases h with
  | int hf he hn =>
    rw [value_of_integer hf he]
    exact iff_of_true hn (natural_lt_limit hn)
  | float => exact Binary64.isFinite_ofDecimal

/-- The others stand for an infinity. -/
theorem Denotes.infinite (h : Denotes l n) (hl : Binary64.limit ≤ l.decimal.value) :
    n = .float (.infinite l.negative) := by
  cases h with
  | int hf he hn =>
    rw [value_of_integer hf he] at hl
    exact absurd hl (not_le.2 (natural_lt_limit hn))
  | float => rw [Binary64.ofDecimal_eq_infinite hl]

end Json

namespace Value

variable {v : Value}

/-! ## Without infinities and NaNs -/

mutual

/-- The tree with null in the place of every infinity and NaN. -/
def finite : Value → Value
  | number (.float x) => if x.isFinite then number (.float x) else null
  | array items => array (finiteAll items)
  | object members replaced => object (finiteMembers members) replaced
  | v => v

def finiteAll : List Value → List Value
  | [] => []
  | v :: vs => finite v :: finiteAll vs

def finiteMembers : List (String × Value) → List (String × Value)
  | [] => []
  | (k, v) :: ms => (k, finite v) :: finiteMembers ms

end

theorem finiteAll_eq_map (vs : List Value) : finiteAll vs = vs.map finite := by
  induction vs with
  | nil => rfl
  | cons v vs ih => rw [finiteAll, ih, List.map_cons]

theorem finiteMembers_eq_map (ms : List (String × Value)) :
    finiteMembers ms = ms.map fun m => (m.1, m.2.finite) := by
  induction ms with
  | nil => rfl
  | cons m ms ih => rw [finiteMembers, ih, List.map_cons]

/-- JSON has no text for infinities and NaNs, and null is written for them. -/
theorem render_finite (v : Value) : v.finite.render = v.render := by
  induction v using induction with
  | null | bool | string => rfl
  | number n =>
    cases n with
    | int n => rfl
    | float x =>
      rw [finite, render, Number.render]
      split
      · next hx => rw [render, Number.render, if_pos hx]
      · rfl
  | array items ih =>
    have hitems : items.map (render ∘ finite) = items.map render := List.map_congr_left ih
    rw [finite, render, render, renderAll_eq_map, renderAll_eq_map, finiteAll_eq_map,
      List.map_map, hitems]
  | object members replaced ih =>
    have hmembers : members.map ((fun m => Json.quote m.1 ++ ":" ++ m.2.render) ∘
        fun m => (m.1, m.2.finite)) =
        members.map fun m => Json.quote m.1 ++ ":" ++ m.2.render :=
      List.map_congr_left fun m hm => congrArg (Json.quote m.1 ++ ":" ++ ·) (ih m hm)
    rw [finite, render, render, renderMembers_eq_map, renderMembers_eq_map,
      finiteMembers_eq_map, List.map_map, hmembers]

theorem nesting_finite (v : Value) : v.finite.nesting = v.nesting := by
  induction v using induction with
  | null | bool | string => rfl
  | number n =>
    cases n with
    | int n => rfl
    | float x =>
      rw [finite]
      split <;> rfl
  | array items ih =>
    rw [finite, nesting, nesting]
    congr 1
    induction items with
    | nil => rfl
    | cons v vs ihvs =>
      rw [List.forall_mem_cons] at ih
      rw [finiteAll, nestingAll, nestingAll, ih.1, ihvs ih.2]
  | object members replaced ih =>
    rw [finite, nesting, nesting]
    congr 1
    induction members with
    | nil => rfl
    | cons m ms ihms =>
      rw [List.forall_mem_cons] at ih
      rw [finiteMembers, nestingMembers, nestingMembers, ih.1, ihms ih.2]

theorem keysDistinct_finite (h : v.KeysDistinct) : v.finite.KeysDistinct := by
  induction v using induction with
  | null | bool | string => trivial
  | number n =>
    cases n with
    | int n => trivial
    | float x =>
      rw [finite]
      split <;> trivial
  | array items ih =>
    rw [finite, KeysDistinct, finiteAll_eq_map, allKeysDistinct_iff, List.forall_mem_map]
    exact fun v hv => ih v hv (allKeysDistinct_iff.1 h v hv)
  | object members replaced ih =>
    rw [finite, KeysDistinct, finiteMembers_eq_map, List.map_map, membersKeysDistinct_iff,
      List.forall_mem_map]
    exact ⟨h.1, fun m hm => ih m hm (membersKeysDistinct_iff.1 h.2 m hm)⟩

/-- What is left are the numbers that have a text. -/
theorem printable_finite (h : v.AllNumbers Representable) : v.finite.AllNumbers Printable := by
  induction v using induction with
  | null | bool | string => trivial
  | number n =>
    cases n with
    | int n => exact h
    | float x =>
      rw [finite]
      split
      · next hx => exact hx
      · trivial
  | array items ih =>
    rw [AllNumbers, allNumbersOf_iff] at h
    rw [finite, AllNumbers, finiteAll_eq_map, allNumbersOf_iff, List.forall_mem_map]
    exact fun v hv => ih v hv (h v hv)
  | object members replaced ih =>
    rw [AllNumbers, membersNumbers_iff] at h
    rw [finite, AllNumbers, finiteMembers_eq_map, membersNumbers_iff, List.forall_mem_map]
    exact fun m hm => ih m hm (h m hm)

/-- Null in the place of a number is seen by the comparison of trees. -/
theorem same_finite_current : v.same v.finite.current = true ↔ v.AllNumbers FiniteNumber := by
  induction v using induction with
  | null => exact iff_of_true rfl trivial
  | bool b => exact iff_of_true (beq_self_eq_true b) trivial
  | string s => exact iff_of_true (beq_self_eq_true s) trivial
  | number n =>
    cases n with
    | int n => exact iff_of_true (beq_self_eq_true n) trivial
    | float x =>
      rw [finite]
      split
      · next hx => exact iff_of_true (number_same_self (n := .float x) hx) hx
      · next hx => exact iff_of_false Bool.false_ne_true hx
  | array items ih =>
    rw [finite, current, same, finiteAll_eq_map, currentAll_eq_map, List.map_map, sameAll_map,
      AllNumbers, allNumbersOf_iff]
    exact forall₂_congr ih
  | object members replaced ih =>
    rw [finite, current, same, finiteMembers_eq_map, currentMembers_eq_map, List.map_map, AllNumbers,
      membersNumbers_iff]
    exact (sameMembers_map (f := fun v => v.finite.current)).trans (forall₂_congr ih)

/-! ## Texts -/

/-- What the strict reader makes of the text of a tree. -/
theorem WellFormed.parse_text (h : v.WellFormed) (hnesting : v.nesting ≤ 512) :
    Json.parse (textBytes v.render) = .ok ⟨v.finite.current⟩ := by
  have hread := readTextOf_render (printable_finite h.numbers) (keysDistinct_finite h.keys)
    (Nat.le_trans (Nat.le_of_eq v.nesting_finite) hnesting)
  rw [render_finite] at hread
  exact Json.parse_eq_ok.2 hread

/-- The text of a tree is read as the tree without its infinities and NaNs. -/
theorem WellFormed.parse_finite (h : v.WellFormed) (hnesting : v.nesting ≤ 512) :
    ∃ back, Json.parse (textBytes v.render) = .ok back ∧ v.finite.same back.root = true := by
  refine ⟨_, h.parse_text hnesting, same_current ((printable_finite h.numbers).mono ?_)⟩
  intro n hn
  cases n with
  | int n => trivial
  | float x => exact hn

end Value

/-! ## JSON texts -/

namespace Json

/--
What becomes of the numbers of a text, under any rules. Each is that of a literal that stands in the
text. Below the limit of the doubles it is an integer of 64 bits or a finite double, and otherwise
an infinity; null is written for those, so what is read back is the document if and only if there
are none.
-/
theorem numbers_of_read {o : JsonOptions} {s : Bytes} {d : Document} (h : read o s = .ok d) :
    (d.root.AllNumbers fun n => ∃ l : Literal, l.StandsIn o s ∧ Denotes l n ∧
      (Value.Printable n ↔ l.decimal.value < Binary64.limit) ∧
      (Binary64.limit ≤ l.decimal.value → n = .float (.infinite l.negative))) ∧
    ∃ back, parse (textBytes d.render) = .ok back ∧ d.root.finite.same back.root = true ∧
      (d.root.same back.root = true ↔ d.root.AllNumbers Value.FiniteNumber) := by
  have hroot := readIn_of_read h
  have hwell := wellFormed_of_read h
  constructor
  · refine hroot.numbers.mono fun n hn => ?_
    obtain ⟨l, hl, hn⟩ := hn
    exact ⟨l, hl, hn, hn.printable_iff, hn.infinite⟩
  · obtain ⟨back, hback, hsame⟩ := hwell.parse_finite hroot.shallow
    refine ⟨back, hback, hsame, ?_⟩
    cases (hwell.parse_text hroot.shallow).symm.trans hback
    exact Value.same_finite_current

/-- An integer beside a number beyond the doubles. -/
theorem numbers_of_read_large :
    let d : Document := ⟨.array [.number (.int 1), .number (.float (.infinite true))]⟩
    read .strict (textBytes "[1,-1e999]") = .ok d ∧
      ∃ back, parse (textBytes d.render) = .ok back ∧ d.root.same back.root = false := by
  intro d
  have hread : read .strict (textBytes "[1,-1e999]") = .ok d := by cbv
  obtain ⟨-, back, hback, -, hsame⟩ := numbers_of_read hread
  refine ⟨hread, back, hback, ?_⟩
  rw [← Bool.not_eq_true, hsame]
  exact fun h => Bool.false_ne_true h.2.1

/-- A number in the text of a document is read as an infinity, and its text is read as null. -/
theorem read_back_as_null :
    read .strict (textBytes "1e999") = .ok ⟨.number (.float (.infinite false))⟩ ∧
      parse (textBytes (Document.render ⟨.number (.float (.infinite false))⟩)) = .ok ⟨.null⟩ :=
  ⟨by cbv, by cbv⟩

end Json

end PackageAudit
