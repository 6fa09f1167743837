import PackageAudit.Binary64.Decimal
import PackageAudit.Proofs.Binary64.Rounding

/-!
# Proofs.Binary64.Decimal — decimal numerals read back

* `Decimal.value` — the number that a numeral stands for;
* `Binary64.ofDecimal_eq` — reading a numeral is rounding its value, the shortcuts included;
* `Binary64.isFinite_ofDecimal` — which numerals are read as finite doubles;
* `Binary64.nearestIndex_shortest` — the shortest numeral of a grid point reads back as that point.
-/

namespace PackageAudit

/-- The number that a numeral stands for. -/
def Decimal.value (d : Decimal) : ℚ :=
  d.digits * 10 ^ d.exponent

namespace Decimal

theorem value_trimFor (fuel : Nat) (d : Decimal) : (trimFor fuel d).value = d.value := by
  induction fuel generalizing d with
  | zero => rfl
  | succ fuel ih =>
    unfold trimFor
    split_ifs with h
    · rw [ih]
      have hdigits : (d.digits : ℚ) = (d.digits / 10 : ℕ) * 10 := by
        exact_mod_cast (Nat.div_mul_cancel (Nat.dvd_of_mod_eq_zero h.2)).symm
      rw [value, value, hdigits, zpow_add₀ (by norm_num), zpow_one]
      ring
    · rfl

theorem value_trim (d : Decimal) : d.trim.value = d.value :=
  value_trimFor _ d

end Decimal

namespace Binary64

/-! ## Reading -/

theorem pow_ten_le_two_pow {k n : Nat} (h : 10 * k ≤ 3 * n) : 10 ^ k ≤ 2 ^ n := by
  refine (Nat.pow_le_pow_iff_left (n := 3) (by decide)).1 ?_
  calc (10 ^ k) ^ 3 = 1000 ^ k := by rw [← Nat.pow_mul, Nat.mul_comm, Nat.pow_mul]
    _ ≤ 1024 ^ k := Nat.pow_le_pow_left (by decide) k
    _ = 2 ^ (10 * k) := by rw [Nat.pow_mul]
    _ ≤ 2 ^ (3 * n) := Nat.pow_le_pow_right (by decide) h
    _ = (2 ^ n) ^ 3 := by rw [← Nat.pow_mul, Nat.mul_comm]

theorem two_pow_le_pow_ten {k n : Nat} (h : n ≤ 3 * k) : 2 ^ n ≤ 10 ^ k := by
  calc 2 ^ n ≤ 2 ^ (3 * k) := Nat.pow_le_pow_right (by decide) h
    _ = 8 ^ k := by rw [Nat.pow_mul]
    _ ≤ 10 ^ k := Nat.pow_le_pow_left (by decide) k

theorem ten_zpow_pos (e : Int) : (0 : ℚ) < 10 ^ e :=
  zpow_pos (by norm_num) e

theorem pow_le_value {d : Decimal} (hd : d.digits ≠ 0) :
    (10 : ℚ) ^ ((d.digits.log2 * 3 / 10 : Nat) + d.exponent) ≤ d.value := by
  rw [Decimal.value, zpow_add₀ (by norm_num), zpow_natCast]
  refine mul_le_mul_of_nonneg_right ?_ (ten_zpow_pos _).le
  exact_mod_cast le_trans (pow_ten_le_two_pow (by omega)) (Nat.log2_self_le hd)

theorem value_lt_pow (d : Decimal) :
    d.value < (10 : ℚ) ^ ((d.digits.log2 / 3 + 1 : Nat) + d.exponent) := by
  rw [Decimal.value, zpow_add₀ (by norm_num), zpow_natCast]
  refine mul_lt_mul_of_pos_right ?_ (ten_zpow_pos _)
  exact_mod_cast lt_of_lt_of_le Nat.lt_log2_self (two_pow_le_pow_ten (by omega))

theorem cast_pow_ten_toNat {e : Int} (he : 0 ≤ e) : ((Nat.pow 10 e.toNat : ℕ) : ℚ) = 10 ^ e := by
  rw [Nat.pow_eq, Nat.cast_pow, ← zpow_natCast, Int.toNat_of_nonneg he]
  rfl

theorem two_zpow_le_ten_zpow {n k : Nat} (h : n ≤ 3 * k) : (2 : ℚ) ^ (n : Int) ≤ 10 ^ (k : Int) := by
  rw [zpow_natCast, zpow_natCast]
  exact_mod_cast two_pow_le_pow_ten h

theorem value_nonneg (d : Decimal) : 0 ≤ d.value :=
  mul_nonneg d.digits.cast_nonneg (ten_zpow_pos _).le

theorem large_of_order {d : Decimal} (hd : d.digits ≠ 0)
    (h : 400 < (d.digits.log2 * 3 / 10 : Nat) + d.exponent) : (2 : ℚ) ^ (1024 : Int) ≤ d.value := by
  calc (2 : ℚ) ^ ((1024 : Nat) : Int) ≤ 10 ^ ((401 : Nat) : Int) := two_zpow_le_ten_zpow (by decide)
    _ ≤ 10 ^ ((d.digits.log2 * 3 / 10 : Nat) + d.exponent) :=
        zpow_le_zpow_right₀ (by norm_num) (by omega)
    _ ≤ d.value := pow_le_value hd

theorem small_of_order {d : Decimal} (h : (d.digits.log2 / 3 + 1 : Nat) + d.exponent < -400) :
    d.value < (2 : ℚ) ^ (-1075 : Int) := by
  calc d.value < 10 ^ ((d.digits.log2 / 3 + 1 : Nat) + d.exponent) := value_lt_pow d
    _ ≤ 10 ^ (-((401 : Nat) : Int)) := zpow_le_zpow_right₀ (by norm_num) (by omega)
    _ ≤ 2 ^ (-((1075 : Nat) : Int)) := by
        rw [zpow_neg, zpow_neg, inv_le_inv₀ (ten_zpow_pos _) (zpow_pos two_pos _)]
        exact two_zpow_le_ten_zpow (by decide)

/-- Reading a numeral is rounding its value. -/
theorem ofDecimal_eq (negative : Bool) (d : Decimal) :
    ofDecimal negative d = ofIndex negative (nearestIndex d.value) := by
  unfold ofDecimal
  split_ifs with hzero hlarge hsmall hfraction
  · rw [Decimal.value, hzero, Nat.cast_zero, zero_mul, nearestIndex, if_pos rfl]
  · have hover := overflow_le_nearestIndex (large_of_order hzero hlarge)
    rw [ofIndex, dif_neg (Nat.not_lt.2 hover)]
  · rw [nearestIndex_of_lt (value_nonneg d) (small_of_order hsmall)]
  · have hpow : 0 < Nat.pow 10 (-d.exponent).toNat := Nat.pow_pos (by decide)
    rw [ofRatio_eq _ hpow, cast_pow_ten_toNat (by omega), zpow_neg, div_inv_eq_mul]
    rfl
  · rw [ofRatio_eq _ Nat.one_pos, Nat.cast_mul, cast_pow_ten_toNat (by omega), Nat.cast_one, div_one]
    rfl

/-- The numerals below the limit are those of finite doubles. -/
theorem isFinite_ofDecimal {negative : Bool} {d : Decimal} :
    (ofDecimal negative d).isFinite = true ↔ d.value < limit := by
  rw [ofDecimal_eq, ← nearestIndex_lt_overflow_iff (value_nonneg d), ofIndex]
  split_ifs with h
  · exact iff_of_true rfl h
  · exact iff_of_false Bool.false_ne_true h

theorem ofDecimal_eq_infinite {negative : Bool} {d : Decimal} (h : limit ≤ d.value) :
    ofDecimal negative d = infinite negative := by
  rw [ofDecimal_eq, ofIndex, dif_neg]
  exact fun hlt => absurd h (not_le.2 ((nearestIndex_lt_overflow_iff (value_nonneg d)).1 hlt))

/-! ## Writing -/

theorem ofIndex_eq_finite {negative : Bool} {n : Nat} {index : Fin overflow} :
    ofIndex negative n = finite negative index ↔ n = index := by
  unfold ofIndex
  split_ifs with h
  · rw [finite.injEq, Fin.ext_iff]
    simp
  · constructor
    · intro h'
      cases h'
    · rintro rfl
      exact absurd index.isLt h

theorem readsBack_numeral? {index : Fin overflow} {unit : Int} {d : Decimal}
    (h : numeral? index unit = some d) : nearestIndex d.value = index := by
  have hback {digits : Nat} (h : (ofDecimal false ⟨digits, unit⟩ == finite false index) = true) :
      nearestIndex (Decimal.value ⟨digits, unit⟩) = index := by
    rw [beq_iff_eq, ofDecimal_eq, ofIndex_eq_finite] at h
    exact h
  unfold numeral? at h
  dsimp only at h
  split at h
  · next hbelow habove =>
    cases h
    split_ifs
    · exact hback hbelow
    · exact hback habove
  · next hbelow _ =>
    cases h
    exact hback hbelow
  · next _ habove =>
    cases h
    exact hback habove
  · cases h

theorem value_exactNumeral (index : Nat) : (exactNumeral index).value = gridPoint index := by
  unfold exactNumeral gridPoint Decimal.value
  dsimp only
  split_ifs with h
  · have hfive : ((Nat.pow 5 (-scale index).toNat : ℕ) : ℚ) * 10 ^ scale index = 2 ^ scale index := by
      rw [Nat.pow_eq, Nat.cast_pow, ← zpow_natCast, Int.toNat_of_nonneg (by omega), zpow_neg,
        Nat.cast_ofNat, show (10 : ℚ) = 5 * 2 by norm_num, mul_zpow,
        inv_mul_cancel_left₀ (zpow_pos (by norm_num) _).ne']
    rw [Nat.cast_mul, mul_assoc, hfive]
  · rw [Nat.cast_mul, cast_pow_toNat (by omega), zpow_zero, mul_one]

/-- The shortest numeral of a grid point reads back as that point. -/
theorem nearestIndex_shortest (index : Fin overflow) : nearestIndex (shortest index).value = index := by
  unfold shortest
  dsimp only
  rw [Decimal.value_trim]
  cases hfound : (List.range 17).findSome? fun (n : Nat) =>
      numeral? index (leadingExponent (fraction index).1 (fraction index).2 - n) with
  | none => rw [Option.getD_none, value_exactNumeral, nearestIndex_gridPoint]
  | some d =>
    obtain ⟨n, -, hn⟩ := List.exists_of_findSome?_eq_some hfound
    exact readsBack_numeral? hn

end Binary64

end PackageAudit
