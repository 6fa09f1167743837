import Mathlib.Data.Int.Log
import Mathlib.Data.Rat.Floor
import Mathlib.Tactic.FieldSimp
import Mathlib.Tactic.Linarith
import Mathlib.Tactic.Positivity
import Mathlib.Tactic.Ring
import PackageAudit.Binary64.Basic

/-!
# Proofs.Binary64.Rounding — the double nearest to a fraction depends on its value alone

* `Binary64.nearestIndex` — the index of the grid point nearest to a rational number;
* `Binary64.ofRatio_eq` — rounding a fraction is rounding its value;
* `Binary64.nearestIndex_gridPoint` — a grid point is its own nearest one;
* `Binary64.nearestIndex_lt_overflow_iff`, `Binary64.nearestIndex_of_lt` — what is too large or too
  small for the grid.
-/

namespace PackageAudit

namespace Binary64

/-! ## Rounding to integers -/

theorem roundHalfEven_between (num den : Nat) :
    num / den ≤ roundHalfEven num den ∧ roundHalfEven num den ≤ num / den + 1 := by
  unfold roundHalfEven
  dsimp only
  split_ifs <;> omega

theorem roundHalfEven_mul {num den k : Nat} (hk : 0 < k) :
    roundHalfEven (num * k) (den * k) = roundHalfEven num den := by
  have htwice : 2 * (num % den * k) = 2 * (num % den) * k := (Nat.mul_assoc ..).symm
  unfold roundHalfEven
  simp only [Nat.mul_div_mul_right _ _ hk, Nat.mul_mod_mul_right, htwice,
    Nat.mul_lt_mul_right hk]

/-- The natural number nearest to a rational one, a half going to the even one. -/
def nearest (y : ℚ) : Nat :=
  roundHalfEven y.num.natAbs y.den

theorem roundHalfEven_eq {num den : Nat} (hden : 0 < den) :
    roundHalfEven num den = nearest (num / den) := by
  set y : ℚ := num / den with hy
  have hpos : (0 : ℚ) < den := Nat.cast_pos.2 hden
  have hnonneg : 0 ≤ y.num := Rat.num_nonneg.2 (div_nonneg num.cast_nonneg hpos.le)
  have hnum : ((y.num.natAbs : ℕ) : ℚ) = y.num := by
    rw [← Int.cast_natCast, Int.natAbs_of_nonneg hnonneg]
  have hcross : num * y.den = y.num.natAbs * den := by
    have hquot : (num : ℚ) / den = y.num / y.den := by rw [Rat.num_div_den]
    rw [div_eq_div_iff hpos.ne' (Nat.cast_ne_zero.2 y.den_ne_zero), ← hnum] at hquot
    exact_mod_cast hquot
  calc roundHalfEven num den = roundHalfEven (num * y.den) (den * y.den) :=
        (roundHalfEven_mul y.den_pos).symm
    _ = roundHalfEven (y.num.natAbs * den) (y.den * den) := by rw [hcross, Nat.mul_comm den]
    _ = nearest y := roundHalfEven_mul hden

theorem nearest_natCast (n : Nat) : nearest n = n := by
  have h : nearest ((n : ℚ) / (1 : Nat)) = roundHalfEven n 1 := (roundHalfEven_eq Nat.one_pos).symm
  rw [Nat.cast_one, div_one] at h
  rw [h]
  simp [roundHalfEven, Nat.mod_one]

theorem le_nearest {n : Nat} {y : ℚ} (h : n ≤ y) : n ≤ nearest y := by
  have hnonneg : 0 ≤ y.num := Rat.num_nonneg.2 (le_trans n.cast_nonneg h)
  have hquot : n ≤ y.num.natAbs / y.den := by
    rw [Nat.le_div_iff_mul_le y.den_pos]
    rw [← Rat.num_div_den y, le_div_iff₀ (Nat.cast_pos.2 y.den_pos)] at h
    have h' : ((n * y.den : ℕ) : ℤ) ≤ y.num := by exact_mod_cast h
    omega
  exact hquot.trans (roundHalfEven_between _ _).1

theorem nearest_eq_zero {y : ℚ} (hy : 0 ≤ y) (h : y < 1 / 2) : nearest y = 0 := by
  have hnonneg : 0 ≤ y.num := Rat.num_nonneg.2 hy
  have hlt : 2 * y.num.natAbs < y.den := by
    rw [← Rat.num_div_den y, div_lt_div_iff₀ (Nat.cast_pos.2 y.den_pos) two_pos] at h
    have h' : y.num * 2 < 1 * (y.den : ℤ) := by exact_mod_cast h
    omega
  have hmod : y.num.natAbs % y.den = y.num.natAbs := Nat.mod_eq_of_lt (by omega)
  unfold nearest roundHalfEven
  rw [hmod, if_pos hlt, Nat.div_eq_of_lt (by omega)]

theorem roundHalfEven_le {num den n : Nat} (hden : 0 < den) (h : num ≤ n * den) :
    roundHalfEven num den ≤ n := by
  have hsplit := Nat.div_add_mod num den
  rcases Nat.lt_or_ge (num / den) n with hlt | hge
  · exact (roundHalfEven_between num den).2.trans hlt
  · have hmul : n * den ≤ den * (num / den) := by
      rw [Nat.mul_comm]
      exact Nat.mul_le_mul_left den hge
    have hrest : num % den = 0 := by omega
    unfold roundHalfEven
    rw [hrest, if_pos (by omega)]
    exact Nat.div_le_of_le_mul (by rwa [Nat.mul_comm])

/-- Halfway in front of an even number is rounded up to it. -/
theorem roundHalfEven_lt_iff {num den n : Nat} (hden : 0 < den) :
    roundHalfEven num den < 2 * n ↔ 2 * num + den < 4 * n * den := by
  have hsplit := Nat.div_add_mod num den
  have hrest := Nat.mod_lt num hden
  have hscaled : 4 * n * den = den * (4 * n) := Nat.mul_comm _ _
  have hbetween := roundHalfEven_between num den
  rcases Nat.lt_trichotomy (num / den + 1) (2 * n) with hlow | hlast | hhigh
  · have hmul : den * (2 * (num / den) + 4) ≤ den * (4 * n) :=
      Nat.mul_le_mul_left den (by omega)
    rw [Nat.mul_add, Nat.mul_left_comm] at hmul
    exact iff_of_true (by omega) (by omega)
  · -- the last number below the even one: what is left decides
    have hmul : den * (2 * (num / den) + 2) = den * (4 * n) := by
      congr 1
      omega
    rw [Nat.mul_add, Nat.mul_left_comm] at hmul
    unfold roundHalfEven
    dsimp only
    split_ifs <;> omega
  · have hmul : den * (4 * n) ≤ den * (2 * (num / den)) := Nat.mul_le_mul_left den (by omega)
    rw [Nat.mul_left_comm den 2] at hmul
    exact iff_of_false (by omega) (by omega)

theorem num_of_nonneg {y : ℚ} (hy : 0 ≤ y) : ((y.num.natAbs : ℕ) : ℚ) = y * y.den := by
  have hnonneg : 0 ≤ y.num := Rat.num_nonneg.2 hy
  rw [Rat.mul_den_eq_num, ← Int.cast_natCast, Int.natAbs_of_nonneg hnonneg]

theorem nearest_le {n : Nat} {y : ℚ} (hy : 0 ≤ y) (h : y ≤ n) : nearest y ≤ n := by
  refine roundHalfEven_le y.den_pos ?_
  have hmul := mul_le_mul_of_nonneg_right h (Nat.cast_nonneg (α := ℚ) y.den)
  rw [← num_of_nonneg hy] at hmul
  exact_mod_cast hmul

/-- Halfway in front of an even number is rounded up to it. -/
theorem nearest_lt_iff {n : Nat} {y : ℚ} (hy : 0 ≤ y) :
    nearest y < 2 * n ↔ y < 2 * n - 1 / 2 := by
  have hpos : (0 : ℚ) < y.den := Nat.cast_pos.2 y.den_pos
  have hscaled : y < 2 * n - 1 / 2 ↔ y * y.den < (2 * n - 1 / 2) * y.den :=
    (mul_lt_mul_iff_left₀ hpos).symm
  rw [nearest, roundHalfEven_lt_iff y.den_pos, hscaled, ← Nat.cast_lt (α := ℚ)]
  push_cast
  rw [num_of_nonneg hy]
  constructor <;> intro h <;> linarith

/-! ## The scale of a fraction -/

theorem log_eq {x : ℚ} {z : Int} (hlow : 2 ^ z ≤ x) (hhigh : x < 2 ^ (z + 1)) :
    Int.log 2 x = z := by
  have hpos : 0 < x := lt_of_lt_of_le (zpow_pos two_pos z) hlow
  have h₁ := (Int.zpow_le_iff_le_log one_lt_two hpos).1 (by rwa [Nat.cast_ofNat])
  have h₂ := (Int.lt_zpow_iff_log_lt one_lt_two hpos).1 (by rwa [Nat.cast_ofNat])
  omega

theorem cast_pow_toNat {q : Int} (hq : 0 ≤ q) : ((Nat.pow 2 q.toNat : ℕ) : ℚ) = 2 ^ q := by
  rw [Nat.pow_eq, Nat.cast_pow, ← zpow_natCast, Int.toNat_of_nonneg hq]
  rfl

/-- The exponent of the grid around a number. -/
def gridScale (x : ℚ) : Int :=
  max (Int.log 2 x - 52) (-1074)

/-- The two powers of two around a fraction that the lengths of its parts give. -/
theorem between_powers {num den : Nat} (hnum : 0 < num) (hden : 0 < den) :
    (2 : ℚ) ^ ((num.log2 : Int) - den.log2 - 1) < num / den ∧
      (num / den : ℚ) < 2 ^ ((num.log2 : Int) - den.log2 + 1) := by
  have hpos : (0 : ℚ) < den := Nat.cast_pos.2 hden
  have hpow (n : Nat) (hn : 0 < n) : (2 : ℚ) ^ (n.log2 : Int) ≤ n ∧ n < (2 : ℚ) ^ (n.log2 + 1 : Int) := by
    constructor
    · exact_mod_cast Nat.log2_self_le hn.ne'
    · exact_mod_cast Nat.lt_log2_self
  obtain ⟨hnlow, hnhigh⟩ := hpow num hnum
  obtain ⟨hdlow, hdhigh⟩ := hpow den hden
  constructor
  · rw [lt_div_iff₀ hpos]
    calc (2 : ℚ) ^ ((num.log2 : Int) - den.log2 - 1) * den
        < 2 ^ ((num.log2 : Int) - den.log2 - 1) * 2 ^ (den.log2 + 1 : Int) :=
          mul_lt_mul_of_pos_left hdhigh (zpow_pos two_pos _)
      _ = 2 ^ (num.log2 : Int) := by
          rw [← zpow_add₀ two_ne_zero]
          congr 1
          omega
      _ ≤ num := hnlow
  · rw [div_lt_iff₀ hpos]
    calc (num : ℚ) < 2 ^ (num.log2 + 1 : Int) := hnhigh
      _ = 2 ^ ((num.log2 : Int) - den.log2 + 1) * 2 ^ (den.log2 : Int) := by
          rw [← zpow_add₀ two_ne_zero]
          congr 1
          omega
      _ ≤ 2 ^ ((num.log2 : Int) - den.log2 + 1) * den :=
          mul_le_mul_of_nonneg_left hdlow (zpow_pos two_pos _).le

/-- The test by which the scale is chosen says whether the greater of the two powers fits. -/
theorem fits_iff {num den : Nat} (hden : 0 < den) (guess : Int) :
    (if guess < 0 then den * binade ≤ num * Nat.pow 2 (-guess).toNat
      else den * Nat.pow 2 guess.toNat * binade ≤ num) ↔
      (2 : ℚ) ^ (guess + 52) ≤ num / den := by
  have hpos : (0 : ℚ) < den := Nat.cast_pos.2 hden
  have hbinade : ((binade : ℕ) : ℚ) = 2 ^ (52 : Int) := by norm_num [binade]
  rw [le_div_iff₀ hpos, zpow_add₀ two_ne_zero, ← hbinade]
  split_ifs with h
  · have hpow := cast_pow_toNat (show 0 ≤ -guess by omega)
    rw [zpow_neg] at hpow
    have hswap : (2 : ℚ) ^ guess * binade * den = den * binade * 2 ^ guess := by ring
    rw [← Nat.cast_le (α := ℚ), Nat.cast_mul, Nat.cast_mul, hpow, ← div_eq_mul_inv,
      le_div_iff₀ (zpow_pos two_pos guess), hswap]
  · rw [← Nat.cast_le (α := ℚ), Nat.cast_mul, Nat.cast_mul, cast_pow_toNat (by omega),
      mul_comm (den : ℚ), mul_right_comm]

theorem scaleOfRatio_eq {num den : Nat} (hnum : 0 < num) (hden : 0 < den) :
    scaleOfRatio num den = gridScale (num / den) := by
  obtain ⟨hlow, hhigh⟩ := between_powers hnum hden
  unfold scaleOfRatio gridScale
  simp only [fits_iff hden]
  congr 1
  split_ifs with h
  · have hexp : (num.log2 : Int) - den.log2 - 52 + 52 + 1 = num.log2 - den.log2 + 1 := by omega
    rw [log_eq h (hexp ▸ hhigh)]
    omega
  · have hexp : (num.log2 : Int) - den.log2 - 1 + 1 = num.log2 - den.log2 - 52 + 52 := by omega
    rw [log_eq hlow.le (hexp ▸ lt_of_not_ge h)]
    omega

/-! ## Rounding to the grid -/

/-- The index of the grid point nearest to a number. -/
def nearestIndex (x : ℚ) : Nat :=
  if x = 0 then 0
  else (gridScale x + 1074).toNat * binade + nearest (x * 2 ^ (-gridScale x))

/-- Rounding a fraction is rounding its value. -/
theorem ofRatio_eq (negative : Bool) {num den : Nat} (hden : 0 < den) :
    ofRatio negative num den = ofIndex negative (nearestIndex (num / den)) := by
  have hpos : (0 : ℚ) < den := Nat.cast_pos.2 hden
  unfold ofRatio nearestIndex
  by_cases hnum : num = 0
  · rw [if_pos hnum, hnum, Nat.cast_zero, zero_div, if_pos rfl]
  · have hne : (num / den : ℚ) ≠ 0 := div_ne_zero (Nat.cast_ne_zero.2 hnum) hpos.ne'
    rw [if_neg hnum, if_neg hne]
    dsimp only
    rw [scaleOfRatio_eq (Nat.pos_of_ne_zero hnum) hden]
    set q := gridScale (num / den) with hq
    congr 2
    split_ifs with h
    · rw [roundHalfEven_eq hden, Nat.cast_mul, cast_pow_toNat (by omega), mul_div_right_comm]
    · have hpow : 0 < Nat.pow 2 q.toNat := Nat.pow_pos two_pos
      rw [roundHalfEven_eq (Nat.mul_pos hden hpow), Nat.cast_mul, cast_pow_toNat (by omega),
        zpow_neg, ← div_eq_mul_inv, div_div]

/-! ## Grid points -/

/-- The value of a grid point. -/
def gridPoint (index : Nat) : ℚ :=
  significand index * 2 ^ scale index

theorem gridPoint_pos {index : Nat} (h : 0 < index) : 0 < gridPoint index := by
  refine mul_pos (Nat.cast_pos.2 ?_) (zpow_pos two_pos _)
  have hbinade : 0 < binade := by decide
  unfold significand
  split_ifs <;> omega

theorem gridScale_gridPoint {index : Nat} (h : 0 < index) :
    gridScale (gridPoint index) = scale index := by
  have hbinade : ((binade : ℕ) : ℚ) = 2 ^ (52 : Int) := by norm_num [binade]
  unfold gridScale
  by_cases hsub : index < binade
  · -- below the first power of two with a full significand the scale is the least one
    have hscale : scale index = -1074 := by
      rw [scale, Nat.div_eq_of_lt hsub]
      rfl
    have hlog : Int.log 2 (gridPoint index) < -1074 + 52 := by
      rw [← Int.lt_zpow_iff_log_lt one_lt_two (gridPoint_pos h), gridPoint, significand,
        if_pos hsub, hscale, Nat.cast_ofNat, add_comm, zpow_add₀ two_ne_zero, ← hbinade]
      exact mul_lt_mul_of_pos_right (Nat.cast_lt.2 hsub) (zpow_pos two_pos _)
    omega
  · have hlog : Int.log 2 (gridPoint index) = 52 + scale index := by
      have hmod := Nat.mod_lt index (show 0 < binade by decide)
      rw [gridPoint, significand, if_neg hsub]
      apply log_eq
      · rw [zpow_add₀ two_ne_zero, ← hbinade]
        exact mul_le_mul_of_nonneg_right (Nat.cast_le.2 (by omega)) (zpow_pos two_pos _).le
      · rw [show (52 + scale index + 1 : Int) = 1 + 52 + scale index by omega,
          zpow_add₀ two_ne_zero, zpow_add₀ two_ne_zero, ← hbinade, zpow_one]
        refine mul_lt_mul_of_pos_right ?_ (zpow_pos two_pos _)
        exact_mod_cast (show index % binade + binade < 2 * binade by omega)
    rw [hlog]
    unfold scale
    omega

/-- A grid point is its own nearest one. -/
theorem nearestIndex_gridPoint (index : Nat) : nearestIndex (gridPoint index) = index := by
  rcases Nat.eq_zero_or_pos index with rfl | h
  · rw [nearestIndex, if_pos (by simp [gridPoint, significand])]
  have hscaled : gridPoint index * 2 ^ (-scale index) = (significand index : ℕ) := by
    rw [gridPoint, mul_assoc, ← zpow_add₀ two_ne_zero, add_neg_cancel, zpow_zero, mul_one]
  rw [nearestIndex, if_neg (gridPoint_pos h).ne', gridScale_gridPoint h, hscaled, nearest_natCast]
  unfold scale significand
  have := Nat.div_add_mod index binade
  -- the row of the grid that the index lies in, and the place in it
  split_ifs with hsub
  · rw [Nat.div_eq_of_lt hsub]
    simp
  · have hone : 1 ≤ index / binade := (Nat.one_le_div_iff (by decide)).2 (Nat.le_of_not_lt hsub)
    have hrow : ((index / binade - 1 : ℕ) - 1074 + 1074 : Int).toNat = index / binade - 1 := by omega
    obtain ⟨k, hk⟩ := Nat.exists_eq_add_of_le' hone
    rw [hrow, hk, Nat.add_sub_cancel]
    rw [hk, Nat.mul_add, Nat.mul_one, Nat.add_right_comm, Nat.add_assoc] at this
    rw [Nat.mul_comm, this]

/-! ## Beyond the grid -/

theorem overflow_le_nearestIndex {x : ℚ} (h : 2 ^ (1024 : Int) ≤ x) :
    overflow ≤ nearestIndex x := by
  have hpos : 0 < x := lt_of_lt_of_le (zpow_pos two_pos _) h
  have hlog : 1024 ≤ Int.log 2 x := (Int.zpow_le_iff_le_log one_lt_two hpos).1 (by rwa [Nat.cast_ofNat])
  have hscale : gridScale x = Int.log 2 x - 52 := by
    unfold gridScale
    omega
  have hfull : binade ≤ nearest (x * 2 ^ (-gridScale x)) := by
    apply le_nearest
    rw [hscale, zpow_neg, ← div_eq_mul_inv, le_div_iff₀ (zpow_pos two_pos _)]
    calc ((binade : ℕ) : ℚ) * 2 ^ (Int.log 2 x - 52) = 2 ^ Int.log 2 x := by
          rw [show ((binade : ℕ) : ℚ) = 2 ^ (52 : Int) by norm_num [binade],
            ← zpow_add₀ two_ne_zero]
          congr 1
          omega
      _ ≤ x := Int.zpow_log_le_self one_lt_two hpos
  rw [nearestIndex, if_neg hpos.ne']
  have hrow : 2046 ≤ (gridScale x + 1074).toNat := by omega
  calc overflow = 2046 * binade + binade := by decide
    _ ≤ (gridScale x + 1074).toNat * binade + nearest (x * 2 ^ (-gridScale x)) :=
        Nat.add_le_add (Nat.mul_le_mul_right _ hrow) hfull

theorem nearestIndex_le {x : ℚ} (hx : 0 < x) {row : Nat} (hlog : Int.log 2 x ≤ row - 1022) :
    nearestIndex x ≤ (row + 2) * binade := by
  have hhigh := Int.lt_zpow_succ_log_self one_lt_two x
  rw [Nat.cast_ofNat] at hhigh
  have hrow : (gridScale x + 1074).toNat ≤ row := by
    unfold gridScale
    omega
  have hplace : nearest (x * 2 ^ (-gridScale x)) ≤ 2 * binade := by
    refine nearest_le (mul_nonneg hx.le (zpow_pos two_pos _).le) ?_
    calc x * 2 ^ (-gridScale x) ≤ 2 ^ (Int.log 2 x + 1) * 2 ^ (-gridScale x) :=
          mul_le_mul_of_nonneg_right hhigh.le (zpow_pos two_pos _).le
      _ = 2 ^ (Int.log 2 x + 1 - gridScale x) := by
          rw [← zpow_add₀ two_ne_zero, sub_eq_add_neg]
      _ ≤ 2 ^ (53 : Int) := by
          refine zpow_le_zpow_right₀ one_le_two ?_
          unfold gridScale
          omega
      _ = ((2 * binade : ℕ) : ℚ) := by norm_num [binade]
  rw [nearestIndex, if_neg hx.ne', Nat.add_mul]
  exact Nat.add_le_add (Nat.mul_le_mul_right _ hrow) hplace

/-- Half a unit beyond the greatest finite double. -/
def limit : ℚ :=
  2 ^ (1024 : Int) - 2 ^ (970 : Int)

theorem two_zpow_le_limit : (2 : ℚ) ^ (1023 : Int) ≤ limit := by
  have hhalf : (2 : ℚ) ^ (1024 : Int) = 2 ^ (1023 : Int) + 2 ^ (1023 : Int) := by
    rw [show (1024 : Int) = 1023 + 1 from rfl, zpow_add_one₀ two_ne_zero, mul_two]
  rw [limit, hhalf, le_sub_iff_add_le]
  exact add_le_add_right (zpow_le_zpow_right₀ one_le_two (by decide)) _

/-- From half a unit beyond the greatest finite double on, numbers are rounded beyond it. -/
theorem nearestIndex_lt_overflow_iff {x : ℚ} (hx : 0 ≤ x) :
    nearestIndex x < overflow ↔ x < limit := by
  rcases hx.eq_or_lt with rfl | hpos
  · rw [nearestIndex, if_pos rfl]
    exact iff_of_true (by decide) ((zpow_pos two_pos _).trans_le two_zpow_le_limit)
  have hlow := Int.zpow_log_le_self one_lt_two hpos
  have hhigh := Int.lt_zpow_succ_log_self one_lt_two x
  rw [Nat.cast_ofNat] at hlow hhigh
  rcases Int.lt_trichotomy (Int.log 2 x) 1023 with hlog | hlog | hlog
  · have hbelow : x < 2 ^ (1023 : Int) :=
      hhigh.trans_le (zpow_le_zpow_right₀ one_le_two (by omega))
    have hindex : nearestIndex x ≤ (2044 + 2) * binade := nearestIndex_le hpos (by omega)
    exact iff_of_true (hindex.trans_lt (by decide)) (hbelow.trans_le two_zpow_le_limit)
  · -- in the last row of the grid the place behind the last one decides
    have hscale : gridScale x = 971 := by
      unfold gridScale
      omega
    have hrow : nearestIndex x = 2045 * binade + nearest (x * 2 ^ (-971 : Int)) := by
      rw [nearestIndex, if_neg hpos.ne', hscale]
      rfl
    have hplace : nearest (x * 2 ^ (-971 : Int)) < 2 * binade ↔
        x * 2 ^ (-971 : Int) < 2 * binade - 1 / 2 :=
      nearest_lt_iff (mul_nonneg hx (zpow_pos two_pos _).le)
    have hunit : (2 * binade - 1 / 2 : ℚ) = limit * 2 ^ (-971 : Int) := by
      rw [limit, sub_mul, ← zpow_add₀ two_ne_zero, ← zpow_add₀ two_ne_zero]
      norm_num [binade]
    rw [hunit, mul_lt_mul_iff_left₀ (zpow_pos two_pos _)] at hplace
    rw [← hplace, hrow]
    unfold overflow
    omega
  · have hlarge : 2 ^ (1024 : Int) ≤ x :=
      le_trans (zpow_le_zpow_right₀ one_le_two (by omega)) hlow
    exact iff_of_false (Nat.not_lt.2 (overflow_le_nearestIndex hlarge))
      (not_lt.2 ((sub_le_self _ (zpow_pos two_pos _).le).trans hlarge))

theorem nearestIndex_of_lt {x : ℚ} (hx : 0 ≤ x) (h : x < 2 ^ (-1075 : Int)) :
    nearestIndex x = 0 := by
  rcases hx.eq_or_lt with rfl | hpos
  · rw [nearestIndex, if_pos rfl]
  have hlog : Int.log 2 x < -1075 := (Int.lt_zpow_iff_log_lt one_lt_two hpos).1 (by rwa [Nat.cast_ofNat])
  have hscale : gridScale x = -1074 := by
    unfold gridScale
    omega
  have hzero : nearest (x * 2 ^ (1074 : Int)) = 0 := by
    refine nearest_eq_zero (mul_nonneg hx (zpow_pos two_pos _).le) ?_
    calc x * 2 ^ (1074 : Int) < 2 ^ (-1075 : Int) * 2 ^ (1074 : Int) :=
          mul_lt_mul_of_pos_right h (zpow_pos two_pos _)
      _ = 1 / 2 := by
          rw [← zpow_add₀ two_ne_zero]
          norm_num
  rw [nearestIndex, if_neg hpos.ne', hscale, neg_neg, hzero]
  rfl

end Binary64

end PackageAudit
