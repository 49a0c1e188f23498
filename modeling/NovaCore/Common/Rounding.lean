import NovaCore.Common.F64
import Mathlib.Data.Int.ConditionallyCompleteOrder
import Mathlib.Tactic.Positivity

/-!
# Rounding to doubles is monotone

`F64.ofRat` rounds to the nearest multiple of a unit in the last place that depends on the number.
Two numbers with one unit are kept in order by the rounding to integers.  Two numbers with
different units have a power of two between them, which both units divide.

## Main results

* `F64.nearest_mono` : **rounding keeps the order of numbers, if not strictly.**
* `F64.nearest_intCast` : integers below `2 ^ 53` are doubles.
* `F64.ofRat_intCast` : no 64-bit integer is rounded to an infinity.
-/

namespace NovaCore

open Int

/-! ### The nearest integer -/

theorem floor_le_roundHalfEven (x : ℚ) : ⌊x⌋ ≤ roundHalfEven x := by
  unfold roundHalfEven
  dsimp only
  split_ifs <;> omega

theorem roundHalfEven_le_floor_add_one (x : ℚ) : roundHalfEven x ≤ ⌊x⌋ + 1 := by
  unfold roundHalfEven
  dsimp only
  split_ifs <;> omega

theorem roundHalfEven_mono : Monotone roundHalfEven := by
  intro x y hxy
  rcases (floor_mono hxy).lt_or_eq with hlt | heq
  · calc roundHalfEven x ≤ ⌊x⌋ + 1 := roundHalfEven_le_floor_add_one x
      _ ≤ ⌊y⌋ := hlt
      _ ≤ roundHalfEven y := floor_le_roundHalfEven y
  · -- with one floor, the fractions decide
    unfold roundHalfEven
    dsimp only
    rw [heq]
    split_ifs <;> first | omega | linarith

theorem roundHalfEven_intCast (n : ℤ) : roundHalfEven n = n := by
  simp [roundHalfEven]

namespace F64

/-! ### The nearest double -/

variable (q : ℚ)

/-- The exponent of the unit in the last place. -/
def exponent : ℤ := max (Int.log 2 |q| - 52) (-1074)

/-- The nearest number with 53 significant bits and no exponent below `-1074`. -/
def nearest : ℚ := roundHalfEven (q / 2 ^ exponent q) * 2 ^ exponent q

theorem ofRat_eq : ofRat q =
    if 2 ^ 1024 ≤ nearest q then posInf else if nearest q ≤ -2 ^ 1024 then negInf
    else finite (nearest q) := by
  by_cases hq : q = 0
  · have hzero : nearest 0 = 0 := by
      have hround := roundHalfEven_intCast 0
      simp only [nearest, zero_div, cast_zero] at hround ⊢
      rw [hround, cast_zero, zero_mul]
    rw [hq, hzero, ofRat, if_pos rfl, if_neg (by norm_num), if_neg (by norm_num)]
  · rw [ofRat, if_neg hq]
    rfl

theorem exponent_mono {p q : ℚ} (hp : p ≠ 0) (h : |p| ≤ |q|) : exponent p ≤ exponent q := by
  have hlog : log 2 |p| ≤ log 2 |q| := log_mono_right (abs_pos.2 hp) h
  unfold exponent
  omega

theorem two_zpow_pos (e : ℤ) : (0 : ℚ) < 2 ^ e := zpow_pos (by norm_num) e

theorem abs_lt_two_zpow : |q| < 2 ^ (exponent q + 53) := by
  have hlog : |q| < 2 ^ (log 2 |q| + 1) := by
    exact_mod_cast lt_zpow_succ_log_self (by norm_num) |q|
  refine hlog.trans_le (zpow_le_zpow_right₀ (by norm_num) ?_)
  unfold exponent
  omega

theorem two_zpow_le_abs {q : ℚ} (hq : q ≠ 0) (he : -1074 < exponent q) :
    2 ^ (exponent q + 52) ≤ |q| := by
  have hexp : exponent q + 52 = log 2 |q| := by
    unfold exponent at he ⊢
    omega
  rw [hexp]
  exact_mod_cast zpow_log_le_self (by norm_num) (abs_pos.2 hq)

/-- A multiple of the unit stays a bound. -/
theorem nearest_le {q : ℚ} {n : ℤ} (h : q ≤ n * 2 ^ exponent q) :
    nearest q ≤ n * 2 ^ exponent q := by
  have hpos := two_zpow_pos (exponent q)
  have hround : roundHalfEven (q / 2 ^ exponent q) ≤ n := by
    rw [← roundHalfEven_intCast n]
    exact roundHalfEven_mono ((div_le_iff₀ hpos).2 h)
  exact mul_le_mul_of_nonneg_right (by exact_mod_cast hround) hpos.le

theorem le_nearest {q : ℚ} {n : ℤ} (h : n * 2 ^ exponent q ≤ q) :
    n * 2 ^ exponent q ≤ nearest q := by
  have hpos := two_zpow_pos (exponent q)
  have hround : n ≤ roundHalfEven (q / 2 ^ exponent q) := by
    rw [← roundHalfEven_intCast n]
    exact roundHalfEven_mono ((le_div_iff₀ hpos).2 h)
  exact mul_le_mul_of_nonneg_right (by exact_mod_cast hround) hpos.le

theorem two_pow_mul_zpow (k : ℕ) (e : ℤ) : (((2 ^ k : ℕ) : ℤ) : ℚ) * 2 ^ e = 2 ^ (e + k) := by
  rw [zpow_add₀ (by norm_num), mul_comm]
  push_cast
  rw [zpow_natCast]

theorem abs_nearest_le : |nearest q| ≤ 2 ^ (exponent q + 53) := by
  obtain ⟨hneg, hpos⟩ := abs_lt.1 (abs_lt_two_zpow q)
  have hpow := two_pow_mul_zpow 53 (exponent q)
  rw [abs_le]
  constructor
  · have h := le_nearest (q := q) (n := -(2 ^ 53 : ℕ)) (by push_cast at hpow ⊢; linarith)
    push_cast at hpow h
    linarith
  · have h := nearest_le (n := (2 ^ 53 : ℕ)) (by push_cast at hpow ⊢; linarith)
    push_cast at hpow h
    linarith

theorem two_zpow_le_nearest {q : ℚ} (hq : 0 < q) (he : -1074 < exponent q) :
    2 ^ (exponent q + 52) ≤ nearest q := by
  have hle := two_zpow_le_abs hq.ne' he
  have hpow := two_pow_mul_zpow 52 (exponent q)
  rw [abs_of_pos hq] at hle
  have h := le_nearest (q := q) (n := (2 ^ 52 : ℕ)) (by push_cast at hpow ⊢; linarith)
  push_cast at hpow h
  linarith

theorem nearest_le_neg_two_zpow {q : ℚ} (hq : q < 0) (he : -1074 < exponent q) :
    nearest q ≤ -2 ^ (exponent q + 52) := by
  have hle := two_zpow_le_abs hq.ne he
  have hpow := two_pow_mul_zpow 52 (exponent q)
  rw [abs_of_neg hq] at hle
  have h := nearest_le (n := -(2 ^ 52 : ℕ)) (by push_cast at hpow ⊢; linarith)
  push_cast at hpow h
  linarith

theorem nearest_nonneg {q : ℚ} (hq : 0 ≤ q) : 0 ≤ nearest q := by
  simpa using le_nearest (n := 0) (by simpa using hq)

theorem nearest_nonpos {q : ℚ} (hq : q ≤ 0) : nearest q ≤ 0 := by
  simpa using nearest_le (n := 0) (by simpa using hq)

theorem nearest_le_of_exponent_eq {p q : ℚ} (h : p ≤ q) (he : exponent p = exponent q) :
    nearest p ≤ nearest q := by
  have hpos := two_zpow_pos (exponent q)
  unfold nearest
  rw [he]
  refine mul_le_mul_of_nonneg_right ?_ hpos.le
  exact_mod_cast roundHalfEven_mono ((div_le_div_iff_of_pos_right hpos).2 h)

/-- **Rounding keeps the order of numbers.** -/
theorem nearest_mono : Monotone nearest := by
  intro p q hpq
  by_cases heq : exponent p = exponent q
  · exact nearest_le_of_exponent_eq hpq heq
  have hstep : ∀ {a b : ℤ}, a < b → (2 : ℚ) ^ (a + 53) ≤ 2 ^ (b + 52) := fun hab =>
    zpow_le_zpow_right₀ (by norm_num) (by omega)
  have hbound : ∀ x, -1074 ≤ exponent x := fun x => le_max_right _ _
  rcases lt_trichotomy p 0 with hp | rfl | hp
  · rcases le_or_gt 0 q with hq | hq
    · exact (nearest_nonpos hp.le).trans (nearest_nonneg hq)
    · -- both are negative, and the unit of `p` is the larger one
      have hle : exponent q ≤ exponent p :=
        exponent_mono hq.ne (by rw [abs_of_neg hp, abs_of_neg hq]; linarith)
      have hlt : exponent q < exponent p := lt_of_le_of_ne hle (Ne.symm heq)
      have hp' := nearest_le_neg_two_zpow hp ((hbound q).trans_lt hlt)
      have hq' := (abs_le.1 (abs_nearest_le q)).1
      linarith [hstep hlt]
  · exact (nearest_nonpos le_rfl).trans (nearest_nonneg hpq)
  · have hq : 0 < q := hp.trans_le hpq
    have hle : exponent p ≤ exponent q :=
      exponent_mono hp.ne' (by rw [abs_of_pos hp, abs_of_pos hq]; exact hpq)
    have hlt : exponent p < exponent q := lt_of_le_of_ne hle heq
    have hq' := two_zpow_le_nearest hq ((hbound p).trans_lt hlt)
    have hp' := (abs_le.1 (abs_nearest_le p)).2
    linarith [hstep hlt]

/-- Integers of 53 bits are doubles. -/
theorem nearest_intCast {n : ℤ} (h : |n| < 2 ^ 53) : nearest n = n := by
  by_cases hn : n = 0
  · subst hn
    exact le_antisymm (nearest_nonpos (by simp)) (nearest_nonneg (by simp))
  -- the exponent of the unit is not positive, so the unit divides every integer
  have hlog : log 2 |(n : ℚ)| < 53 := by
    rw [← lt_zpow_iff_log_lt (by norm_num) (by positivity)]
    exact_mod_cast h
  obtain ⟨k, hk⟩ : ∃ k : ℕ, exponent (n : ℚ) = -k := by
    refine ⟨(-exponent (n : ℚ)).toNat, ?_⟩
    unfold exponent
    omega
  have hunit : ((n * 2 ^ k : ℤ) : ℚ) * 2 ^ exponent (n : ℚ) = n := by
    rw [hk, zpow_neg, zpow_natCast]
    push_cast
    field_simp
  have hlow := le_nearest hunit.le
  have hhigh := nearest_le hunit.ge
  rw [hunit] at hlow hhigh
  exact le_antisymm hhigh hlow

/-- A 64-bit integer is rounded to a finite double. -/
theorem ofRat_intCast {n : ℤ} (h : |n| ≤ 2 ^ 64) : ofRat n = finite (nearest n) := by
  have hexp : exponent (n : ℚ) ≤ 12 := by
    by_cases hn : n = 0
    · subst hn
      simp [exponent]
    have hpos : (0 : ℚ) < |(n : ℚ)| := abs_pos.2 (by exact_mod_cast hn)
    have hlog : log 2 |(n : ℚ)| < 65 := by
      rw [← lt_zpow_iff_log_lt (by norm_num) hpos]
      have hlt : |n| < 2 ^ 65 := h.trans_lt (by norm_num)
      exact_mod_cast hlt
    unfold exponent
    omega
  have hpow : (2 : ℚ) ^ (exponent (n : ℚ) + 53) ≤ 2 ^ (65 : ℤ) :=
    zpow_le_zpow_right₀ (by norm_num) (by omega)
  have hlt : (2 : ℚ) ^ (65 : ℤ) < 2 ^ 1024 :=
    (zpow_natCast (2 : ℚ) 65).trans_lt (pow_lt_pow_right₀ one_lt_two (by norm_num))
  obtain ⟨hlow, hhigh⟩ := abs_le.1 ((abs_nearest_le n).trans hpow)
  rw [ofRat_eq, if_neg (not_le.2 (hhigh.trans_lt hlt)),
    if_neg (not_le.2 ((neg_lt_neg hlt).trans_le hlow))]

end F64

end NovaCore
