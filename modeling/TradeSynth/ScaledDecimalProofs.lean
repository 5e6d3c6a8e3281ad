import Mathlib.Data.Rat.Floor
import Mathlib.Tactic.Linarith
import Mathlib.Tactic.Ring

/-!
# Scaled numbers — a mantissa and an exponent, to any base

The number `m * b ^ e` has many spellings. One of them is normal: an exponent that is not
positive, and a mantissa that the base does not divide unless the exponent is zero. The
normal spelling of a number is unique (`value_eq_iff`), for the only way from one exponent
to a smaller one is to multiply the mantissa by the base.

The second half is about cutting a rational to `k` digits behind the point, toward zero:
the cut number is less than one unit of the last digit away (`cut_bounds`).
-/

namespace ScaledDecimal

variable {b m m' e e' : ℤ}

-- ── Normal spellings ─────────────────────────────────────────────────────────

/-- The number with this mantissa and exponent. -/
def value (b m e : ℤ) : ℚ := (m : ℚ) * (b : ℚ) ^ e

/-- A factor of the base moves from the mantissa into the exponent. -/
theorem value_mul (hb : b ≠ 0) (m e : ℤ) : value b (b * m) e = value b m (e + 1) := by
  have hb' : (b : ℚ) ≠ 0 := Int.cast_ne_zero.mpr hb
  rw [value, value, Int.cast_mul, zpow_add_one₀ hb']
  ring

/-- Many factors. -/
theorem value_mul_pow (hb : b ≠ 0) (m e : ℤ) (k : ℕ) :
    value b (b ^ k * m) e = value b m (e + k) := by
  induction k generalizing e with
  | zero => simp
  | succ k ih =>
      rw [pow_succ', mul_assoc, value_mul hb, ih (e + 1)]
      congr 1
      push_cast
      ring

/-- With one exponent, the number fixes the mantissa. -/
theorem value_left_inj (hb : b ≠ 0) : value b m e = value b m' e ↔ m = m' := by
  have hpow : (b : ℚ) ^ e ≠ 0 := zpow_ne_zero e (Int.cast_ne_zero.mpr hb)
  rw [value, value, mul_left_inj' hpow, Int.cast_inj]

/-- A spelling that cannot be reduced further. -/
structure Normal (b m e : ℤ) : Prop where
  nonpos  : e ≤ 0
  reduced : b ∣ m → e = 0

/-- The exponent of a normal spelling is not the smaller one. -/
theorem Normal.exponent_le (hb : b ≠ 0) (h : Normal b m e) (h' : Normal b m' e')
    (heq : value b m e = value b m' e') : e' ≤ e := by
  by_contra hlt
  obtain ⟨k, hk⟩ : ∃ k : ℕ, e' = e + (k + 1 : ℕ) := ⟨(e' - e - 1).toNat, by omega⟩
  rw [hk, ← value_mul_pow hb, value_left_inj hb] at heq
  have hdvd : b ∣ m := by
    rw [heq, pow_succ', mul_assoc]
    exact dvd_mul_right b _
  have hzero := h.reduced hdvd
  have hnonpos := h'.nonpos
  omega

/-- **Uniqueness.** Two normal spellings denote the same number exactly when they are the
    same. -/
theorem value_eq_iff (hb : b ≠ 0) (h : Normal b m e) (h' : Normal b m' e') :
    value b m e = value b m' e' ↔ m = m' ∧ e = e' := by
  constructor
  · intro heq
    have hexp : e = e' :=
      le_antisymm (h'.exponent_le hb h heq.symm) (h.exponent_le hb h' heq)
    rw [hexp, value_left_inj hb] at heq
    exact ⟨heq, hexp⟩
  · rintro ⟨rfl, rfl⟩
    rfl

-- ── Cutting toward zero ──────────────────────────────────────────────────────

/-- The integer part of a rational, toward zero. -/
def trunc (x : ℚ) : ℤ := x.num.tdiv x.den

/-- The integer part is less than one away. -/
theorem trunc_bounds (x : ℚ) : x - 1 < trunc x ∧ (trunc x : ℚ) < x + 1 := by
  have hden : (0 : ℤ) < x.den := Int.natCast_pos.mpr x.den_pos
  have hsplit := Int.mul_tdiv_add_tmod x.num x.den
  have hlow : -(x.den : ℤ) < x.num.tmod x.den := Int.lt_tmod_of_pos x.num hden
  have hhigh : x.num.tmod x.den < x.den := Int.tmod_lt_of_pos x.num hden
  have hden' : (0 : ℚ) < x.den := Nat.cast_pos.mpr x.den_pos
  have hx : x * x.den = x.num := Rat.mul_den_eq_num x
  have hup : (trunc x : ℚ) * x.den < (x + 1) * x.den := by
    rw [add_mul, one_mul, hx, trunc]
    norm_cast
    rw [Int.mul_comm]
    omega
  have hdown : (x - 1) * x.den < (trunc x : ℚ) * x.den := by
    rw [sub_mul, one_mul, hx, trunc]
    norm_cast
    rw [Int.mul_comm]
    omega
  exact ⟨lt_of_mul_lt_mul_right hdown hden'.le, lt_of_mul_lt_mul_right hup hden'.le⟩

/-- From zero on the integer part is the floor. -/
theorem trunc_of_nonneg {x : ℚ} (h : 0 ≤ x) : trunc x = ⌊x⌋ := by
  rw [trunc, Int.tdiv_eq_ediv_of_nonneg (Rat.num_nonneg.mpr h), Rat.floor_def']

/-- A positive integer is reached by the integer part when it is reached by the number. -/
theorem le_trunc_iff {x : ℚ} {k : ℤ} (hk : 0 < k) : k ≤ trunc x ↔ (k : ℚ) ≤ x := by
  have hk' : (0 : ℚ) < k := Int.cast_pos.mpr hk
  by_cases hx : 0 ≤ x
  · rw [trunc_of_nonneg hx, Int.le_floor]
  · have hlt : (trunc x : ℚ) < 1 := by linarith [(trunc_bounds x).2]
    have hle : trunc x < 1 := by exact_mod_cast hlt
    exact iff_of_false (by omega) (by linarith)

/-- The number cut to `k` digits behind the point. -/
def cut (b : ℤ) (k : ℕ) (x : ℚ) : ℚ := (trunc (x * (b : ℚ) ^ k) : ℚ) / (b : ℚ) ^ k

/-- The cut number is less than one unit of the last digit away. -/
theorem cut_bounds (hb : 0 < b) (k : ℕ) (x : ℚ) :
    x - 1 / (b : ℚ) ^ k < cut b k x ∧ cut b k x < x + 1 / (b : ℚ) ^ k := by
  have hpow : (0 : ℚ) < (b : ℚ) ^ k := pow_pos (Int.cast_pos.mpr hb) k
  obtain ⟨hlow, hhigh⟩ := trunc_bounds (x * (b : ℚ) ^ k)
  constructor
  · rw [cut, lt_div_iff₀ hpow, sub_mul, div_mul_cancel₀ 1 hpow.ne']
    exact hlow
  · rw [cut, div_lt_iff₀ hpow, add_mul, div_mul_cancel₀ 1 hpow.ne']
    exact hhigh

end ScaledDecimal
