-- SUMMARY: Rounding of equal quotients, of quotients that are numbers, and of natural numbers.
import Egg.Number.Nearest

/-!
# Rounding that loses nothing

A quotient rounds to the same number however it is written, and the exact magnitude
of a finite number rounds to that number. The number nearest to a natural number is
a whole number again, or infinity.
-/

namespace Egg.Number

/-! ## Quotients -/

theorem roundHalfEven_mul_right {c : Nat} (num den : Nat) (hc : 0 < c) :
    roundHalfEven (num * c) (den * c) = roundHalfEven num den := by
  have hlt (a b : Nat) : 2 * (a * c) < b * c ↔ 2 * a < b := by
    rw [← Nat.mul_assoc]
    exact Nat.mul_lt_mul_right hc
  have hlt' (a b : Nat) : b * c < 2 * (a * c) ↔ b < 2 * a := by
    rw [← Nat.mul_assoc]
    exact Nat.mul_lt_mul_right hc
  simp only [roundHalfEven, Nat.mul_div_mul_right _ _ hc, Nat.mul_mod_mul_right, hlt, hlt']

theorem roundHalfEven_mul_self {d : Nat} (q : Nat) (hd : 0 < d) : roundHalfEven (q * d) d = q := by
  simp [roundHalfEven, Nat.mul_div_cancel _ hd, Nat.mul_mod_left, hd]

theorem div_le_roundHalfEven (num den : Nat) : num / den ≤ roundHalfEven num den := by
  simp only [roundHalfEven]
  split
  · exact Nat.le_refl _
  · split <;> omega

theorem roundHalfEven_le (num den : Nat) : roundHalfEven num den ≤ num / den + 1 := by
  simp only [roundHalfEven]
  split
  · omega
  · split <;> omega

/-- A quotient rounds alike however it is written. -/
theorem nearestCode_mul_right {c : Nat} (num den : Nat) (hc : 0 < c) :
    nearestCode (num * c) (den * c) = nearestCode num den := by
  unfold nearestCode
  generalize 2 ^ 1074 = unit
  have hden (k : Nat) : den * c * 2 ^ k = den * 2 ^ k * c := Nat.mul_right_comm ..
  simp only [← Nat.mul_assoc, hden, Nat.mul_div_mul_right _ _ hc, roundHalfEven_mul_right _ _ hc]

theorem nearestCode_mul_self {c : Nat} (num : Nat) (hc : 0 < c) :
    nearestCode (num * c) c = nearestCode num 1 := by
  simpa only [Nat.one_mul] using nearestCode_mul_right num 1 hc

theorem nearestCode_zero : nearestCode 0 1 = 0 := by
  unfold nearestCode
  generalize 2 ^ 1074 = unit
  rw [Nat.mul_zero]
  rfl

/-! ## Codes and magnitudes -/

/-- The code of the magnitude `q * 2 ^ k`, when `q` takes 53 bits. One more than the
    largest such `q` gives the first magnitude with the next exponent. -/
theorem units_mul_add {q : Nat} (k : Nat) (hq : 2 ^ 52 ≤ q) (hq' : q ≤ 2 ^ 53) :
    units (k * 2 ^ 52 + q) = q * 2 ^ k := by
  have hle : ¬ k * 2 ^ 52 + q < 2 ^ 52 := by omega
  rcases Nat.lt_or_eq_of_le hq' with hlt | rfl
  · have hdiv : (k * 2 ^ 52 + q) / 2 ^ 52 = k + 1 := by omega
    have hmod : (k * 2 ^ 52 + q) % 2 ^ 52 = q - 2 ^ 52 := by omega
    rw [units, if_neg hle, hdiv, hmod, Nat.add_sub_cancel, Nat.add_sub_cancel' hq]
  · have hdiv : (k * 2 ^ 52 + 2 ^ 53) / 2 ^ 52 = k + 2 := by omega
    have hmod : (k * 2 ^ 52 + 2 ^ 53) % 2 ^ 52 = 0 := by omega
    rw [units, if_neg hle, hdiv, hmod, Nat.add_zero, show k + 2 - 1 = k + 1 from rfl, Nat.pow_succ]
    omega

/-- A code from 2^52 on is that of a magnitude whose leading 53 bits are all it has. -/
theorem exists_eq_mul_add {code : Nat} (h : 2 ^ 52 ≤ code) :
    ∃ k q, code = k * 2 ^ 52 + q ∧ 2 ^ 52 ≤ q ∧ q < 2 ^ 53 :=
  ⟨code / 2 ^ 52 - 1, 2 ^ 52 + code % 2 ^ 52, by omega, by omega, by omega⟩

theorem log2_mul_two_pow {q : Nat} (k : Nat) (hq : 2 ^ 52 ≤ q) (hq' : q < 2 ^ 53) :
    (q * 2 ^ k).log2 = 52 + k := by
  have hk := Nat.two_pow_pos k
  have hne : q * 2 ^ k ≠ 0 := Nat.mul_ne_zero (by omega) (by omega)
  refine (Nat.log2_eq_iff hne).mpr ⟨?_, ?_⟩
  · rw [Nat.pow_add]
    exact Nat.mul_le_mul_right _ hq
  · rw [Nat.add_right_comm, Nat.pow_add]
    exact Nat.mul_lt_mul_of_pos_right hq' hk

/-- The exact magnitude of a finite number rounds to that number. -/
theorem nearestCode_units {code : Nat} (h : code < infinityCode) :
    nearestCode (units code) (2 ^ 1074) = code := by
  have hpos := Nat.two_pow_pos 1074
  unfold nearestCode
  generalize 2 ^ 1074 = unit at *
  simp only [Nat.mul_div_cancel_left _ hpos]
  by_cases hsmall : code < 2 ^ 52
  · have hunits : units code = code := by rw [units, if_pos hsmall]
    have hlog : code.log2 - 52 = 0 := by
      rcases Nat.eq_zero_or_pos code with rfl | hcode
      · rfl
      · have := (Nat.log2_lt (Nat.ne_of_gt hcode)).mpr hsmall
        omega
    have hround : roundHalfEven (unit * code) unit = code := by
      rw [Nat.mul_comm]
      exact roundHalfEven_mul_self code hpos
    simp only [hunits, hlog, Nat.pow_zero, Nat.mul_one, Nat.zero_mul, Nat.zero_add, hround]
    exact Nat.min_eq_left (Nat.le_of_lt h)
  · obtain ⟨k, q, rfl, hq, hq'⟩ := exists_eq_mul_add (Nat.not_lt.mp hsmall)
    have hround : roundHalfEven (unit * (q * 2 ^ k)) (unit * 2 ^ k) = q := by
      rw [Nat.mul_left_comm]
      exact roundHalfEven_mul_self q (Nat.mul_pos hpos (Nat.two_pow_pos k))
    simp only [units_mul_add k hq (Nat.le_of_lt hq'), log2_mul_two_pow k hq hq',
      Nat.add_sub_cancel_left, hround]
    exact Nat.min_eq_left (Nat.le_of_lt h)

/-- The number nearest to a natural number keeps the leading 53 bits of it, rounded.
    A natural number above zero has that many, when it is counted in units. -/
theorem units_nearestCode_one {num : Nat} (hnum : 0 < num)
    (h : nearestCode num 1 < infinityCode) :
    ∃ k, units (nearestCode num 1) = roundHalfEven (2 ^ 1074 * num) (2 ^ k) * 2 ^ k := by
  unfold nearestCode at *
  generalize hn : 1074 = n at *
  have hne : 2 ^ n * num ≠ 0 :=
    Nat.mul_ne_zero (Nat.ne_of_gt (Nat.two_pow_pos n)) (Nat.ne_of_gt hnum)
  have hlog : n ≤ (2 ^ n * num).log2 :=
    (Nat.le_log2 hne).mpr (Nat.le_mul_of_pos_right (2 ^ n) hnum)
  generalize 2 ^ n * num = count at *
  simp only [Nat.div_one, Nat.one_mul] at *
  obtain ⟨k, hk⟩ : ∃ k, count.log2 = 52 + k := ⟨count.log2 - 52, by omega⟩
  obtain ⟨hlower, hupper⟩ := (Nat.log2_eq_iff hne).mp hk
  rw [hk, Nat.add_sub_cancel_left] at h ⊢
  have hq : 2 ^ 52 ≤ roundHalfEven count (2 ^ k) := by
    refine Nat.le_trans ?_ (div_le_roundHalfEven ..)
    rwa [Nat.le_div_iff_mul_le (Nat.two_pow_pos k), ← Nat.pow_add]
  have hq' : roundHalfEven count (2 ^ k) ≤ 2 ^ 53 := by
    refine Nat.le_trans (roundHalfEven_le ..) ?_
    rwa [Nat.succ_le_iff, Nat.div_lt_iff_lt_mul (Nat.two_pow_pos k), ← Nat.pow_add,
      show 53 + k = 52 + k + 1 by omega]
  refine ⟨k, ?_⟩
  rw [Nat.min_eq_left (by omega)]
  exact units_mul_add k hq hq'

/-- The number nearest to a natural number is whole, if it is finite. -/
theorem dvd_units_nearestCode_one {num : Nat} (h : nearestCode num 1 < infinityCode) :
    2 ^ 1074 ∣ units (nearestCode num 1) := by
  rcases Nat.eq_zero_or_pos num with rfl | hnum
  · rw [nearestCode_zero]
    exact Nat.dvd_zero _
  · obtain ⟨k, hunits⟩ := units_nearestCode_one hnum h
    rw [hunits]
    generalize 1074 = n
    rcases Nat.le_total n k with hle | hle
    · exact Nat.dvd_mul_left_of_dvd (Nat.pow_dvd_pow 2 hle) _
    · -- The bits that are dropped are all zero.
      have hsplit : 2 ^ n * num = 2 ^ (n - k) * num * 2 ^ k := by
        rw [Nat.mul_right_comm, ← Nat.pow_add, Nat.sub_add_cancel hle]
      rw [hsplit, roundHalfEven_mul_self _ (Nat.two_pow_pos k), ← hsplit]
      exact Nat.dvd_mul_right ..

end Egg.Number
