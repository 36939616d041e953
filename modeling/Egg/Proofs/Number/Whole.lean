-- SUMMARY: Whole numbers are written as runs of digits, and only they are read from such runs.
import Egg.Number.Decimal
import Egg.Proofs.Number.Nearest

/-!
# Whole numbers

A run of digits denotes a whole number without sign, or infinity. The other way
around, a whole number is written in the plain style as a run of digits that denotes
it: dropping 1074 digits from its exact decimal leaves the number itself, so the
shortest decimal drops that many at least and has no places behind a point.
-/

namespace Egg.Number

/-- A finite number without sign that counts whole ones: 2^1074 of the units of a
    magnitude make one. -/
structure IsWhole (x : Number) : Prop where
  notNegative : x.isNegative = false
  finite : x.code < infinityCode
  whole : 2 ^ 1074 ∣ units x.code

/-! ## Reading -/

theorem nearestCode_le (num den : Nat) : nearestCode num den ≤ infinityCode :=
  Nat.min_le_right ..

theorem infinityCode_lt : infinityCode < 2 ^ 63 := by decide

theorem isNegative_ofCode {code : Nat} (h : code < 2 ^ 63) : (ofCode code).isNegative = false := by
  simp only [ofCode, isNegative, UInt64.toNat_ofNat', decide_eq_false_iff_not]
  omega

theorem ofCode_code {x : Number} (h : x.isNegative = false) : ofCode x.code = x := by
  simp only [isNegative, decide_eq_false_iff_not, Nat.not_le] at h
  simp only [code, Nat.mod_eq_of_lt h, ofCode, UInt64.ofNat_toNat]

/-- A run of digits denotes a whole number or infinity. -/
theorem isWhole_ofDigits (digits : List Char) :
    ofDigits digits = infinity ∨ (ofDigits digits).IsWhole := by
  have hle := nearestCode_le (Nat.ofDigitChars 10 digits 0) 1
  have hlt := Nat.lt_of_le_of_lt hle infinityCode_lt
  unfold ofDigits ofNat
  rcases Nat.lt_or_eq_of_le hle with hfin | hinf
  · refine .inr ⟨isNegative_ofCode hlt, ?_, ?_⟩
    · rwa [code_ofCode hlt]
    · rw [code_ofCode hlt]
      exact dvd_units_nearestCode_one hfin
  · exact .inl (by rw [hinf, infinity])

/-! ## Writing -/

namespace Decimal

theorem ten_pow_pos (n : Nat) : 0 < 10 ^ n := Nat.pow_pos (by decide)

theorem readsBack_of_neighbour? {count dropped digits : Nat} {readsBack : Nat → Nat → Bool}
    (h : neighbour? count readsBack dropped = some digits) : readsBack dropped digits = true := by
  simp only [neighbour?] at h
  split at h
  · next hb ha =>
    split at h
    · exact Option.some.inj h ▸ hb
    · exact Option.some.inj h ▸ ha
  · next hb _ => exact Option.some.inj h ▸ hb
  · next _ ha => exact Option.some.inj h ▸ ha
  · cases h

theorem neighbour?_ne_none {count dropped : Nat} {readsBack : Nat → Nat → Bool}
    (h : readsBack dropped (count / 10 ^ dropped) = true) :
    neighbour? count readsBack dropped ≠ none := by
  simp only [neighbour?, h]
  split
  · split <;> simp
  · simp
  · simp_all
  · simp_all

/-- If a decimal that drops `n` digits reads back, the shortest decimal drops as many
    at least, and reads back too. -/
theorem exists_dropAtMost {count n : Nat} {readsBack : Nat → Nat → Bool} (hn : 0 < n)
    (h : readsBack n (count / 10 ^ n) = true) (k : Nat) :
    ∃ digits j, dropAtMost count readsBack (n + k) = ⟨digits, ((n + j : Nat) : Int) - 1074⟩ ∧
      readsBack (n + j) digits = true := by
  obtain ⟨n, rfl⟩ := Nat.exists_eq_succ_of_ne_zero (Nat.ne_of_gt hn)
  induction k with
  | zero =>
    obtain ⟨digits, hd⟩ := Option.ne_none_iff_exists'.mp (neighbour?_ne_none h)
    refine ⟨digits, 0, ?_, readsBack_of_neighbour? hd⟩
    simp only [Nat.add_zero, Nat.succ_eq_add_one, dropAtMost]
    rw [hd]
  | succ k ih =>
    rw [← Nat.add_assoc, dropAtMost]
    split
    · next digits hd => exact ⟨digits, k + 1, rfl, readsBack_of_neighbour? hd⟩
    · exact ih

theorem readsBack_iff {code digits : Nat} (j : Nat) :
    readsBack code (1074 + j) digits = true ↔ nearestCode (digits * 10 ^ j) 1 = code := by
  have hdigits (n : Nat) : digits * 10 ^ (n + j) = digits * 10 ^ j * 10 ^ n := by
    rw [Nat.pow_add, Nat.mul_assoc, Nat.mul_comm (10 ^ j)]
  rw [readsBack, beq_iff_eq, hdigits, nearestCode_mul_self _ (ten_pow_pos 1074)]

/-- The exact decimal of a whole number ends in 1074 zeros. -/
theorem exactCount_eq {code num : Nat} (h : units code = num * 2 ^ 1074) :
    exactCount code = num * 10 ^ 1074 := by
  rw [exactCount, h]
  generalize 1074 = n
  rw [Nat.mul_left_comm, ← Nat.mul_pow]

theorem le_digitsBound {num : Nat} (hnum : 0 < num) : 1074 ≤ digitsBound (num * 10 ^ 1074) := by
  have hten : 2 ^ 3567 ≤ 10 ^ 1074 := by decide +kernel
  have hpos := ten_pow_pos 1074
  unfold digitsBound
  generalize 10 ^ 1074 = ten at *
  have hlog : 3567 ≤ (num * ten).log2 := by
    rw [Nat.le_log2 (Nat.mul_ne_zero (Nat.ne_of_gt hnum) (Nat.ne_of_gt hpos))]
    exact Nat.le_trans hten (Nat.le_mul_of_pos_left ten hnum)
  omega

/-- The shortest decimal of a whole number above zero has no places behind a point. -/
theorem exists_shortest {code num : Nat} (hnum : 0 < num) (hfin : code < infinityCode)
    (h : units code = num * 2 ^ 1074) :
    ∃ digits j : Nat, shortest code = ⟨digits, j⟩ ∧ nearestCode (digits * 10 ^ j) 1 = code := by
  have hcount := exactCount_eq h
  have hwhole : readsBack code (1074 + 0) (exactCount code / 10 ^ (1074 + 0)) = true := by
    rw [readsBack_iff, hcount, Nat.add_zero, Nat.pow_zero, Nat.mul_one,
      Nat.mul_div_cancel _ (ten_pow_pos 1074), ← nearestCode_mul_self num (Nat.two_pow_pos 1074),
      ← h]
    exact nearestCode_units hfin
  obtain ⟨k, hk⟩ := Nat.exists_eq_add_of_le (le_digitsBound hnum)
  obtain ⟨digits, j, hdrop, hreads⟩ := exists_dropAtMost (Nat.succ_pos _) hwhole k
  refine ⟨digits, j, ?_, (readsBack_iff j).mp hreads⟩
  have hexponent : ((1074 + j : Nat) : Int) - 1074 = j := by omega
  rw [shortest, hcount, hk, ← hcount, ← hexponent]
  exact hdrop

end Decimal

theorem units_pos {code : Nat} (h : 0 < code) : 0 < units code := by
  unfold units
  split
  · exact h
  · exact Nat.mul_pos (by omega) (Nat.two_pow_pos _)

/-- A run of digits with zeros behind it denotes the decimal with that exponent. -/
theorem ofDigits_toDigits_append (digits j : Nat) :
    ofDigits (Nat.toDigits 10 digits ++ List.replicate j '0') = ofNat (digits * 10 ^ j) := by
  rw [ofDigits, Nat.ofDigitChars_append, Nat.ofDigitChars_ten_toDigits,
    Nat.ofDigitChars_replicate_zero, Nat.mul_comm]

theorem isDigit_of_mem_toDigits_append {digits j : Nat} {c : Char}
    (h : c ∈ Nat.toDigits 10 digits ++ List.replicate j '0') : c.isDigit = true := by
  rcases List.mem_append.mp h with h | h
  · exact Nat.isDigit_of_mem_toDigits (by decide) (by decide) h
  · rw [List.eq_of_mem_replicate h]
    rfl

/-- The plain style writes a whole number as digits of it, with zeros behind them. -/
theorem IsWhole.exists_write_eq {x : Number} (h : x.IsWhole) :
    ∃ digits j : Nat, x.write .plain = Nat.toDigits 10 digits ++ List.replicate j '0' ∧
      ofNat (digits * 10 ^ j) = x := by
  have hnan : x.isNaN = false := decide_eq_false (Nat.not_lt.mpr (Nat.le_of_lt h.finite))
  have hinf : x.isInfinite = false := beq_false_of_ne (Nat.ne_of_lt h.finite)
  have hwrite : x.write .plain = writeCode .plain x.code := by
    simp [write, hnan, hinf, h.notNegative]
  rw [hwrite]
  by_cases hzero : x.code = 0
  · refine ⟨0, 0, ?_, ?_⟩
    · rw [writeCode, if_pos hzero]
      rfl
    · rw [Nat.zero_mul, ofNat, nearestCode_zero, ← hzero, ofCode_code h.notNegative]
  · obtain ⟨num, hnum⟩ := h.whole
    have hpos : 0 < num := by
      refine Nat.pos_of_ne_zero ?_
      intro hnum'
      rw [hnum', Nat.mul_zero] at hnum
      exact Nat.ne_of_gt (units_pos (Nat.pos_of_ne_zero hzero)) hnum
    obtain ⟨digits, j, hshort, hcode⟩ :=
      Decimal.exists_shortest hpos h.finite (hnum.trans (Nat.mul_comm ..))
    refine ⟨digits, j, ?_, ?_⟩
    · simp [writeCode, hzero, hshort, Style.plain, Decimal.positional, Decimal.digitChars]
    · rw [ofNat, hcode, ofCode_code h.notNegative]

/-- A whole number is written as a run of digits that denotes it. -/
theorem IsWhole.ofDigits_write {x : Number} (h : x.IsWhole) : ofDigits (x.write .plain) = x := by
  obtain ⟨digits, j, hwrite, hx⟩ := h.exists_write_eq
  rw [hwrite, ofDigits_toDigits_append, hx]

theorem IsWhole.write_ne_nil {x : Number} (h : x.IsWhole) : x.write .plain ≠ [] := by
  obtain ⟨digits, j, hwrite, -⟩ := h.exists_write_eq
  rw [hwrite]
  exact List.append_ne_nil_of_left_ne_nil Nat.toDigits_ne_nil _

theorem IsWhole.isDigit_of_mem_write {x : Number} (h : x.IsWhole) {c : Char}
    (hc : c ∈ x.write .plain) : c.isDigit = true := by
  obtain ⟨digits, j, hwrite, -⟩ := h.exists_write_eq
  rw [hwrite] at hc
  exact isDigit_of_mem_toDigits_append hc

end Egg.Number
