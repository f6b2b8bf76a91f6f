import Mathlib.Data.BitVec
import Mathlib.Tactic.Common

/-!
# Words aligned to a power of two

Alignment of a word is the clearness of its low bits, which the bitwise
operators keep; multiples and rounding follow from it.
-/

set_option autoImplicit false

namespace DeviceModel.PowerOfTwo

variable {w k : Nat} {a b : BitVec w}

def LowZero (k : Nat) (a : BitVec w) : Prop := ∀ i, i < k → a.getLsbD i = false

theorem lowZero_iff_mod : LowZero k a ↔ a.toNat % 2 ^ k = 0 := by
  constructor
  · intro h
    refine Nat.eq_of_testBit_eq fun i => ?_
    by_cases hi : i < k
    · simpa [Nat.testBit_mod_two_pow, hi, BitVec.testBit_toNat] using h i hi
    · simp [Nat.testBit_mod_two_pow, hi]
  · intro h i hi
    have hBit := congrArg (Nat.testBit · i) h
    simpa [Nat.testBit_mod_two_pow, hi, BitVec.testBit_toNat] using hBit

theorem LowZero.zero : LowZero k (0 : BitVec w) := by
  intro i hi
  simp

theorem LowZero.or (ha : LowZero k a) (hb : LowZero k b) : LowZero k (a ||| b) := by
  intro i hi
  simp [ha i hi, hb i hi]

theorem LowZero.and (ha : LowZero k a) (b : BitVec w) : LowZero k (a &&& b) := by
  intro i hi
  simp [ha i hi]

theorem toNat_sub_one (h : 0 < a.toNat) : (a - 1).toNat = a.toNat - 1 := by
  have hLt := a.isLt
  have hOne : (1 : BitVec w).toNat = 1 := by
    rw [BitVec.ofNat_eq_ofNat, BitVec.toNat_ofNat]
    exact Nat.mod_eq_of_lt (Nat.lt_of_le_of_lt h hLt)
  have hSum : 2 ^ w - 1 + a.toNat = a.toNat - 1 + 2 ^ w := by omega
  rw [BitVec.toNat_sub, hOne, hSum, Nat.add_mod_right]
  exact Nat.mod_eq_of_lt (by omega)

theorem toNat_twoPow_sub_one (hk : k < w) : (BitVec.twoPow w k - 1).toNat = 2 ^ k - 1 := by
  have hNat := BitVec.toNat_twoPow_of_lt hk
  rw [toNat_sub_one (hNat ▸ Nat.two_pow_pos k), hNat]

theorem getLsbD_twoPow_sub_one (hk : k < w) (i : Nat) :
    (BitVec.twoPow w k - 1).getLsbD i = decide (i < k) := by
  rw [← BitVec.testBit_toNat, toNat_twoPow_sub_one hk, Nat.testBit_two_pow_sub_one]

theorem getLsbD_and_mask (hk : k < w) (a : BitVec w) (i : Nat) :
    (a &&& ~~~(BitVec.twoPow w k - 1)).getLsbD i = (a.getLsbD i && decide (k ≤ i)) := by
  simp only [BitVec.getLsbD_and, BitVec.getLsbD_not, getLsbD_twoPow_sub_one hk]
  by_cases hi : i < w
  · by_cases hik : i < k
    · simp [hi, hik, Nat.not_le_of_lt hik]
    · simp [hi, hik, Nat.le_of_not_lt hik]
  · simp [BitVec.getLsbD_of_ge a i (by omega)]

theorem LowZero.mask (hk : k < w) (a : BitVec w) :
    LowZero k (a &&& ~~~(BitVec.twoPow w k - 1)) := by
  intro i hi
  rw [getLsbD_and_mask hk]
  simp [hi]

theorem toNat_and_mask (hk : k < w) (a : BitVec w) :
    (a &&& ~~~(BitVec.twoPow w k - 1)).toNat = a.toNat / 2 ^ k * 2 ^ k := by
  refine Nat.eq_of_testBit_eq fun i => ?_
  rw [BitVec.testBit_toNat, getLsbD_and_mask hk, Nat.testBit_mul_two_pow, Nat.testBit_div_two_pow]
  by_cases hi : k ≤ i
  · simp [hi, Nat.sub_add_cancel hi, BitVec.testBit_toNat]
  · simp [hi]

/-- Rounding up reaches the next multiple, if there is room for it. -/
theorem toNat_roundUp (hk : k < w) (ha : a.toNat + 2 ^ k ≤ 2 ^ w) :
    ((a + (BitVec.twoPow w k - 1)) &&& ~~~(BitVec.twoPow w k - 1)).toNat =
      (a.toNat + (2 ^ k - 1)) / 2 ^ k * 2 ^ k := by
  have hPos : 0 < 2 ^ k := Nat.two_pow_pos k
  rw [toNat_and_mask hk, BitVec.toNat_add, toNat_twoPow_sub_one hk, Nat.mod_eq_of_lt (by omega)]

/-- An aligned block of the word's address space does not run past its end. -/
theorem LowZero.add_le (hk : k ≤ w) (ha : LowZero k a) : a.toNat + 2 ^ k ≤ 2 ^ w := by
  obtain ⟨q, hq⟩ := Nat.dvd_of_mod_eq_zero (lowZero_iff_mod.mp ha)
  have hSplit : 2 ^ w = 2 ^ k * 2 ^ (w - k) := by rw [← Nat.pow_add, Nat.add_sub_cancel' hk]
  have hLt : 2 ^ k * q < 2 ^ k * 2 ^ (w - k) := by
    rw [← hSplit, ← hq]
    exact a.isLt
  have hSucc : q + 1 ≤ 2 ^ (w - k) := Nat.lt_of_mul_lt_mul_left hLt
  calc a.toNat + 2 ^ k = 2 ^ k * (q + 1) := by rw [hq, Nat.mul_succ]
    _ ≤ 2 ^ k * 2 ^ (w - k) := Nat.mul_le_mul_left _ hSucc
    _ = 2 ^ w := hSplit.symm

/-- Testing a word against a one-bit flag reads that bit. -/
theorem and_twoPow_ne_zero_iff (hk : k < w) : a &&& BitVec.twoPow w k ≠ 0 ↔ a.getLsbD k = true := by
  have hNe : BitVec.twoPow w k ≠ 0 := by
    intro h
    have hBit := congrArg (BitVec.getLsbD · k) h
    simp [hk] at hBit
  rw [BitVec.and_twoPow]
  cases hBit : a.getLsbD k
  · simp
  · simpa using hNe

theorem exists_twoPow_iff : a ≠ 0 ∧ a &&& (a - 1) = 0 ↔ ∃ k, k < w ∧ a = BitVec.twoPow w k := by
  constructor
  · rintro ⟨hNe, hAnd⟩
    have hPos : 0 < a.toNat := by
      rcases Nat.eq_zero_or_pos a.toNat with h | h
      · exact absurd (BitVec.eq_of_toNat_eq (by simpa using h)) hNe
      · exact h
    have hZero : a.toNat &&& (a.toNat - 1) = 0 := by
      rw [← toNat_sub_one hPos, ← BitVec.toNat_and, hAnd]
      simp
    obtain ⟨k, hk⟩ := (Nat.and_sub_one_eq_zero_iff_isPowerOfTwo (Nat.pos_iff_ne_zero.mp hPos)).mp hZero
    have hkw : k < w := (Nat.pow_lt_pow_iff_right (by decide)).mp (hk ▸ a.isLt)
    exact ⟨k, hkw, BitVec.eq_of_toNat_eq (by rw [BitVec.toNat_twoPow_of_lt hkw, hk])⟩
  · rintro ⟨k, hk, rfl⟩
    constructor
    · intro h
      have hNat := congrArg BitVec.toNat h
      rw [BitVec.toNat_twoPow_of_lt hk] at hNat
      have := Nat.two_pow_pos k
      simp at hNat
    · refine BitVec.eq_of_getLsbD_eq fun i hi => ?_
      rw [BitVec.getLsbD_and, BitVec.getLsbD_twoPow, getLsbD_twoPow_sub_one hk]
      by_cases hki : k = i
      · simp [hki]
      · simp [hki]

end DeviceModel.PowerOfTwo
