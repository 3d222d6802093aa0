import Mathlib.Data.BitVec

/-!
Masking a word with the complement of `2 ^ k - 1` rounds it down to a multiple of `2 ^ k`;
masking it with `2 ^ k - 1` leaves the remainder.
-/

namespace ByteLayout

theorem toNat_and_lowMask {width : Nat} (word mask : BitVec width) (order : Nat)
    (isMask : mask.toNat = 2 ^ order - 1) : (word &&& mask).toNat = word.toNat % 2 ^ order := by
  rw [BitVec.toNat_and, isMask, Nat.and_two_pow_sub_one_eq_mod]

theorem getLsbD_lowMask {width : Nat} (mask : BitVec width) (order index : Nat)
    (isMask : mask.toNat = 2 ^ order - 1) : mask.getLsbD index = decide (index < order) := by
  rw [← BitVec.testBit_toNat, isMask, Nat.testBit_two_pow_sub_one]

/-- The complement is taken at the width of the mask, then extended with zeros. -/
theorem toNat_and_highMask {width maskWidth : Nat} (word : BitVec width) (mask : BitVec maskWidth)
    (order : Nat) (narrow : maskWidth ≤ width) (isMask : mask.toNat = 2 ^ order - 1) :
    (word &&& (~~~mask).setWidth width).toNat =
      word.toNat % 2 ^ maskWidth / 2 ^ order * 2 ^ order := by
  apply Nat.eq_of_testBit_eq
  intro index
  rw [BitVec.testBit_toNat, BitVec.getLsbD_and, BitVec.getLsbD_setWidth, BitVec.getLsbD_not,
    getLsbD_lowMask mask order index isMask, ← Nat.shiftRight_eq_div_pow, ← Nat.shiftLeft_eq,
    Nat.testBit_shiftLeft, Nat.testBit_shiftRight, Nat.testBit_mod_two_pow, BitVec.testBit_toNat]
  by_cases high : order ≤ index
  · have back : order + (index - order) = index := by omega
    by_cases inMask : index < maskWidth
    · have inWord : index < width := by omega
      simp [high, back, inMask, inWord, Nat.not_lt.mpr high]
    · simp [back, inMask]
  · simp [high, Nat.lt_of_not_le high]

theorem toNat_and_not_lowMask {width : Nat} (word mask : BitVec width) (order : Nat)
    (isMask : mask.toNat = 2 ^ order - 1) :
    (word &&& ~~~mask).toNat = word.toNat / 2 ^ order * 2 ^ order := by
  have rounded := toNat_and_highMask word mask order (Nat.le_refl _) isMask
  rwa [BitVec.setWidth_eq, Nat.mod_eq_of_lt word.isLt] at rounded

theorem setWidth_ne_zero {width narrow : Nat} {word : BitVec width} (used : 0 < word.toNat)
    (low : word.toNat < 2 ^ narrow) : word.setWidth narrow ≠ 0 := by
  intro zero
  have same := congrArg BitVec.toNat zero
  rw [BitVec.toNat_setWidth, Nat.mod_eq_of_lt low, BitVec.ofNat_eq_ofNat, BitVec.toNat_ofNat,
    Nat.zero_mod] at same
  exact used.ne same.symm

end ByteLayout
