import Mathlib.Data.Nat.Bitwise

namespace KodyCelld.Lib

/-!
# The 32 bits of JavaScript's bit operators

* `orShifted` — `value |= n << shift`;
* `toNat_orShifted`, `toInt_orShifted` — it adds, where the bits are free and there are enough.
-/

/-- `value |= n << shift`: only the low five bits of a shift count. -/
def orShifted (value : BitVec 32) (n shift : ℕ) : BitVec 32 :=
  value ||| (BitVec.ofNat 32 n <<< (shift % 32))

/-- **Bits above all that are set** are added. -/
theorem toNat_orShifted {value : BitVec 32} {n shift : ℕ} (hvalue : value.toNat < 2 ^ shift)
    (hn : n * 2 ^ shift < 2 ^ 32) :
    (orShifted value n shift).toNat = value.toNat + n * 2 ^ shift := by
  by_cases hshift : shift < 32
  · have hsmall : n < 2 ^ 32 := lt_of_le_of_lt (Nat.le_mul_of_pos_right n (Nat.two_pow_pos shift)) hn
    unfold orShifted
    rw [Nat.mod_eq_of_lt hshift, BitVec.toNat_or, BitVec.toNat_shiftLeft, BitVec.toNat_ofNat,
      Nat.mod_eq_of_lt hsmall, Nat.shiftLeft_eq, Nat.mod_eq_of_lt hn, Nat.or_comm, Nat.mul_comm n,
      ← Nat.two_pow_add_eq_or_of_lt hvalue]
    omega
  · -- the shift starts again at 0, but there is nothing to shift
    have hzero : n = 0 := by
      by_contra hne
      have hpow : 2 ^ 32 ≤ 2 ^ shift := Nat.pow_le_pow_right (by decide) (by omega)
      have hle : 2 ^ shift ≤ n * 2 ^ shift := Nat.le_mul_of_pos_left _ (Nat.pos_of_ne_zero hne)
      omega
    subst hzero
    simp [orShifted]

/-- A word is negative from its highest bit on. -/
theorem toInt_of_toNat_lt {value : BitVec 32} (h : value.toNat < 2 ^ 31) :
    value.toInt = value.toNat := by
  rw [BitVec.toInt_eq_toNat_cond, if_pos (by omega)]

theorem toInt_lt (value : BitVec 32) : value.toInt < 2 ^ 31 := by
  have := BitVec.toInt_lt (x := value)
  omega

end KodyCelld.Lib
