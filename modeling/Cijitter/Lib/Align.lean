import Mathlib

/-! Rounding to a power-of-two alignment `a` the way machine code does it,
with the mask `a - 1`: `x &^ (a - 1)` rounds `x` down to a multiple of `a`,
and `(x + (a - 1)) &^ (a - 1)` rounds it up as long as the sum does not wrap.
On 64-bit words the mask operations are division and multiplication by `a`;
the rounded values are then the greatest multiple at or below `x` and the
least at or above it. -/

set_option autoImplicit false

namespace Align

theorem and_high_bits {w k x : Nat} (hk : k ≤ w) (hx : x < 2 ^ w) :
    x &&& (2 ^ w - 1 - (2 ^ k - 1)) = x / 2 ^ k * 2 ^ k := by
  have powers : 2 ^ k ≤ 2 ^ w := Nat.pow_le_pow_right (by decide) hk
  have high : 2 ^ w - 1 - (2 ^ k - 1) = (2 ^ (w - k) - 1) <<< k := by
    rw [Nat.shiftLeft_eq, Nat.sub_mul, ← Nat.pow_add, Nat.sub_add_cancel hk, Nat.one_mul]
    have := Nat.one_le_two_pow (n := k)
    omega
  have low : x / 2 ^ k * 2 ^ k = (x >>> k) <<< k := by
    rw [Nat.shiftLeft_eq, Nat.shiftRight_eq_div_pow]
  rw [high, low]
  apply Nat.eq_of_testBit_eq
  intro i
  rw [Nat.testBit_and, Nat.testBit_shiftLeft, Nat.testBit_shiftLeft, Nat.testBit_two_pow_sub_one,
    Nat.testBit_shiftRight]
  by_cases above : k ≤ i
  · rw [show k + (i - k) = i by omega]
    by_cases inside : i < w
    · simp [above, show i - k < w - k by omega]
    · have beyond : x.testBit i = false :=
        Nat.testBit_lt_two_pow (Nat.lt_of_lt_of_le hx (Nat.pow_le_pow_right (by decide) (by omega)))
      simp [beyond]
  · simp [above]

theorem sub_gt_iff (a b : UInt64) : a - b > a ↔ a.toNat < b.toNat := by
  show a < a - b ↔ _
  rw [UInt64.lt_iff_toNat_lt, UInt64.toNat_sub]
  have := a.toNat_lt
  have := b.toNat_lt
  constructor <;> intro <;> omega

theorem add_lt_self_iff (a b : UInt64) : a + b < a ↔ 2 ^ 64 ≤ a.toNat + b.toNat := by
  rw [UInt64.lt_iff_toNat_lt, UInt64.toNat_add]
  have := a.toNat_lt
  have := b.toNat_lt
  constructor <;> intro <;> omega

section Word

variable {k : Nat} (hk : k < 64) {a : UInt64} (power : a.toNat = 2 ^ k)
include hk power

theorem toNat_and_not_mask (x : UInt64) : (x &&& ~~~(a - 1)).toNat = x.toNat / 2 ^ k * 2 ^ k := by
  have positive : 1 ≤ a := by
    rw [UInt64.le_iff_toNat_le, power, UInt64.toNat_one]
    exact Nat.one_le_two_pow
  rw [UInt64.toNat_and, UInt64.toNat_not, UInt64.toNat_sub_of_le _ _ positive, UInt64.toNat_one, power]
  exact and_high_bits (Nat.le_of_lt hk) x.toNat_lt

theorem toNat_round_up (x : UInt64) (room : x.toNat + (2 ^ k - 1) < 2 ^ 64) :
    ((x + (a - 1)) &&& ~~~(a - 1)).toNat = (x.toNat + (2 ^ k - 1)) / 2 ^ k * 2 ^ k := by
  have positive : 1 ≤ a := by
    rw [UInt64.le_iff_toNat_le, power, UInt64.toNat_one]
    exact Nat.one_le_two_pow
  rw [toNat_and_not_mask hk power, UInt64.toNat_add, UInt64.toNat_sub_of_le _ _ positive, UInt64.toNat_one,
    power, Nat.mod_eq_of_lt room]

end Word

section Rounding

variable {a : Nat} (positive : 0 < a)
include positive

theorem le_round_down {x y : Nat} (aligned : a ∣ y) (below : y ≤ x) : y ≤ x / a * a := by
  obtain ⟨m, rfl⟩ := aligned
  rw [Nat.mul_comm]
  exact Nat.mul_le_mul_right a ((Nat.le_div_iff_mul_le positive).mpr (by rw [Nat.mul_comm]; exact below))

theorem le_round_up (x : Nat) : x ≤ (x + (a - 1)) / a * a := by
  have := Nat.lt_div_mul_add (a := x + (a - 1)) positive
  omega

theorem round_up_le {x y : Nat} (aligned : a ∣ y) (above : x ≤ y) : (x + (a - 1)) / a * a ≤ y := by
  obtain ⟨m, rfl⟩ := aligned
  have bound : (x + (a - 1)) / a < m + 1 := by
    rw [Nat.div_lt_iff_lt_mul positive]
    rw [Nat.add_mul, Nat.one_mul]
    rw [Nat.mul_comm] at above
    omega
  rw [Nat.mul_comm a m]
  exact Nat.mul_le_mul_right a (by omega)

end Rounding

end Align
