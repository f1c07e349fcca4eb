import Mathlib

namespace Buzz
set_option autoImplicit true

def maxU64 : ℕ := 2 ^ 64 - 1

/-- `a.saturating_add(b)`. -/
def satAdd (a b : ℕ) : ℕ := min (a + b) maxU64

/-- `a.saturating_mul(b)`. -/
def satMul (a b : ℕ) : ℕ := min (a * b) maxU64

theorem satAdd_le (a b : ℕ) : satAdd a b ≤ a + b := min_le_left _ _

theorem satAdd_le_max (a b : ℕ) : satAdd a b ≤ maxU64 := min_le_right _ _

theorem satMul_le_max (a b : ℕ) : satMul a b ≤ maxU64 := min_le_right _ _

theorem satAdd_mono (ha : a ≤ a') (hb : b ≤ b') : satAdd a b ≤ satAdd a' b' :=
  min_le_min_right _ (Nat.add_le_add ha hb)

theorem satMul_mono (ha : a ≤ a') (hb : b ≤ b') : satMul a b ≤ satMul a' b' :=
  min_le_min_right _ (Nat.mul_le_mul ha hb)

theorem le_satAdd_left (h : a ≤ maxU64) (b : ℕ) : a ≤ satAdd a b :=
  le_min (Nat.le_add_right _ _) h

theorem le_satAdd_right (a : ℕ) (h : b ≤ maxU64) : b ≤ satAdd a b :=
  le_min (Nat.le_add_left _ _) h

theorem le_satMul_left (h : a ≤ maxU64) (hb : 0 < b) : a ≤ satMul a b :=
  le_min (Nat.le_mul_of_pos_right a hb) h

end Buzz
