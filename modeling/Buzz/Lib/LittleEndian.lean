import Mathlib

namespace Buzz
set_option autoImplicit true

/-- The low `w` bytes of a number, the lowest first. -/
def leBytes : ℕ → ℕ → List UInt8
  | 0, _ => []
  | w + 1, n => UInt8.ofNat n :: leBytes w (n / 256)

@[simp]
theorem length_leBytes (w n : ℕ) : (leBytes w n).length = w := by
  induction w generalizing n with
  | zero => rfl
  | succ w ih => rw [leBytes, List.length_cons, ih]

theorem leBytes_add (v w n : ℕ) : leBytes (v + w) n = leBytes v n ++ leBytes w (n / 256 ^ v) := by
  induction v generalizing n with
  | zero => simp only [Nat.zero_add, pow_zero, Nat.div_one, leBytes, List.nil_append]
  | succ v ih =>
    rw [Nat.succ_add, leBytes, leBytes, ih, List.cons_append, Nat.div_div_eq_div_mul, pow_succ']

/-- A number that fits is the only one with its bytes. -/
theorem leBytes_injective {n m : ℕ} (hn : n < 256 ^ w) (hm : m < 256 ^ w)
    (h : leBytes w n = leBytes w m) : n = m := by
  induction w generalizing n m with
  | zero =>
    rw [pow_zero, Nat.lt_one_iff] at hn hm
    rw [hn, hm]
  | succ w ih =>
    rw [pow_succ] at hn hm
    rw [leBytes, leBytes, List.cons.injEq] at h
    have hlow : n % 256 = m % 256 := by
      have hval := congrArg UInt8.toNat h.1
      rwa [UInt8.toNat_ofNat', UInt8.toNat_ofNat'] at hval
    have hhigh := ih (Nat.div_lt_of_lt_mul (by omega)) (Nat.div_lt_of_lt_mul (by omega)) h.2
    omega

/-- Two byte strings that start with a number each start with the same one if they are equal. -/
theorem leBytes_cut {n m : ℕ} (hn : n < 256 ^ w) (hm : m < 256 ^ w)
    (h : leBytes w n ++ x = leBytes w m ++ y) : n = m ∧ x = y := by
  obtain ⟨hbytes, hrest⟩ := List.append_inj h (by rw [length_leBytes, length_leBytes])
  exact ⟨leBytes_injective hn hm hbytes, hrest⟩

end Buzz
