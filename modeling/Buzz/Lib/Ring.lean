import Mathlib

namespace Buzz.Ring
set_option autoImplicit true

variable {α : Type} [DecidableEq α]

/-- The first of `k` places from `c` on that is not taken. -/
def search (next : α → α) (taken : Finset α) : Nat → α → Option α
  | 0, _ => none
  | k + 1, c => if c ∈ taken then search next taken k (next c) else some c

variable {next : α → α} {taken : Finset α}

theorem mem_of_search_eq_none (h : search next taken k c = none) (hi : i < k) :
    next^[i] c ∈ taken := by
  induction k generalizing c i with
  | zero => exact absurd hi (Nat.not_lt_zero i)
  | succ k ih =>
    rw [search] at h
    split at h
    · rename_i hc
      cases i with
      | zero => exact hc
      | succ i =>
        rw [Function.iterate_succ_apply]
        exact ih h (Nat.lt_of_succ_lt_succ hi)
    · cases h

theorem not_mem_of_search_eq_some (h : search next taken k c = some a) : a ∉ taken := by
  induction k generalizing c with
  | zero => cases h
  | succ k ih =>
    rw [search] at h
    split at h
    · exact ih h
    · rename_i hc
      cases h
      exact hc

/-- Whatever holds of a place and of the next one holds of the place that is found. -/
theorem search_invariant {P : α → Prop} (hnext : ∀ a, P a → P (next a)) (hc : P c)
    (h : search next taken k c = some a) : P a := by
  induction k generalizing c with
  | zero => cases h
  | succ k ih =>
    rw [search] at h
    split at h
    · exact ih (hnext c hc) h
    · cases h
      exact hc

/-- Fewer taken places than different ones are searched leave one to be found. -/
theorem search_ne_none (hinj : Set.InjOn (fun i => next^[i] c) (Finset.range k))
    (hcard : taken.card < k) : search next taken k c ≠ none := by
  intro h
  have hmaps : Set.MapsTo (fun i => next^[i] c) (Finset.range k) taken := by
    intro i hi
    exact mem_of_search_eq_none h (Finset.mem_range.mp hi)
  have hle := Finset.card_le_card_of_injOn _ hmaps hinj
  rw [Finset.card_range] at hle
  exact absurd hcard (Nat.not_lt.mpr hle)

end Buzz.Ring
