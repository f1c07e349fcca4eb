import Mathlib

namespace Buzz.FinsetSum
set_option autoImplicit true

def union [DecidableEq α] (l : List (Finset α)) : Finset α :=
  l.foldr (· ∪ ·) ∅

def sumCard (l : List (Finset α)) : Nat :=
  (l.map Finset.card).sum

theorem mem_union [DecidableEq α] {l : List (Finset α)} : a ∈ union l ↔ ∃ s ∈ l, a ∈ s := by
  induction l with
  | nil => simp [union]
  | cons s l ih =>
    have hcons : union (s :: l) = s ∪ union l := rfl
    rw [hcons, Finset.mem_union, ih]
    simp

theorem card_union_le_sumCard [DecidableEq α] (l : List (Finset α)) :
    (union l).card ≤ sumCard l := by
  induction l with
  | nil => exact Nat.le_refl 0
  | cons s l ih =>
    have hle := Finset.card_union_le s (union l)
    have hsum : sumCard (s :: l) = s.card + sumCard l := by simp [sumCard]
    have hcons : union (s :: l) = s ∪ union l := rfl
    rw [hsum, hcons]
    omega

/-- Sizes add up exactly for sets that are disjoint two by two. -/
theorem sumCard_eq_card_union_iff [DecidableEq α] (l : List (Finset α)) :
    sumCard l = (union l).card ↔ l.Pairwise Disjoint := by
  induction l with
  | nil => simp [sumCard, union]
  | cons s l ih =>
    have hsum : sumCard (s :: l) = s.card + sumCard l := by simp [sumCard]
    have hcons : union (s :: l) = s ∪ union l := rfl
    have hle := card_union_le_sumCard l
    have hinter := Finset.card_union_add_card_inter s (union l)
    have hdisj : Disjoint s (union l) ↔ ∀ t ∈ l, Disjoint s t := by
      simp only [Finset.disjoint_left, mem_union]
      exact ⟨fun h t ht a ha hat => h ha ⟨t, ht, hat⟩, fun h a ha ⟨t, ht, hat⟩ => h t ht ha hat⟩
    rw [List.pairwise_cons, ← ih, ← hdisj, hsum, hcons, Finset.disjoint_iff_inter_eq_empty,
      ← Finset.card_eq_zero]
    omega

end Buzz.FinsetSum
