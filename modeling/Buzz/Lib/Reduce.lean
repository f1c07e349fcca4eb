import Mathlib

namespace Buzz
set_option autoImplicit true

variable {α κ : Type} [LinearOrder κ] {key : α → κ} {l l' : List α} {m : α}

/-- The elements are combined from the first one on; nothing comes of an empty list. -/
def reduce (f : α → α → α) : List α → Option α
  | [] => none
  | a :: l => some (l.foldl f a)

/-- To keep the better of two elements is to look for the greatest key. -/
theorem reduce_eq_argmax {f : α → α → α} (hf : ∀ a b, f a b = if key a < key b then b else a)
    (l : List α) : reduce f l = l.argmax key := by
  have hfold : ∀ (l : List α) (a : α),
      l.foldl (List.argAux fun b c => key c < key b) (some a) = some (l.foldl f a) := by
    intro l
    induction l with
    | nil => exact fun a => rfl
    | cons b l ih =>
      intro a
      rw [List.foldl_cons, List.foldl_cons, ← ih, hf]
      congr 1
      exact (apply_ite some (key a < key b) b a).symm
  cases l with
  | nil => rfl
  | cons a l => exact (hfold l a).symm

theorem exists_argmax (hmem : m ∈ l) : ∃ n, l.argmax key = some n := by
  cases h : l.argmax key with
  | none =>
    rw [List.argmax_eq_none.mp h] at hmem
    exact absurd hmem List.not_mem_nil
  | some n => exact ⟨n, rfl⟩

/-- An element whose key is above all the other keys is the one found. -/
theorem argmax_of_lt (hmem : m ∈ l) (hlt : ∀ a ∈ l, a ≠ m → key a < key m) :
    l.argmax key = some m := by
  obtain ⟨n, hn⟩ := @exists_argmax α κ _ key l m hmem
  have hle := List.le_of_mem_argmax hmem hn
  have hnm : n = m := by
    by_contra hne
    exact hle.not_gt (hlt n (List.argmax_mem hn) hne)
  rw [hn, hnm]

/-- The greatest key depends on the members only, not on their order. -/
theorem argmax_congr (h : ∀ a, a ∈ l ↔ a ∈ l') :
    (l.argmax key).map key = (l'.argmax key).map key := by
  cases hl : l.argmax key with
  | none =>
    have hnil : l' = [] := by
      apply List.eq_nil_iff_forall_not_mem.mpr
      intro a ha
      rw [← h, List.argmax_eq_none.mp hl] at ha
      exact List.not_mem_nil ha
    rw [hnil]
    rfl
  | some m =>
    have hm := List.argmax_mem hl
    obtain ⟨n, hn⟩ := @exists_argmax α κ _ key l' m ((h m).mp hm)
    rw [hn, Option.map_some, Option.map_some, Option.some.injEq]
    apply le_antisymm
    · exact List.le_of_mem_argmax ((h m).mp hm) hn
    · exact List.le_of_mem_argmax ((h n).mpr (List.argmax_mem hn)) hl

end Buzz
