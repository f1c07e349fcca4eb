import Mathlib

namespace Buzz
set_option autoImplicit true

variable {α : Type}

def totalSize (size : α → Nat) (as : List α) : Nat :=
  (as.map size).sum

/-- Take each item that still fits. -/
def fill (size : α → Nat) (budget : Nat) : Nat → List α → List α
  | _, [] => []
  | used, a :: as =>
    if used + size a ≤ budget then a :: fill size budget (used + size a) as
    else fill size budget used as

variable {size : α → Nat} {budget used : Nat} {as kept rest : List α} {a : α}

@[simp]
theorem totalSize_nil : totalSize size [] = 0 := rfl

theorem totalSize_cons (a : α) (as : List α) :
    totalSize size (a :: as) = size a + totalSize size as := by
  rw [totalSize, List.map_cons, List.sum_cons]
  rfl

theorem totalSize_append (as bs : List α) :
    totalSize size (as ++ bs) = totalSize size as + totalSize size bs := by
  rw [totalSize, List.map_append, List.sum_append]
  rfl

/-- Items that fit together are all taken. -/
theorem fill_append (h : used + totalSize size kept ≤ budget) (rest : List α) :
    fill size budget used (kept ++ rest) =
      kept ++ fill size budget (used + totalSize size kept) rest := by
  induction kept generalizing used with
  | nil => rfl
  | cons a kept ih =>
    rw [totalSize_cons, ← Nat.add_assoc] at h
    have hfits : used + size a ≤ budget := (Nat.le_add_right _ _).trans h
    rw [List.cons_append, fill, if_pos hfits, ih h, totalSize_cons, Nat.add_assoc]
    rfl

/-- The items that fit together, up to the first that does not. -/
theorem exists_kept (h : used ≤ budget) (as : List α) : ∃ kept rest, as = kept ++ rest ∧
    used + totalSize size kept ≤ budget ∧
    ∀ a ∈ rest.head?, budget < used + totalSize size kept + size a := by
  induction as generalizing used with
  | nil => exact ⟨[], [], rfl, h, nofun⟩
  | cons a as ih =>
    by_cases hfits : used + size a ≤ budget
    · obtain ⟨kept, rest, rfl, hkept, hnext⟩ := ih hfits
      have htotal : used + totalSize size (a :: kept) = used + size a + totalSize size kept := by
        rw [totalSize_cons, Nat.add_assoc]
      refine ⟨a :: kept, rest, rfl, ?_, ?_⟩
      · rw [htotal]
        exact hkept
      · rw [htotal]
        exact hnext
    · refine ⟨[], a :: as, rfl, h, ?_⟩
      intro b hb
      cases hb
      exact Nat.not_le.mp hfits

theorem mem_of_mem_fill (h : a ∈ fill size budget used as) : a ∈ as := by
  induction as generalizing used with
  | nil => cases h
  | cons b as ih =>
    rw [fill] at h
    split at h
    · rcases List.mem_cons.mp h with rfl | h
      · exact List.mem_cons_self
      · exact List.mem_cons_of_mem _ (ih h)
    · exact List.mem_cons_of_mem _ (ih h)

theorem fits_of_mem_fill (h : a ∈ fill size budget used as) : used + size a ≤ budget := by
  induction as generalizing used with
  | nil => cases h
  | cons b as ih =>
    rw [fill] at h
    split at h
    · rename_i hfits
      rcases List.mem_cons.mp h with rfl | h
      · exact hfits
      · have hmore := ih h
        omega
    · exact ih h

/-- Nothing is taken just when there is nothing that fits. -/
theorem fill_eq_nil_iff :
    fill size budget used as = [] ↔ ∀ a ∈ as, budget < used + size a := by
  induction as generalizing used with
  | nil => exact ⟨fun _ => nofun, fun _ => rfl⟩
  | cons a as ih =>
    rw [fill, List.forall_mem_cons]
    split
    · rename_i hfits
      exact ⟨fun h => absurd h (List.cons_ne_nil _ _), fun h => absurd hfits (Nat.not_le.mpr h.1)⟩
    · rename_i hlarge
      rw [ih]
      exact ⟨fun h => ⟨Nat.not_le.mp hlarge, h⟩, fun h => h.2⟩

theorem length_fill_le : (fill size budget used as).length ≤ as.length := by
  induction as generalizing used with
  | nil => exact le_rfl
  | cons a as ih =>
    rw [fill]
    split
    · exact Nat.succ_le_succ ih
    · exact ih.trans (Nat.le_succ _)

end Buzz
