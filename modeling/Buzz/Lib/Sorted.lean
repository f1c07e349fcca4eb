import Mathlib

namespace Buzz
set_option autoImplicit true

section SortDedup

variable [LinearOrder α]

/-- `sort` and then `dedup` on a vector. -/
def sortDedup (l : List α) : List α :=
  (l.insertionSort (· ≤ ·)).destutter (· ≠ ·)

theorem mem_destutter'_ne (l : List α) (a b : α) :
    b ∈ l.destutter' (· ≠ ·) a ↔ b = a ∨ b ∈ l := by
  induction l generalizing a with
  | nil => simp
  | cons c l ih =>
    by_cases hac : a = c
    · subst hac
      rw [List.destutter'_cons_neg _ (not_not.mpr rfl), ih]
      simp
    · rw [List.destutter'_cons_pos _ hac, List.mem_cons, ih, List.mem_cons]

theorem mem_destutter_ne (l : List α) (b : α) : b ∈ l.destutter (· ≠ ·) ↔ b ∈ l := by
  cases l with
  | nil => simp
  | cons a l => rw [List.destutter_cons', mem_destutter'_ne, List.mem_cons]

@[simp]
theorem mem_sortDedup {l : List α} : a ∈ sortDedup l ↔ a ∈ l := by
  rw [sortDedup, mem_destutter_ne, List.mem_insertionSort]

theorem sortDedup_pairwise (l : List α) : (sortDedup l).Pairwise (· < ·) := by
  have hle : (sortDedup l).Pairwise (· ≤ ·) :=
    (List.pairwise_insertionSort (· ≤ ·) l).sublist (List.destutter_sublist _ _)
  have hne : (sortDedup l).IsChain (· ≠ ·) := List.isChain_destutter _ _
  rw [← List.isChain_iff_pairwise] at hle ⊢
  rw [List.isChain_iff_getElem] at hle hne ⊢
  intro i hi
  exact lt_of_le_of_ne (hle i hi) (hne i hi)

theorem sortDedup_eq_self {l : List α} (h : l.Pairwise (· < ·)) : sortDedup l = l := by
  have hsort : l.insertionSort (· ≤ ·) = l := (h.imp le_of_lt).insertionSort_eq
  rw [sortDedup, hsort]
  exact List.destutter_of_isChain _ _ (h.imp ne_of_lt).isChain

theorem length_sortDedup (l : List α) : (sortDedup l).length = l.dedup.length := by
  apply List.Perm.length_eq
  rw [List.perm_ext_iff_of_nodup ((sortDedup_pairwise l).imp ne_of_lt) (List.nodup_dedup l)]
  simp

end SortDedup

section TreeMap

variable [Ord κ] [Std.TransOrd κ] [Std.LawfulEqOrd κ]

/-- Rebuilding a map from its entries gives the map. -/
theorem treeMap_ofList_toList (m : Std.ExtTreeMap κ β) :
    Std.ExtTreeMap.ofList m.toList compare = m := by
  apply Std.ExtTreeMap.ext_getElem?
  intro k
  cases h : m[k]? with
  | none =>
    classical
    have hno : ∀ v, (k, v) ∉ m.toList := by
      intro v hv
      rw [Std.ExtTreeMap.mem_toList_iff_getElem?_eq_some, h] at hv
      cases hv
    apply Std.ExtTreeMap.getElem?_ofList_of_contains_eq_false
    rw [← Bool.not_eq_true, List.contains_iff_mem]
    intro hk
    obtain ⟨kv, hkv, he⟩ := List.mem_map.mp hk
    subst he
    exact hno kv.2 hkv
  | some v =>
    have hmem := Std.ExtTreeMap.mem_toList_iff_getElem?_eq_some.mpr h
    exact Std.ExtTreeMap.getElem?_ofList_of_mem Std.ReflCmp.compare_self
      Std.ExtTreeMap.distinct_keys_toList hmem

end TreeMap

end Buzz
