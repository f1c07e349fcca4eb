import Mathlib

namespace Buzz.ListAt
set_option autoImplicit true

variable {as : List α} {a b c : α}

/-- What is in a list after an append was there before or is what was appended. -/
theorem getElem?_snoc {k : Nat} (h : (as ++ [a])[k]? = some b) :
    as[k]? = some b ∨ (k = as.length ∧ b = a) := by
  rw [List.getElem?_append] at h
  split at h
  · exact .inl h
  · rename_i hk
    obtain ⟨hlt, hb⟩ := List.getElem?_eq_some_iff.mp h
    rw [List.length_singleton] at hlt
    have hlen : k = as.length := by omega
    subst hlen
    rw [List.getElem_singleton] at hb
    exact .inr ⟨rfl, hb.symm⟩

/-- What is in a list after an update is new or was there before. -/
theorem getElem?_set {k j : Nat} (h : (as.set k b)[j]? = some c) :
    (j = k ∧ c = b) ∨ (j ≠ k ∧ as[j]? = some c) := by
  rw [List.getElem?_set] at h
  split at h
  · rename_i hj
    split at h
    · cases h
      exact .inl ⟨hj.symm, rfl⟩
    · cases h
  · rename_i hj
    exact .inr ⟨Ne.symm hj, h⟩

/-- An update that a function does not see. -/
theorem map_set {k : Nat} {f : α → β} (hk : as[k]? = some a) (hf : f b = f a) :
    (as.set k b).map f = as.map f := by
  obtain ⟨hlt, rfl⟩ := List.getElem?_eq_some_iff.mp hk
  rw [List.map_set, hf, ← List.getElem_map f (h := by rwa [List.length_map]), List.set_getElem_self]

/-- What is in a list after a change was there before, and only one place has changed. -/
theorem getElem?_modify {k j : Nat} {g : α → α} (h : (as.modify k g)[j]? = some c) :
    ∃ a, as[j]? = some a ∧ c = if j = k then g a else a := by
  rw [List.getElem?_modify] at h
  cases ha : as[j]? with
  | none =>
    rw [ha] at h
    cases h
  | some a =>
    rw [ha] at h
    cases h
    exact ⟨a, rfl, if_congr eq_comm rfl rfl⟩

/-- A change that a function does not see. -/
theorem map_modify {k : Nat} {f : α → β} {g : α → α} (hg : ∀ a, f (g a) = f a) :
    (as.modify k g).map f = as.map f := by
  apply List.ext_getElem?
  intro j
  rw [List.getElem?_map, List.getElem?_map, List.getElem?_modify]
  split
  · cases as[j]? with
    | none => rfl
    | some a => exact congrArg some (hg a)
  · cases as[j]? with
    | none => rfl
    | some a => rfl

/-- The place of one of the elements that are counted. -/
theorem split_countP {p : α → Bool} {n : Nat} (h : n < as.countP p) :
    ∃ before a after, as = before ++ a :: after ∧ p a = true ∧ before.countP p = n := by
  induction as generalizing n with
  | nil => exact absurd h (Nat.not_lt_zero n)
  | cons b as ih =>
    by_cases hb : p b = true
    · cases n with
      | zero => exact ⟨[], b, as, rfl, hb, rfl⟩
      | succ n =>
        rw [List.countP_cons_of_pos hb] at h
        obtain ⟨before, a, after, rfl, ha, hn⟩ := ih (Nat.lt_of_succ_lt_succ h)
        refine ⟨b :: before, a, after, rfl, ha, ?_⟩
        rw [List.countP_cons_of_pos hb, hn]
    · rw [List.countP_cons_of_neg hb] at h
      obtain ⟨before, a, after, rfl, ha, hn⟩ := ih h
      refine ⟨b :: before, a, after, rfl, ha, ?_⟩
      rw [List.countP_cons_of_neg hb, hn]

/-- Two elements of an ordered list stand in one order or the other. -/
theorem pairwise_or {R : α → α → Prop} (h : as.Pairwise R) (ha : a ∈ as) (hb : b ∈ as)
    (hne : a ≠ b) : R a b ∨ R b a := by
  have hsymm : Std.Symm (fun x y => R x y ∨ R y x) := ⟨fun x y => Or.symm⟩
  have hboth : as.Pairwise (fun x y => R x y ∨ R y x) := h.imp Or.inl
  exact hboth.forall ha hb hne

/-- What a list is split into has its elements, but for the separators. -/
theorem mem_splitOn [BEq α] [LawfulBEq α] (sep : α) (h : c ∈ as) :
    c = sep ∨ ∃ part ∈ as.splitOn sep, c ∈ part := by
  have hjoin : ∀ parts : List (List α), c ∈ [sep].intercalate parts →
      c = sep ∨ ∃ part ∈ parts, c ∈ part := by
    intro parts
    induction parts with
    | nil => exact fun h => absurd h List.not_mem_nil
    | cons part parts ih =>
      intro h
      cases parts with
      | nil => exact .inr ⟨part, List.mem_cons_self, by simpa using h⟩
      | cons next parts =>
        rw [List.intercalate_cons_cons, List.mem_append, List.mem_append, List.mem_singleton] at h
        rcases h with (h | h) | h
        · exact .inr ⟨part, List.mem_cons_self, h⟩
        · exact .inl h
        · exact (ih h).imp_right fun ⟨own, hown, hmem⟩ => ⟨own, List.mem_cons_of_mem _ hown, hmem⟩
  apply hjoin
  rw [List.intercalate_splitOn]
  exact h

end Buzz.ListAt
