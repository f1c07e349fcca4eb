import Buzz.ReadState.SlotTrim

namespace Buzz.ReadState
set_option autoImplicit true

section Assign

variable {record : List Entry} {e : Entry}

theorem assign_fresh (hproto : e.1 ≠ "__proto__") (hnew : e.1 ∉ record.map Prod.fst) :
    assign record e = record ++ [e] := by
  rw [assign, if_neg hproto, if_neg]
  intro hany
  obtain ⟨old, hold, hkey⟩ := List.any_eq_true.mp hany
  apply hnew
  rw [← of_decide_eq_true hkey]
  exact List.mem_map_of_mem hold

theorem assign_proto (hproto : e.1 = "__proto__") : assign record e = record :=
  if_pos hproto

/-- A record never has a property `__proto__` of its own. -/
theorem proto_notMem_assign (h : "__proto__" ∉ record.map Prod.fst) :
    "__proto__" ∉ (assign record e).map Prod.fst := by
  rw [assign]
  by_cases hproto : e.1 = "__proto__"
  · rw [if_pos hproto]
    exact h
  · rw [if_neg hproto]
    by_cases hany : (record.any fun old => decide (old.1 = e.1)) = true
    · rw [if_pos hany, List.map_map]
      have hkeys : record.map (Prod.fst ∘ fun old => if old.1 = e.1 then e else old) =
          record.map Prod.fst := by
        apply List.map_congr_left
        intro old hold
        by_cases hkey : old.1 = e.1
        · rw [Function.comp_apply, if_pos hkey, hkey]
        · rw [Function.comp_apply, if_neg hkey]
      rw [hkeys]
      exact h
    · rw [if_neg hany, List.map_append, List.mem_append]
      intro hmem
      cases hmem with
      | inl hold => exact h hold
      | inr hnew => exact hproto (List.mem_singleton.mp hnew).symm

theorem proto_notMem_foldl (entries : List Entry) (h : "__proto__" ∉ record.map Prod.fst) :
    "__proto__" ∉ (entries.foldl assign record).map Prod.fst := by
  induction entries generalizing record with
  | nil => exact h
  | cons e entries ih => exact ih (proto_notMem_assign h)

/-- New entries with distinct keys come behind what the record has. -/
theorem foldl_assign {entries : List Entry} (hdistinct : DistinctKeys (record ++ entries)) :
    entries.foldl assign record = record ++ entries.filter fun e => e.1 ≠ "__proto__" := by
  induction entries generalizing record with
  | nil => exact (List.append_nil record).symm
  | cons e entries ih =>
    rw [List.foldl_cons]
    by_cases hproto : e.1 = "__proto__"
    · rw [assign_proto hproto, ih, List.filter_cons_of_neg (by simpa using hproto)]
      exact hdistinct.sublist (((List.sublist_cons_self e entries).append_left record).map Prod.fst)
    · have hnew : e.1 ∉ record.map Prod.fst := by
        intro hold
        rw [DistinctKeys, List.map_append, List.nodup_append] at hdistinct
        exact hdistinct.2.2 _ hold _ List.mem_cons_self rfl
      rw [assign_fresh hproto hnew, ih, List.append_assoc,
        List.filter_cons_of_pos (by simpa using hproto)]
      · rfl
      · rw [List.append_assoc]
        exact hdistinct

end Assign

section Deal

variable {count : ℕ} {e : Entry}

/-- The entries that the slot `n` is dealt, from the entry `i` on. -/
def dealtTo (count n : ℕ) : ℕ → List Entry → List Entry
  | _, [] => []
  | i, e :: entries =>
    if i % count = n ∧ e.1 ≠ "__proto__" then e :: dealtTo count n (i + 1) entries
    else dealtTo count n (i + 1) entries

theorem dealtTo_sublist (count n i : ℕ) (entries : List Entry) :
    (dealtTo count n i entries).Sublist entries := by
  induction entries generalizing i with
  | nil => exact List.Sublist.slnil
  | cons e entries ih =>
    rw [dealtTo]
    by_cases hturn : i % count = n ∧ e.1 ≠ "__proto__"
    · rw [if_pos hturn]
      exact (ih (i + 1)).cons_cons e
    · rw [if_neg hturn]
      exact (ih (i + 1)).cons e

theorem mem_dealtTo (n i : ℕ) (entries : List Entry) : e ∈ dealtTo count n i entries ↔
    e.1 ≠ "__proto__" ∧ ∃ j, entries[j]? = some e ∧ (i + j) % count = n := by
  induction entries generalizing i with
  | nil =>
    rw [dealtTo]
    constructor
    · intro hmem
      cases hmem
    · intro ⟨_, j, hj, _⟩
      cases hj
  | cons head entries ih =>
    have hsplit : (∃ j, (head :: entries)[j]? = some e ∧ (i + j) % count = n) ↔
        (head = e ∧ i % count = n) ∨ ∃ j, entries[j]? = some e ∧ (i + 1 + j) % count = n := by
      constructor
      · intro ⟨j, hj, hturn⟩
        cases j with
        | zero => exact .inl ⟨Option.some.inj hj, hturn⟩
        | succ j =>
          refine .inr ⟨j, hj, ?_⟩
          rw [Nat.add_assoc, Nat.add_comm 1 j]
          exact hturn
      · intro h
        cases h with
        | inl h => exact ⟨0, congrArg some h.1, h.2⟩
        | inr h =>
          obtain ⟨j, hj, hturn⟩ := h
          refine ⟨j + 1, hj, ?_⟩
          rw [Nat.add_comm j 1, ← Nat.add_assoc]
          exact hturn
    rw [hsplit, dealtTo, and_or_left, ← ih (i + 1)]
    by_cases hturn : i % count = n ∧ head.1 ≠ "__proto__"
    · rw [if_pos hturn, List.mem_cons]
      apply or_congr_left
      constructor
      · intro heq
        subst heq
        exact ⟨hturn.2, rfl, hturn.1⟩
      · exact fun h => h.2.1.symm
    · rw [if_neg hturn]
      constructor
      · exact Or.inr
      · intro h
        cases h with
        | inl h =>
          obtain ⟨hproto, rfl, hslot⟩ := h
          exact absurd ⟨hslot, hproto⟩ hturn
        | inr h => exact h

theorem deal_length (count i : ℕ) (entries : List Entry) (slots : List (List Entry)) :
    (deal count i entries slots).length = slots.length := by
  induction entries generalizing i slots with
  | nil => rfl
  | cons e entries ih => rw [deal, ih, List.length_modify]

theorem getD_modify {slots : List (List Entry)} (f : List Entry → List Entry) (k : ℕ) {n : ℕ}
    (hn : n < slots.length) :
    (slots.modify k f).getD n [] = if k = n then f (slots.getD n []) else slots.getD n [] := by
  rw [List.getD_eq_getElem?_getD, List.getD_eq_getElem?_getD, List.getElem?_modify,
    List.getElem?_eq_getElem hn]
  by_cases hk : k = n
  · simp only [if_pos hk, Option.map_eq_map, Option.map_some, Option.getD_some]
  · simp only [if_neg hk, Option.map_eq_map, Option.map_some, Option.getD_some]

theorem deal_getD {entries : List Entry} (hdistinct : DistinctKeys entries) (i : ℕ)
    {slots : List (List Entry)} {n : ℕ} (hn : n < slots.length)
    (hnew : ∀ e ∈ entries, e.1 ∉ (slots.getD n []).map Prod.fst) :
    (deal count i entries slots).getD n [] = slots.getD n [] ++ dealtTo count n i entries := by
  induction entries generalizing i slots with
  | nil => exact (List.append_nil _).symm
  | cons e entries ih =>
    obtain ⟨hhead, htail⟩ := List.nodup_cons.mp hdistinct
    have hlen : n < (slots.modify (i % count) fun slot => assign slot e).length := by
      rw [List.length_modify]
      exact hn
    have hslot := getD_modify (fun slot => assign slot e) (i % count) hn
    have hrest : ∀ e' ∈ entries, e'.1 ∉ (slots.getD n []).map Prod.fst := fun e' he' =>
      hnew e' (List.mem_cons_of_mem e he')
    rw [deal, dealtTo]
    by_cases hturn : i % count = n ∧ e.1 ≠ "__proto__"
    · rw [if_pos hturn.1, assign_fresh hturn.2 (hnew e List.mem_cons_self)] at hslot
      rw [if_pos hturn, ih htail (i + 1) hlen, hslot, List.append_assoc]
      · rfl
      · intro e' he' hmem
        rw [hslot, List.map_append, List.mem_append] at hmem
        cases hmem with
        | inl hold => exact hrest e' he' hold
        | inr hsame =>
          rw [← List.mem_singleton.mp hsame] at hhead
          exact hhead (List.mem_map_of_mem he')
    · have hsame : (slots.modify (i % count) fun slot => assign slot e).getD n [] =
          slots.getD n [] := by
        rw [hslot]
        by_cases hk : i % count = n
        · rw [if_pos hk, assign_proto (not_not.mp fun hproto => hturn ⟨hk, hproto⟩)]
        · rw [if_neg hk]
      rw [if_neg hturn, ih htail (i + 1) hlen, hsame]
      rw [hsame]
      exact hrest

theorem distribute_length (entries : List Entry) (count : ℕ) :
    (distribute entries count).length = count := by
  rw [distribute, deal_length, List.length_replicate]

theorem distribute_getD {entries : List Entry} (hdistinct : DistinctKeys entries) {n : ℕ}
    (hn : n < count) : (distribute entries count).getD n [] = dealtTo count n 0 entries := by
  have hempty : (List.replicate count ([] : List Entry)).getD n [] = [] := by
    rw [List.getD_eq_getElem?_getD, List.getElem?_replicate, if_pos hn]
    rfl
  have hlen : n < (List.replicate count ([] : List Entry)).length := by
    rw [List.length_replicate]
    exact hn
  rw [distribute, deal_getD hdistinct 0 hlen, hempty, List.nil_append]
  rw [hempty]
  exact fun e he hmem => by cases hmem

end Deal

end Buzz.ReadState
