import Buzz.ReadState.Slots

namespace Buzz.ReadState
set_option autoImplicit true
open Json

/-- Contexts have distinct keys. -/
def DistinctKeys (contexts : List Entry) : Prop :=
  (contexts.map Prod.fst).Nodup

section Keys

variable {contexts : List Entry} {e e' : Entry}

theorem DistinctKeys.nodup (h : DistinctKeys contexts) : contexts.Nodup :=
  List.Nodup.of_map Prod.fst h

theorem DistinctKeys.eq (h : DistinctKeys contexts) (he : e ∈ contexts) (he' : e' ∈ contexts)
    (hkey : e.1 = e'.1) : e = e' :=
  List.inj_on_of_nodup_map h he he' hkey

theorem DistinctKeys.filter (h : DistinctKeys contexts) (p : Entry → Bool) :
    DistinctKeys (contexts.filter p) :=
  h.sublist (List.filter_sublist.map Prod.fst)

/-- Only thread and message entries may be evicted. -/
theorem mem_evictionOrder :
    e ∈ evictionOrder contexts ↔ e ∈ contexts ∧ isThreadOrMsg e.1 = true := by
  rw [evictionOrder, oldestFirst, oldestFirst, List.mem_append, (List.mergeSort_perm _ _).mem_iff,
    (List.mergeSort_perm _ _).mem_iff, List.mem_filter, List.mem_filter, isThreadOrMsg]
  cases startsWith e.1 MSG_PREFIX with
  | true => simp
  | false => simp

theorem DistinctKeys.evictionOrder_keys (h : DistinctKeys contexts) :
    DistinctKeys (evictionOrder contexts) := by
  have hperm : (evictionOrder contexts).Perm
      (contexts.filter (fun e => startsWith e.1 MSG_PREFIX) ++
        contexts.filter fun e => !startsWith e.1 MSG_PREFIX && startsWith e.1 THREAD_PREFIX) :=
    (List.mergeSort_perm _ _).append (List.mergeSort_perm _ _)
  rw [DistinctKeys, (hperm.map Prod.fst).nodup_iff, List.map_append, List.nodup_append]
  refine ⟨h.filter _, h.filter _, ?_⟩
  intro k hk k' hk' heq
  obtain ⟨a, ha, hak⟩ := List.mem_map.mp hk
  obtain ⟨b, hb, hbk⟩ := List.mem_map.mp hk'
  have hab : a = b := h.eq (List.mem_of_mem_filter ha) (List.mem_of_mem_filter hb)
    (hak.trans (heq.trans hbk.symm))
  have hmsg := (List.mem_filter.mp ha).2
  have hnot := (List.mem_filter.mp hb).2
  rw [← hab, hmsg] at hnot
  cases hnot

/-- What is left of the contexts once the first `k` entries of the order are gone. -/
def withoutFirst (contexts : List Entry) (k : ℕ) : List Entry :=
  contexts.filter fun e => e.1 ∉ ((evictionOrder contexts).take k).map Prod.fst

theorem mem_withoutFirst (h : DistinctKeys contexts) (k : ℕ) :
    e ∈ withoutFirst contexts k ↔ e ∈ contexts ∧ e ∉ (evictionOrder contexts).take k := by
  rw [withoutFirst, List.mem_filter, decide_eq_true_eq]
  apply and_congr_right
  intro he
  apply not_congr
  constructor
  · intro hkey
    obtain ⟨e', he', heq⟩ := List.mem_map.mp hkey
    have hmem := (mem_evictionOrder.mp (List.mem_of_mem_take he')).1
    rw [h.eq he hmem heq.symm]
    exact he'
  · exact List.mem_map_of_mem

/-- The contexts are the entries that go and those that are left. -/
theorem withoutFirst_perm (h : DistinctKeys contexts) (k : ℕ) :
    ((evictionOrder contexts).take k ++ withoutFirst contexts k).Perm contexts := by
  have hgone : ((evictionOrder contexts).take k).Perm (contexts.filter fun e =>
      ! decide (e.1 ∉ ((evictionOrder contexts).take k).map Prod.fst)) := by
    rw [List.perm_ext_iff_of_nodup (h.evictionOrder_keys.nodup.sublist (List.take_sublist _ _))
      (h.filter _).nodup]
    intro e
    rw [List.mem_filter]
    constructor
    · intro he
      refine ⟨(mem_evictionOrder.mp (List.mem_of_mem_take he)).1, ?_⟩
      simp only [Bool.not_eq_true', decide_eq_false_iff_not, not_not]
      exact List.mem_map_of_mem he
    · intro ⟨he, hkey⟩
      simp only [Bool.not_eq_true', decide_eq_false_iff_not, not_not] at hkey
      obtain ⟨e', he', heq⟩ := List.mem_map.mp hkey
      have hmem := (mem_evictionOrder.mp (List.mem_of_mem_take he')).1
      rw [h.eq he hmem heq.symm]
      exact he'
  have hsplit := List.filter_append_perm
    (fun e : Entry => decide (e.1 ∉ ((evictionOrder contexts).take k).map Prod.fst)) contexts
  exact (List.perm_append_comm.trans ((List.Perm.refl _).append hgone)).trans hsplit

theorem withoutFirst_zero : withoutFirst contexts 0 = contexts := by
  rw [withoutFirst, List.take_zero]
  exact List.filter_eq_self.mpr fun e _ => rfl

/-- Once the whole order is gone, the channels are left. -/
theorem withoutFirst_length (h : DistinctKeys contexts) :
    withoutFirst contexts (evictionOrder contexts).length =
      contexts.filter fun e => !isThreadOrMsg e.1 := by
  rw [withoutFirst]
  apply List.filter_congr
  intro e he
  have hmem := mem_withoutFirst h (evictionOrder contexts).length (e := e)
  rw [withoutFirst, List.mem_filter, List.take_length, mem_evictionOrder] at hmem
  rw [List.take_length]
  cases hkind : isThreadOrMsg e.1 with
  | true =>
    rw [hkind] at hmem
    exact Bool.eq_false_iff.mpr fun hkeep => (hmem.mp ⟨he, hkeep⟩).2 ⟨he, rfl⟩
  | false =>
    rw [hkind] at hmem
    exact (hmem.mpr ⟨he, fun hin => Bool.noConfusion hin.2⟩).2

/-- Before the order is gone, its next entry is left. -/
theorem withoutFirst_ne_nil (h : DistinctKeys contexts) {j : ℕ}
    (hj : j < (evictionOrder contexts).length) : withoutFirst contexts j ≠ [] := by
  have hnext : (evictionOrder contexts)[j] ∈ withoutFirst contexts j := by
    rw [mem_withoutFirst h]
    refine ⟨(mem_evictionOrder.mp (List.getElem_mem hj)).1, ?_⟩
    intro hgone
    obtain ⟨i, hi, hsame⟩ := List.mem_take_iff_getElem.mp hgone
    have hij := h.evictionOrder_keys.nodup.getElem_inj_iff.mp hsame
    omega
  exact List.ne_nil_of_mem hnext

end Keys

section Evict

variable (format : NumberText)

def totalEstimate (entries : List Entry) : ℕ :=
  (entries.map (estimate format)).sum

/-- The eviction takes the first entries, as few as bring the estimate within the budget. -/
theorem toEvict_spec (maxBytes : ℕ) (bytes : ℤ) (entries : List Entry) :
    ∃ k, k ≤ entries.length ∧ toEvict format maxBytes bytes entries = (entries.take k).map Prod.fst ∧
      (∀ j < k, (maxBytes : ℤ) < bytes - totalEstimate format (entries.take j)) ∧
      (k = entries.length ∨ bytes - totalEstimate format (entries.take k) ≤ maxBytes) := by
  induction entries generalizing bytes with
  | nil => exact ⟨0, le_rfl, rfl, fun j hj => absurd hj (Nat.not_lt_zero j), .inl rfl⟩
  | cons e entries ih =>
    rw [toEvict]
    by_cases hfits : bytes ≤ maxBytes
    · rw [if_pos hfits]
      refine ⟨0, Nat.zero_le _, rfl, fun j hj => absurd hj (Nat.not_lt_zero j), .inr ?_⟩
      rw [List.take_zero, totalEstimate, List.map_nil, List.sum_nil]
      omega
    · rw [if_neg hfits]
      obtain ⟨k, hk, hkeys, hleast, hstop⟩ := ih (bytes - estimate format e)
      have hcons : ∀ j, totalEstimate format ((e :: entries).take (j + 1)) =
          estimate format e + totalEstimate format (entries.take j) := by
        intro j
        rw [List.take_succ_cons, totalEstimate, List.map_cons, List.sum_cons]
        rfl
      refine ⟨k + 1, Nat.succ_le_succ hk, ?_, ?_, ?_⟩
      · rw [hkeys, List.take_succ_cons, List.map_cons]
      · intro j hj
        cases j with
        | zero =>
          rw [List.take_zero, totalEstimate, List.map_nil, List.sum_nil]
          omega
        | succ j =>
          have hless := hleast j (Nat.lt_of_succ_lt_succ hj)
          rw [hcons]
          omega
      · cases hstop with
        | inl hall => exact .inl (congrArg (· + 1) hall)
        | inr hstop =>
          right
          rw [hcons]
          omega

theorem totalEstimate_le (entries : List Entry) :
    totalEstimate format entries ≤ totalCost format entries := by
  induction entries with
  | nil => exact le_rfl
  | cons e entries ih =>
    rw [totalEstimate, totalCost, List.map_cons, List.map_cons, List.sum_cons, List.sum_cons]
    exact Nat.add_le_add (estimate_le format e) ih

theorem totalEstimate_eq {entries : List Entry} (h : ∀ e ∈ entries, Plain e.1.toList) :
    totalEstimate format entries = totalCost format entries := by
  rw [totalEstimate, totalCost, List.map_congr_left fun e he => estimate_eq format (h e he)]

end Evict

section Trim

variable {format : NumberText} {clientId : String} {contexts : List Entry} {maxBytes : ℕ}

/-- The blob that is left is as long as the estimate at most, unless nothing is left. -/
theorem blobBytes_withoutFirst (format : NumberText) (clientId : String) (h : DistinctKeys contexts) (k : ℕ)
    (hleft : withoutFirst contexts k ≠ []) :
    blobBytes format clientId (withoutFirst contexts k) +
        totalCost format ((evictionOrder contexts).take k) =
      blobBytes format clientId contexts := by
  have hne : (evictionOrder contexts).take k ++ withoutFirst contexts k ≠ [] :=
    List.append_ne_nil_of_right_ne_nil _ hleft
  have hall := blobBytes_cost format clientId hne
  have hrest := blobBytes_cost format clientId hleft
  rw [blobBytes_perm format clientId (withoutFirst_perm h k), totalCost_append] at hall
  omega

/-- The trim drops the first entries of its order, leaves a blob within the budget if the channels
alone are, and drops no more than it must when the keys take the bytes that it expects. -/
theorem trim_spec (format : NumberText) (h : DistinctKeys contexts)
    (hchannels : blobBytes format clientId (contexts.filter fun e => !isThreadOrMsg e.1) ≤ maxBytes) :
    ∃ k, (trimContextsToBudget format contexts clientId maxBytes).1 = withoutFirst contexts k ∧
      blobBytes format clientId (withoutFirst contexts k) ≤ maxBytes ∧
      ((∀ e ∈ evictionOrder contexts, Plain e.1.toList) → ∀ j < k,
        maxBytes < blobBytes format clientId (withoutFirst contexts j)) := by
  rw [trimContextsToBudget]
  by_cases hfits : blobBytes format clientId contexts ≤ maxBytes
  · rw [if_pos hfits]
    refine ⟨0, withoutFirst_zero.symm, ?_, fun _ j hj => absurd hj (Nat.not_lt_zero j)⟩
    rw [withoutFirst_zero]
    exact hfits
  · rw [if_neg hfits]
    obtain ⟨k, hk, hkeys, hleast, hstop⟩ := toEvict_spec format maxBytes
      (blobBytes format clientId contexts) (evictionOrder contexts)
    rw [hkeys]
    refine ⟨k, rfl, ?_, ?_⟩
    · by_cases hnil : withoutFirst contexts k = []
      · rw [hnil]
        exact le_trans (blobBytes_nil_le format clientId _) hchannels
      · cases hstop with
        | inl hall =>
          rw [hall, withoutFirst_length h]
          exact hchannels
        | inr hstop =>
          have hsize := blobBytes_withoutFirst format clientId h k hnil
          have hlow := totalEstimate_le format ((evictionOrder contexts).take k)
          omega
    · intro hplain j hj
      have hsize := blobBytes_withoutFirst format clientId h j
        (withoutFirst_ne_nil h (lt_of_lt_of_le hj hk))
      have hgone : ∀ e ∈ (evictionOrder contexts).take j, Plain e.1.toList := fun e he =>
        hplain e (List.mem_of_mem_take he)
      have hless := hleast j hj
      rw [totalEstimate_eq format hgone] at hless
      omega

end Trim

end Buzz.ReadState
