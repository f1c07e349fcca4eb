import Buzz.Db.EventQuery

namespace Buzz
set_option autoImplicit true

instance : Std.Total rowBefore := by
  refine ⟨fun a b => ?_⟩
  rcases lt_trichotomy a.createdAt b.createdAt with h | h | h
  · exact .inr (.inl h)
  · rcases le_total a.id.nibbles b.id.nibbles with hid | hid
    · exact .inl (.inr ⟨h, hid⟩)
    · exact .inr (.inr ⟨h.symm, hid⟩)
  · exact .inl (.inl h)

instance : IsTrans EventRow rowBefore := by
  refine ⟨?_⟩
  rintro a b c (hab | ⟨hab, hid⟩) (hbc | ⟨hbc, hid'⟩)
  · exact .inl (lt_trans hbc hab)
  · exact .inl (hbc ▸ hab)
  · exact .inl (hab ▸ hbc)
  · exact .inr ⟨hab.trans hbc, le_trans hid hid'⟩

theorem rowBefore_antisymm (hab : rowBefore a b) (hba : rowBefore b a) :
    a.createdAt = b.createdAt ∧ a.id = b.id := by
  rcases hab with hlt | ⟨he, hid⟩
  · rcases hba with hlt' | ⟨he', _⟩
    · exact absurd hlt (lt_asymm hlt')
    · exact absurd he'.symm (ne_of_gt hlt)
  · rcases hba with hlt' | ⟨_, hid'⟩
    · exact absurd he (ne_of_lt hlt')
    · exact ⟨he, HexId.ext (le_antisymm hid hid')⟩

namespace EventStore

theorem eq_of_key (store : EventStore) (ha : a ∈ store.rows) (hb : b ∈ store.rows)
    (hc : a.communityId = b.communityId) (hk : a.createdAt = b.createdAt ∧ a.id = b.id) :
    a = b := by
  apply List.inj_on_of_nodup_map store.primaryKey ha hb
  rw [hc, hk.1, hk.2]

theorem mem_joinMentions {q : EventQuery} (h : row' ∈ q.joinMentions row) : row' = row := by
  unfold EventQuery.joinMentions at h
  split at h
  · obtain ⟨_, _, he⟩ := List.mem_map.mp h
    exact he.symm
  · exact List.mem_singleton.mp h

theorem mem_candidates {store : EventStore} (h : row ∈ store.candidates q) :
    row ∈ store.rows ∧ q.queryClause row = true := by
  obtain ⟨row', hrow, hj⟩ := List.mem_flatMap.mp h
  cases mem_joinMentions hj
  exact List.mem_filter.mp hrow

theorem communityId_of_queryClause {q : EventQuery} (h : q.queryClause row = true) :
    row.communityId = q.communityId := by
  simp only [EventQuery.queryClause, EventQuery.liveClause, Bool.and_eq_true, beq_iff_eq] at h
  exact h.1.1.1.1.1.1.1

/-- The page of a query depends on its candidate rows only, not on how the table holds them. -/
theorem sorted_congr {s₁ s₂ : EventStore} (h : (s₁.candidates q).Perm (s₂.candidates q)) :
    (s₁.candidates q).insertionSort rowBefore = (s₂.candidates q).insertionSort rowBefore := by
  have hperm := (List.perm_insertionSort rowBefore _).trans
    (h.trans (List.perm_insertionSort rowBefore _).symm)
  apply List.Perm.eq_of_pairwise _ (List.pairwise_insertionSort rowBefore _)
    (List.pairwise_insertionSort rowBefore _) hperm
  · intro a b ha hb hab hba
    have ha' := mem_candidates ((List.mem_insertionSort rowBefore).mp ha)
    have hb' := mem_candidates (h.mem_iff.mpr ((List.mem_insertionSort rowBefore).mp hb))
    have hc := (communityId_of_queryClause ha'.2).trans (communityId_of_queryClause hb'.2).symm
    exact s₁.eq_of_key ha'.1 hb'.1 hc (rowBefore_antisymm hab hba)

theorem queryEvents_congr {s₁ s₂ : EventStore} (h : (s₁.candidates q).Perm (s₂.candidates q)) :
    s₁.queryEvents q = s₂.queryEvents q := by
  simp only [queryEvents, queryPage, sorted_congr h]

/-- Rows outside the clause of a query can be added or removed without effect on its rows. -/
theorem filter_append_of_not {rows common extra : List EventRow} (p : EventRow → Bool)
    (h : rows.Perm (common ++ extra)) (hx : ∀ row ∈ extra, p row = false) : (rows.filter p).Perm (common.filter p) := by
  have hnil : extra.filter p = [] := by
    apply List.filter_eq_nil_iff.mpr
    intro row hrow
    rw [hx row hrow]
    exact Bool.false_ne_true
  have hf := h.filter p
  rw [List.filter_append, hnil, List.append_nil] at hf
  exact hf

theorem queryPage_plain (hq : q.Plain) (store : EventStore) :
    queryPage page store q =
      if q.matchesNothing then .ok []
      else (page q ((store.candidates q).insertionSort rowBefore)).map
        (·.filterMap rowToStoredEvent) := by
  simp [queryPage, hq.beforeId, hq.globalOnly]

theorem cutPage_plain (hq : q.Plain) (hl : 0 ≤ limitVal q) (rows : List EventRow) :
    cutPage q rows = .ok (rows.take (limitVal q).toNat) := by
  have hneg : ¬limitVal q < 0 := by omega
  simp [cutPage, hneg, hq.offset]

theorem countEvents_empty (q : EventQuery) : empty.countEvents q = .ok 0 := by
  simp [countEvents, empty]

theorem queryEvents_empty (hq : q.Plain) (hl : 0 ≤ limitVal q) : empty.queryEvents q = .ok [] := by
  rw [queryEvents, queryPage_plain hq, cutPage_plain hq hl]
  simp [candidates, empty, Except.map]

end EventStore

end Buzz
