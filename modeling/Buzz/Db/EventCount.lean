import Buzz.Db.EventFrame

namespace Buzz
set_option autoImplicit true

/-- The row is one that a query counts. -/
def EventQuery.selects (q : EventQuery) (row : EventRow) : Bool :=
  !q.matchesNothing && (q.countClause row && !(q.joinMentions row).isEmpty)

/-- A stored event that passes a test, read back from its row. -/
def EventRow.readsBack (test : StoredEvent → Bool) (row : EventRow) : Bool :=
  match rowToStoredEvent row with
  | some ev => test ev
  | none => false

namespace EventQuery
variable {q : EventQuery} {row : EventRow}

theorem channelClause_channel (hc : q.channelId = some ch) (hs : q.channelIds = none) :
    q.channelClause row = true ↔ row.channelId = some ch := by
  simp [channelClause, hc, hs]

theorem channelClause_list (hc : q.channelId = none) (hg : q.globalOnly = false)
    (hs : q.channelIds = some chs) :
    q.channelClause row = true ↔
      (q.channelIdsIncludeGlobal = true ∧ row.channelId = none) ∨
        ∃ ch ∈ chs, row.channelId = some ch := by
  rw [channelClause, hc, hg, hs]
  cases chs with
  | nil => cases q.channelIdsIncludeGlobal <;> simp
  | cons c chs => cases q.channelIdsIncludeGlobal <;> simp

theorem channelClause_unscoped (hc : q.channelId = none) (hg : q.globalOnly = false)
    (hs : q.channelIds = none) : q.channelClause row = true := by
  simp [channelClause, hc, hg, hs]

end EventQuery

namespace EventStore

/-- A row without duplicate mentions joins at most one mention row. -/
theorem joinMentions_eq {q : EventQuery} (h : row.mentions.Nodup)
    (hne : (q.joinMentions row).isEmpty = false) : q.joinMentions row = [row] := by
  unfold EventQuery.joinMentions at hne ⊢
  split at hne
  · rename_i p _
    have hle : (row.mentions.filter (· = asciiLower p)).length ≤ 1 := by
      rw [← List.countP_eq_length_filter]
      exact List.nodup_iff_count_le_one.mp h (asciiLower p)
    cases hm : row.mentions.filter (· = asciiLower p) with
    | nil => simp [hm] at hne
    | cons m ms =>
      rw [hm, List.length_cons] at hle
      cases List.length_eq_zero_iff.mp (Nat.le_zero.mp (Nat.le_of_succ_le_succ hle))
      rfl
  · rfl

theorem live_of_countClause {q : EventQuery} (h : q.countClause row = true) :
    row.deleted = false := by
  simp only [EventQuery.countClause, EventQuery.liveClause, Bool.and_eq_true,
    Bool.not_eq_true'] at h
  exact h.1.1.1.1.1.2

theorem flatMap_joinMentions {rows : List EventRow} (q : EventQuery) (p : EventRow → Bool)
    (h : ∀ row ∈ rows, p row = true → row.mentions.Nodup) :
    (rows.filter p).flatMap q.joinMentions =
      rows.filter fun row => p row && !(q.joinMentions row).isEmpty := by
  induction rows with
  | nil => rfl
  | cons row rows ih =>
    rw [List.forall_mem_cons] at h
    specialize ih h.2
    rw [List.filter_cons, List.filter_cons]
    cases hp : p row with
    | false => simpa using ih
    | true =>
      cases he : (q.joinMentions row).isEmpty with
      | true => simpa [List.isEmpty_iff.mp he] using ih
      | false => simpa [joinMentions_eq (h.1 hp) he] using ih

/-- How often a live row is counted: once when the query selects it. -/
theorem countEvents_eq (store : EventStore) (q : EventQuery)
    (h : ∀ row ∈ store.rows, row.deleted = false → row.mentions.Nodup) :
    store.countEvents q = .ok (store.rows.countP q.selects) := by
  have hlive : ∀ row ∈ store.rows, q.countClause row = true → row.mentions.Nodup :=
    fun row hrow hc => h row hrow (live_of_countClause hc)
  rw [countEvents, flatMap_joinMentions q _ hlive, ← List.countP_eq_length_filter]
  unfold EventQuery.selects
  cases q.matchesNothing with
  | true => simp
  | false => simp

/-- Without cursor and reader the page of a query ranges over the rows that it would count. -/
theorem queryClause_eq {q : EventQuery} (hq : q.Plain) (hs : q.sharedGatedReader = none)
    (row : EventRow) : q.queryClause row = q.countClause row := by
  have hpage : q.pageClause row = q.untilClause row := by
    rw [EventQuery.pageClause, hq.beforeId]
    split
    · rename_i h
      cases h
    · rfl
  have hshared : q.sharedClause row = true := by rw [EventQuery.sharedClause, hs]
  rw [EventQuery.queryClause, EventQuery.countClause, hpage, hshared, Bool.and_true]

theorem countP_readsBack (rows : List EventRow) (test : StoredEvent → Bool) :
    (rows.filterMap rowToStoredEvent).countP test = rows.countP (EventRow.readsBack test) := by
  rw [List.countP_filterMap]
  apply List.countP_congr
  intro row _
  rw [EventRow.readsBack]
  cases rowToStoredEvent row <;> simp

/-- What passes a test among the unlimited rows of a query. -/
theorem countP_queryEventsUnlimited (store : EventStore) {q : EventQuery} (hq : q.Plain)
    (hs : q.sharedGatedReader = none)
    (h : ∀ row ∈ store.rows, row.deleted = false → row.mentions.Nodup)
    (test : StoredEvent → Bool) :
    ∃ events, store.queryEventsUnlimited q = .ok events ∧
      events.countP test =
        store.rows.countP fun row => q.selects row && row.readsBack test := by
  rw [queryEventsUnlimited, queryPage_plain hq]
  cases hn : q.matchesNothing with
  | true =>
    refine ⟨[], rfl, ?_⟩
    simp [EventQuery.selects, hn]
  | false =>
    refine ⟨_, rfl, ?_⟩
    have hclause : q.queryClause = q.countClause := funext (queryClause_eq hq hs)
    have hlive : ∀ row ∈ store.rows, q.countClause row = true → row.mentions.Nodup :=
      fun row hrow hc => h row hrow (live_of_countClause hc)
    rw [countP_readsBack, (List.perm_insertionSort rowBefore _).countP_eq, candidates, hclause,
      flatMap_joinMentions q _ hlive, List.countP_filter]
    apply List.countP_congr
    intro row _
    simp [EventQuery.selects, hn, and_comm, and_assoc]

end EventStore

end Buzz
