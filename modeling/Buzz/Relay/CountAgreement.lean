import Buzz.Lib.FinsetSum
import Buzz.Relay.CountPrivacy
import Buzz.Relay.Pushdown

namespace Buzz
set_option autoImplicit true

namespace ReqContext

/-- The events that an unlimited query of one filter yields and phase 3 accepts. -/
def acceptedEvents (ctx : ReqContext) (store : EventStore) (f : Filter) : List StoredEvent :=
  match store.queryEventsUnlimited (ctx.filterParams f) with
  | .ok events => events.filter (ctx.accepts f)
  | .error _ => []

def acceptedIds (ctx : ReqContext) (store : EventStore) (f : Filter) : Finset EventId :=
  ((ctx.acceptedEvents store f).map fun stored => stored.event.id).toFinset

/-- The row is one that historical delivery accepts for the filter. -/
def AcceptsRow (ctx : ReqContext) (f : Filter) (row : EventRow) : Prop :=
  ctx.WhereHolds f row ∧ ∃ ev, rowToStoredEvent row = some ev ∧ ctx.accepts f ev = true

theorem unlimited_ok (store : EventStore) (hq : q.Plain) :
    ∃ events, store.queryEventsUnlimited q = .ok events := by
  rw [EventStore.queryEventsUnlimited, EventStore.queryPage_plain hq]
  split
  · exact ⟨[], rfl⟩
  · exact ⟨_, rfl⟩

theorem mem_candidates_iff {ctx : ReqContext} {store : EventStore} :
    row ∈ store.candidates (ctx.filterParams f) ↔ row ∈ store.rows ∧ ctx.WhereHolds f row := by
  refine ⟨?_, fun h => mem_candidates_of_whereHolds h.1 h.2⟩
  intro h
  obtain ⟨row', hrow, hj⟩ := List.mem_flatMap.mp h
  cases EventStore.mem_joinMentions hj
  obtain ⟨hmem, hclause⟩ := List.mem_filter.mp hrow
  exact ⟨hmem, hclause, List.ne_nil_of_mem hj⟩

theorem mem_acceptedIds {ctx : ReqContext} {id : EventId} :
    id ∈ ctx.acceptedIds store f ↔ ∃ row ∈ store.rows, row.id = id ∧ ctx.AcceptsRow f row := by
  rw [acceptedIds, List.mem_toFinset, List.mem_map, acceptedEvents,
    EventStore.queryEventsUnlimited, EventStore.queryPage_plain (ctx.filterParams_plain f)]
  constructor
  · rintro ⟨ev, hev, rfl⟩
    split at hev
    · rename_i events he
      split at he
      · cases he
        cases hev
      · cases he
        obtain ⟨hin, hacc⟩ := List.mem_filter.mp hev
        obtain ⟨row, hrow, hread⟩ := List.mem_filterMap.mp hin
        obtain ⟨hmem, hw⟩ := mem_candidates_iff.mp ((List.mem_insertionSort _).mp hrow)
        exact ⟨row, hmem, (rowToStoredEvent_id hread).symm, hw, ev, hread, hacc⟩
    · cases hev
  · rintro ⟨row, hmem, rfl, hw, ev, hread, hacc⟩
    have hmatch : filtersMatch [f] ev = true := by
      rw [accepts, Bool.and_eq_true, Bool.and_eq_true] at hacc
      exact hacc.1.1
    have hm := matches_of_filterMatchOne ((filtersMatch_singleton f ev).symm.trans hmatch)
    rw [matchesNothing_of_matches hm]
    refine ⟨ev, List.mem_filter.mpr ⟨?_, hacc⟩, rowToStoredEvent_id hread⟩
    exact List.mem_filterMap.mpr
      ⟨row, (List.mem_insertionSort _).mpr (mem_candidates_iff.mpr ⟨hmem, hw⟩), hread⟩

theorem disjoint_acceptedIds {ctx : ReqContext} :
    Disjoint (ctx.acceptedIds store f) (ctx.acceptedIds store g) ↔
      ∀ row ∈ store.rows, ∀ row' ∈ store.rows, ctx.AcceptsRow f row → ctx.AcceptsRow g row' →
        row.id ≠ row'.id := by
  rw [Finset.disjoint_left]
  constructor
  · intro h row hrow row' hrow' hf hg he
    exact h (mem_acceptedIds.mpr ⟨row, hrow, rfl, hf⟩)
      (mem_acceptedIds.mpr ⟨row', hrow', he.symm, hg⟩)
  · intro h id hf hg
    obtain ⟨row, hrow, hid, hf⟩ := mem_acceptedIds.mp hf
    obtain ⟨row', hrow', hid', hg⟩ := mem_acceptedIds.mp hg
    exact h row hrow row' hrow' hf hg (hid.trans hid'.symm)

theorem deliverLoop_cons (ctx : ReqContext) (store : EventStore) (sent : List Event) (f : Filter)
    (fs : List Filter) :
    ctx.deliverLoop EventStore.queryEventsUnlimited store sent (f :: fs) =
      ctx.deliverLoop EventStore.queryEventsUnlimited store
        ((ctx.acceptedEvents store f).foldl deliver sent) fs := by
  obtain ⟨events, he⟩ := unlimited_ok store (ctx.filterParams_plain f)
  rw [deliverLoop, acceptedEvents, he]

theorem deliverLoop_ids (ctx : ReqContext) (store : EventStore) (fs : List Filter)
    (sent : List Event) (h : (sent.map Event.id).Nodup) :
    ((ctx.deliverLoop EventStore.queryEventsUnlimited store sent fs).map Event.id).Nodup ∧
      ∀ id, id ∈ (ctx.deliverLoop EventStore.queryEventsUnlimited store sent fs).map Event.id ↔
        id ∈ sent.map Event.id ∨ id ∈ FinsetSum.union (fs.map (ctx.acceptedIds store)) := by
  induction fs generalizing sent with
  | nil => exact ⟨h, fun id => by simp [deliverLoop, FinsetSum.union]⟩
  | cons f fs ih =>
    have hnodup : (((ctx.acceptedEvents store f).foldl deliver sent).map Event.id).Nodup := by
      rw [foldl_deliver_ids]
      exact nodup_foldl_pushNew h _
    obtain ⟨hn, hmem⟩ := ih _ hnodup
    rw [deliverLoop_cons]
    refine ⟨hn, fun id => ?_⟩
    have hcons : FinsetSum.union ((f :: fs).map (ctx.acceptedIds store)) =
      ctx.acceptedIds store f ∪ FinsetSum.union (fs.map (ctx.acceptedIds store)) := rfl
    rw [hmem, foldl_deliver_ids, mem_foldl_pushNew, hcons, Finset.mem_union, acceptedIds,
      List.mem_toFinset, or_assoc]

/-- Unlimited delivery sends each accepted event once. -/
theorem deliverLoop_length (ctx : ReqContext) (store : EventStore) (fs : List Filter) :
    (ctx.deliverLoop EventStore.queryEventsUnlimited store [] fs).length =
      (FinsetSum.union (fs.map (ctx.acceptedIds store))).card := by
  obtain ⟨hn, hmem⟩ := ctx.deliverLoop_ids store fs [] List.nodup_nil
  rw [← List.length_map Event.id, ← List.toFinset_card_of_nodup hn]
  congr 1
  ext id
  rw [List.mem_toFinset, hmem]
  simp

end ReqContext

/-- A call that does not answer closes the request. -/
theorem CountContext.execute_error {ctx : CountContext}
    (h : ctx.execute store f call = .error message) :
    ∃ reason, message = .closed ctx.subId reason := by
  cases call with
  | countEvents q =>
    rw [execute] at h
    split at h
    · cases h
    · cases h
      exact ⟨_, rfl⟩
  | queryEvents q =>
    rw [execute] at h
    split at h
    · split at h
      · cases h
        exact ⟨_, rfl⟩
      · cases h
    · cases h
      exact ⟨_, rfl⟩

/-- The total of an answered COUNT is the sum of what the filters added. -/
theorem CountContext.countLoop_total {ctx : CountContext} {id : String}
    (work : List (Filter × Option (List Uuid))) (h : counts.sum = total)
    (ha : (ctx.countLoop store accessible total calls counts work).answer = .count id n) :
    (ctx.countLoop store accessible total calls counts work).counts.sum = n := by
  induction work generalizing accessible total calls counts with
  | nil =>
    cases ha
    exact h
  | cons w work ih =>
    obtain ⟨f, requested⟩ := w
    rw [countLoop] at ha ⊢
    cases hr : ctx.repairAccess accessible (requested.getD []) with
    | error e =>
      rw [hr] at ha
      cases ha
    | ok accessible' =>
      simp only [hr] at ha ⊢
      cases hq : ctx.filterQuery accessible' f requested with
      | none =>
        simp only [hq] at ha ⊢
        exact ih (by simpa using h) ha
      | some q =>
        simp only [hq] at ha ⊢
        cases he : ctx.execute store f (ctx.handOver f requested q) with
        | error message =>
          obtain ⟨reason, rfl⟩ := execute_error he
          rw [he] at ha
          cases ha
        | ok m =>
          simp only [he] at ha ⊢
          exact ih (by simp [h]) ha

/-- A COUNT request is closed at a gate or works off its filters. -/
theorem handleCount_cases (subId : String) (filters : List Filter) (conn : ConnectionState)
    (access : ChannelAccess) (store : EventStore) :
    (∃ reason, handleCount subId filters conn access store = ⟨.closed subId reason, [], []⟩) ∨
      ∃ (ctx : CountContext) (accessible : List Uuid),
        handleCount subId filters conn access store =
          ctx.countLoop store accessible 0 [] []
            (filters.map fun f => (f, extractChannelIdsFromFilters [f])) := by
  unfold handleCount
  dsimp only
  split
  · exact .inl ⟨_, rfl⟩
  · split
    · exact .inl ⟨_, rfl⟩
    · split
      · exact .inl ⟨_, rfl⟩
      · split
        · exact .inl ⟨_, rfl⟩
        · split
          · exact .inl ⟨_, rfl⟩
          · split
            · exact .inl ⟨_, rfl⟩
            · exact .inr ⟨_, _, rfl⟩

theorem handleCount_total
    (ha : (handleCount subId filters conn access store).answer = .count subId n) :
    (handleCount subId filters conn access store).counts.sum = n := by
  rcases handleCount_cases subId filters conn access store with ⟨reason, he⟩ | ⟨ctx, ids, he⟩
  · rw [he] at ha
    cases ha
  · rw [he] at ha ⊢
    exact CountContext.countLoop_total _ List.sum_nil ha

namespace CountExample

def kindsFilter (kinds : List Kind) : Filter :=
  { Filter.new with kinds := some (.ofList kinds) }

end CountExample

end Buzz
