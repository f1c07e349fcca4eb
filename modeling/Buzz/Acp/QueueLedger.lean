import Buzz.Acp.Queue

namespace Buzz
set_option autoImplicit true

/-- Events of a batch with the channel that they came from. -/
def onChannel (channelId : Uuid) (events : List BatchEvent) : Multiset QueuedEvent :=
  (events.map (BatchEvent.toQueued channelId) : List QueuedEvent)

def waiting (_ : Uuid) (events : List QueuedEvent) : Multiset QueuedEvent :=
  (events : List QueuedEvent)

def FlushBatch.contents (b : FlushBatch) : Multiset QueuedEvent :=
  onChannel b.channelId b.events + onChannel b.channelId b.cancelledEvents

def batchContents (b : Option FlushBatch) : Multiset QueuedEvent :=
  b.elim 0 FlushBatch.contents

theorem onChannel_nil (c : Uuid) : onChannel c [] = 0 := rfl

theorem onChannel_append (c : Uuid) (l l' : List BatchEvent) :
    onChannel c (l ++ l') = onChannel c l + onChannel c l' := by
  rw [onChannel, List.map_append, ← Multiset.coe_add]
  rfl

theorem waiting_nil (c : Uuid) : waiting c [] = 0 := rfl

theorem waiting_append (c : Uuid) (l l' : List QueuedEvent) :
    waiting c (l ++ l') = waiting c l + waiting c l' :=
  (Multiset.coe_add l l').symm

theorem toQueued_toBatch {qe : QueuedEvent} (h : qe.channelId = c) :
    BatchEvent.toQueued c qe.toBatch = qe := by
  rw [← h]
  rfl

theorem toQueued_channel (c : Uuid) (l : List BatchEvent) :
    ∀ qe ∈ l.map (BatchEvent.toQueued c), qe.channelId = c := by
  intro qe hqe
  obtain ⟨be, _, rfl⟩ := List.mem_map.mp hqe
  rfl

/-- Every event is stored under its own channel. -/
def KeyedBy (t : Table Uuid (List QueuedEvent)) : Prop :=
  ∀ c, ∀ qe ∈ (t.lookup c).getD [], qe.channelId = c

theorem KeyedBy.insert (h : KeyedBy t) (hl : ∀ qe ∈ l, qe.channelId = c) :
    KeyedBy (t.insert c l) := by
  intro d qe hqe
  by_cases hd : d = c
  · subst hd
    rw [AList.lookup_insert, Option.getD_some] at hqe
    exact hl qe hqe
  · rw [AList.lookup_insert_ne hd] at hqe
    exact h d qe hqe

theorem KeyedBy.erase (h : KeyedBy t) (c : Uuid) : KeyedBy (t.erase c) := by
  intro d qe hqe
  by_cases hd : d = c
  · subst hd
    rw [AList.lookup_erase] at hqe
    cases hqe
  · rw [AList.lookup_erase_ne hd] at hqe
    exact h d qe hqe

theorem KeyedBy.set (h : KeyedBy t) (hl : ∀ qe ∈ l, qe.channelId = c) :
    KeyedBy (if l.isEmpty then t.erase c else t.insert c l) := by
  split
  · exact h.erase c
  · exact h.insert hl

theorem KeyedBy.retainEvents (h : KeyedBy t) (c : Uuid) (p : QueuedEvent → Bool) :
    KeyedBy (retainEvents t c p) := by
  rw [Buzz.retainEvents]
  split
  · exact h
  · rename_i entries hsome
    apply h.set
    intro qe hqe
    apply h c qe
    rw [hsome]
    exact List.mem_of_mem_filter hqe

theorem KeyedBy.perm {t t' : Table Uuid (List QueuedEvent)} (h : KeyedBy t)
    (hperm : t.entries.Perm t'.entries) : KeyedBy t' := by
  intro c qe hqe
  rw [← AList.perm_lookup hperm] at hqe
  exact h c qe hqe

namespace EventQueue

variable {q : EventQueue}

/-- The events in the tables of the queue. -/
def stored (q : EventQueue) : Multiset QueuedEvent :=
  Table.contents waiting q.queues + Table.contents onChannel q.cancelledBatches +
    Table.contents waiting q.withheldNativeSteer

structure Keyed (q : EventQueue) : Prop where
  queues : KeyedBy q.queues
  withheld : KeyedBy q.withheldNativeSteer

/-- The tables that hold events are the same. -/
structure SameTables (q q' : EventQueue) : Prop where
  queues : q'.queues = q.queues
  cancelledBatches : q'.cancelledBatches = q.cancelledBatches
  withheld : q'.withheldNativeSteer = q.withheldNativeSteer

theorem SameTables.stored (h : SameTables q q') : q'.stored = q.stored := by
  rw [EventQueue.stored, h.queues, h.cancelledBatches, h.withheld, EventQueue.stored]

theorem Keyed.sameTables (h : q.Keyed) (hsame : SameTables q q') : q'.Keyed := by
  refine ⟨?_, ?_⟩
  · rw [hsame.queues]
    exact h.queues
  · rw [hsame.withheld]
    exact h.withheld

theorem sameTables_extendInFlightDeadline (q : EventQueue) (now : Instant) (c : Uuid)
    (secs : Nat) : SameTables q (q.extendInFlightDeadline now c secs) := by
  rw [extendInFlightDeadline]
  split
  · exact ⟨rfl, rfl, rfl⟩
  · dsimp only
    split
    · exact ⟨rfl, rfl, rfl⟩
    · exact ⟨rfl, rfl, rfl⟩

theorem sameTables_markComplete (q : EventQueue) (now : Instant) (c : Uuid) :
    SameTables q (q.markComplete now c) := by
  rw [markComplete]
  dsimp only
  split
  · split
    · exact ⟨rfl, rfl, rfl⟩
    · exact ⟨rfl, rfl, rfl⟩
  · exact ⟨rfl, rfl, rfl⟩

/-- What is stored besides the queue of a channel. -/
def besides (q : EventQueue) (c : Uuid) : Multiset QueuedEvent :=
  Table.contents waiting (q.queues.erase c) + Table.contents onChannel q.cancelledBatches +
    Table.contents waiting q.withheldNativeSteer

theorem stored_entry (q : EventQueue) (c : Uuid) :
    q.stored = waiting c (q.entry c) + q.besides c := by
  rw [stored, Table.contents_getD waiting_nil q.queues c, besides, entry]
  abel

theorem stored_insert (q : EventQueue) (c : Uuid) (l : List QueuedEvent) :
    { q with queues := q.queues.insert c l }.stored = waiting c l + q.besides c := by
  rw [stored, Table.contents_insert, besides]
  abel

theorem stored_set (q : EventQueue) (c : Uuid) (l : List QueuedEvent) :
    { q with queues := if l.isEmpty then q.queues.erase c else q.queues.insert c l }.stored =
      waiting c l + q.besides c := by
  rw [stored, Table.contents_set waiting_nil, besides]
  abel

theorem capQueue_contents (c : Uuid) (l : List QueuedEvent) :
    waiting c (capQueue l).1 + waiting c (capQueue l).2 = waiting c l := by
  rw [← waiting_append, capQueue, List.take_append_drop]

theorem stored_pushFront (q : EventQueue) (c : Uuid) (events : List QueuedEvent) :
    (q.pushFront c events).1.stored + waiting c (q.pushFront c events).2 =
      q.stored + waiting c events := by
  rw [pushFront, stored_insert, add_right_comm, capQueue_contents, waiting_append, q.stored_entry c]
  abel

theorem stored_push (q : EventQueue) (event : QueuedEvent) :
    (q.push event).1.stored + waiting event.channelId (q.push event).2.1 =
      q.stored + waiting event.channelId (if (q.push event).2.2 then [event] else []) := by
  rw [push]
  split
  · rfl
  · split
    · have hsplit : waiting event.channelId ((q.entry event.channelId).take 1) +
          waiting event.channelId ((q.entry event.channelId).drop 1) =
          waiting event.channelId (q.entry event.channelId) := by
        rw [← waiting_append, List.take_append_drop]
      rw [stored_insert, waiting_append, if_pos rfl, q.stored_entry event.channelId, ← hsplit]
      abel
    · rw [stored_insert, waiting_append, if_pos rfl, q.stored_entry event.channelId, waiting_nil]
      abel

theorem stored_recover (q : EventQueue) (c : Uuid) :
    (q.recoverWithheldForExpiredChannel c).1.stored +
      waiting c (q.recoverWithheldForExpiredChannel c).2 = q.stored := by
  rw [recoverWithheldForExpiredChannel]
  split
  · rw [waiting_nil, add_zero]
  · rename_i entries hlookup
    rw [stored_pushFront, stored, stored, Table.contents_getD waiting_nil q.withheldNativeSteer c,
      hlookup, Option.getD_some]
    abel

theorem stored_expireChannels (q : EventQueue) (ids : List Uuid) :
    (q.expireChannels ids).1.stored + ((q.expireChannels ids).2 : List QueuedEvent) = q.stored := by
  induction ids generalizing q with
  | nil => exact add_zero _
  | cons id ids ih =>
    have hone : (q.expireChannel id).1.stored + waiting id (q.expireChannel id).2 = q.stored :=
      stored_recover _ id
    rw [expireChannels, ← hone, ← ih (q.expireChannel id).1, ← Multiset.coe_add]
    change _ + (waiting id _ + _) = _ + _ + waiting id _
    abel

theorem stored_expireInFlight (q : EventQueue) (now : Instant) :
    (q.expireInFlight now).1.stored + ((q.expireInFlight now).2 : List QueuedEvent) = q.stored :=
  q.stored_expireChannels (q.expired now)

theorem stored_markInFlight (q : EventQueue) (now : Instant) (c : Uuid) (size : Nat) :
    (q.markInFlight now c size).stored + onChannel c ((q.cancelledBatches.lookup c).getD []) =
      q.stored := by
  rw [stored, stored, Table.contents_getD onChannel_nil q.cancelledBatches c]
  change Table.contents waiting q.queues + Table.contents onChannel (q.cancelledBatches.erase c) +
    Table.contents waiting q.withheldNativeSteer + _ = _
  abel

theorem onChannel_drainedEvents (h : q.Keyed) (c : Uuid) :
    onChannel c (q.drainedEvents c) = waiting c ((q.entry c).take MAX_BATCH_EVENTS) := by
  have hback : (((q.entry c).take MAX_BATCH_EVENTS).map QueuedEvent.toBatch).map
      (BatchEvent.toQueued c) = (q.entry c).take MAX_BATCH_EVENTS := by
    rw [List.map_map]
    conv_rhs => rw [← List.map_id ((q.entry c).take MAX_BATCH_EVENTS)]
    apply List.map_congr_left
    intro qe hqe
    exact toQueued_toBatch (h.queues c qe (List.mem_of_mem_take hqe))
  rw [onChannel, drainedEvents, Multiset.coe_eq_coe.mpr ((List.mergeSort_perm _ _).map _), hback]
  rfl

theorem stored_drainQueue (h : q.Keyed) (c : Uuid) :
    (q.drainQueue c).stored + onChannel c (q.drainedEvents c) = q.stored := by
  have hsplit : waiting c ((q.entry c).take MAX_BATCH_EVENTS) +
      waiting c ((q.entry c).drop MAX_BATCH_EVENTS) = waiting c (q.entry c) := by
    rw [← waiting_append, List.take_append_drop]
  rw [onChannel_drainedEvents h, drainQueue, stored_set, q.stored_entry c, ← hsplit]
  abel

theorem stored_flushReady (h : q.Keyed) (now : Instant) :
    (q.flushReady now).1.stored + batchContents (q.flushReady now).2 = q.stored := by
  rw [flushReady]
  split
  · rename_i id _
    have hmark := stored_markInFlight (q.drainQueue id) now id (q.drainedEvents id).length
    have hdrain := stored_drainQueue h id
    change ((q.drainQueue id).markInFlight now id (q.drainedEvents id).length).stored +
      (onChannel id (q.drainedEvents id) + onChannel id ((q.cancelledBatches.lookup id).getD [])) =
        q.stored
    rw [← hdrain, ← hmark]
    change _ = (_ + onChannel id ((q.cancelledBatches.lookup id).getD [])) + _
    abel
  · split
    · rename_i id _
      have hmark := stored_markInFlight q now id ((q.cancelledBatches.lookup id).getD []).length
      change (q.markInFlight now id ((q.cancelledBatches.lookup id).getD []).length).stored +
        (onChannel id ((q.cancelledBatches.lookup id).getD []) + onChannel id []) = q.stored
      rw [onChannel_nil, add_zero, hmark]
    · rw [batchContents, Option.elim_none, add_zero]

/-- Taking the first event that matches out of a list keeps the events. -/
theorem waiting_eraseP {l : List QueuedEvent} (c : Uuid) (hfind : l.find? p = some qe) :
    waiting c [qe] + waiting c (l.eraseP p) = waiting c l := by
  induction l with
  | nil => cases hfind
  | cons a l ih =>
    rw [List.find?_cons] at hfind
    rw [List.eraseP_cons]
    cases ha : p a with
    | true =>
      rw [ha] at hfind
      cases hfind
      rw [cond_true, ← waiting_append, List.singleton_append]
    | false =>
      rw [ha] at hfind
      have hcons : ∀ l', waiting c (a :: l') = waiting c [a] + waiting c l' :=
        waiting_append c [a]
      rw [cond_false, hcons (l.eraseP p), hcons l, ← ih hfind]
      abel

theorem stored_markNativeSteerPending (q : EventQueue) (c : Uuid) (eventId : String) :
    (q.markNativeSteerPending c eventId).1.stored = q.stored := by
  rw [markNativeSteerPending]
  split
  · rfl
  · rename_i qe hfind
    have herase := waiting_eraseP c hfind
    dsimp only
    rw [stored, Table.contents_set waiting_nil, Table.contents_insert, waiting_append, stored,
      Table.contents_getD waiting_nil q.queues c,
      Table.contents_getD waiting_nil q.withheldNativeSteer c]
    change _ = waiting c (q.entry c) + _ + _ + _
    rw [← herase]
    abel

theorem stored_releaseNativeSteer (q : EventQueue) (c : Uuid) (eventId : String) :
    (q.releaseNativeSteer c eventId).1.stored + waiting c (q.releaseNativeSteer c eventId).2 =
      q.stored := by
  rw [releaseNativeSteer]
  dsimp only
  split
  · rw [waiting_nil, add_zero]
  · rename_i qe hfind
    have herase := waiting_eraseP c hfind
    rw [stored_pushFront, stored, Table.contents_set waiting_nil, stored,
      Table.contents_getD waiting_nil q.withheldNativeSteer c, ← herase]
    abel

theorem stored_requeue (q : EventQueue) (now : Instant) (jittered : Nat → Duration)
    (b : FlushBatch) :
    (q.requeue now jittered b).1.stored + waiting b.channelId (q.requeue now jittered b).2.1 +
      batchContents (q.requeue now jittered b).2.2 +
      (if MAX_RETRIES < q.attempt b.channelId then 0 else onChannel b.channelId b.cancelledEvents) =
      q.stored + b.contents := by
  rw [requeue]
  split
  · change q.stored + waiting _ [] + b.contents + 0 = _
    rw [waiting_nil, add_zero, add_zero]
  · have hfront := stored_pushFront { q with
      retryCounts := q.retryCounts.insert b.channelId (q.attempt b.channelId) } b.channelId
        (b.events.map (BatchEvent.toQueued b.channelId))
    change _ = q.stored + onChannel b.channelId b.events at hfront
    rw [FlushBatch.contents, ← add_assoc, ← hfront, batchContents, Option.elim_none, add_zero]
    rfl

theorem stored_requeuePreserveTimestamps (q : EventQueue) (b : FlushBatch) :
    (q.requeuePreserveTimestamps b).1.stored +
      waiting b.channelId (q.requeuePreserveTimestamps b).2 +
      onChannel b.channelId b.cancelledEvents = q.stored + b.contents := by
  rw [requeuePreserveTimestamps, stored_pushFront, FlushBatch.contents, add_assoc]
  rfl

theorem stored_requeueAsCancelled (q : EventQueue) (b : FlushBatch) (reason : CancelReason) :
    (q.requeueAsCancelled b reason).stored = q.stored + b.contents := by
  rw [requeueAsCancelled, stored, Table.contents_insert, onChannel_append, onChannel_append, stored,
    Table.contents_getD onChannel_nil q.cancelledBatches b.channelId, FlushBatch.contents]
  abel

/-- The events that `drain_channel` takes out. -/
def drained (q : EventQueue) (c : Uuid) : Multiset QueuedEvent :=
  waiting c (q.entry c) + onChannel c ((q.cancelledBatches.lookup c).getD []) +
    waiting c ((q.withheldNativeSteer.lookup c).getD [])

theorem stored_drainChannel (q : EventQueue) (c : Uuid) :
    (q.drainChannel c).1.stored + q.drained c = q.stored := by
  rw [drainChannel, stored, stored, Table.contents_getD waiting_nil q.queues c,
    Table.contents_getD waiting_nil q.withheldNativeSteer c,
    Table.contents_getD onChannel_nil q.cancelledBatches c, drained, entry]
  abel

/-- The events that `remove_event` takes out. -/
def removed (q : EventQueue) (c : Uuid) (eventId : String) : Multiset QueuedEvent :=
  waiting c (((q.withheldNativeSteer.lookup c).getD []).filter (hasId eventId)) +
    waiting c ((q.entry c).filter (hasId eventId))

theorem contents_retainEvents (t : Table Uuid (List QueuedEvent)) (c : Uuid)
    (p : QueuedEvent → Bool) :
    Table.contents waiting (retainEvents t c fun qe => !p qe) +
      waiting c (((t.lookup c).getD []).filter p) = Table.contents waiting t := by
  rw [retainEvents]
  split
  · rename_i hnone
    rw [hnone, Option.getD_none, List.filter_nil, waiting_nil, add_zero]
  · rename_i entries hsome
    have hsplit : waiting c (entries.filter p) + waiting c (entries.filter fun qe => !p qe) =
        waiting c entries := by
      rw [← waiting_append]
      exact Multiset.coe_eq_coe.mpr (List.filter_append_perm p entries)
    rw [Table.contents_set waiting_nil, Table.contents_getD waiting_nil t c, hsome,
      Option.getD_some, ← hsplit]
    abel

theorem stored_removeEvent (q : EventQueue) (c : Uuid) (eventId : String) :
    (q.removeEvent c eventId).stored + q.removed c eventId = q.stored := by
  rw [removeEvent, stored, stored, removed,
    ← contents_retainEvents q.withheldNativeSteer c (hasId eventId),
    ← contents_retainEvents q.queues c (hasId eventId), entry]
  abel

theorem Keyed.pushFront (h : q.Keyed) (hl : ∀ qe ∈ l, qe.channelId = c) :
    (q.pushFront c l).1.Keyed := by
  refine ⟨h.queues.insert ?_, h.withheld⟩
  intro qe hqe
  rcases List.mem_append.mp (List.mem_of_mem_take hqe) with hnew | hold
  · exact hl qe hnew
  · exact h.queues c qe hold

theorem Keyed.expireChannel (h : q.Keyed) (c : Uuid) : (q.expireChannel c).1.Keyed := by
  rw [EventQueue.expireChannel, recoverWithheldForExpiredChannel]
  split
  · exact ⟨h.queues, h.withheld⟩
  · rename_i entries hsome
    have herased : Keyed { q with withheldNativeSteer := q.withheldNativeSteer.erase c } :=
      ⟨h.queues, h.withheld.erase c⟩
    have hentries : ∀ qe ∈ entries, qe.channelId = c := by
      intro qe hqe
      apply h.withheld c qe
      have hlookup : q.withheldNativeSteer.lookup c = some entries := hsome
      rw [hlookup]
      exact hqe
    have hfront := herased.pushFront hentries
    exact ⟨hfront.queues, hfront.withheld⟩

theorem Keyed.expireChannels (h : q.Keyed) (ids : List Uuid) : (q.expireChannels ids).1.Keyed := by
  induction ids generalizing q with
  | nil => exact h
  | cons id ids ih => exact ih (h.expireChannel id)

theorem Keyed.drainQueue (h : q.Keyed) (c : Uuid) : (q.drainQueue c).Keyed :=
  ⟨h.queues.set fun qe hqe => h.queues c qe (List.mem_of_mem_drop hqe), h.withheld⟩

theorem Keyed.flushReady (h : q.Keyed) (now : Instant) : (q.flushReady now).1.Keyed := by
  rw [EventQueue.flushReady]
  split
  · exact ⟨(h.drainQueue _).queues, h.withheld⟩
  · split
    · exact ⟨h.queues, h.withheld⟩
    · exact h

theorem Keyed.push (h : q.Keyed) (event : QueuedEvent) : (q.push event).1.Keyed := by
  have hqueues : ∀ l : List QueuedEvent, (∀ qe ∈ l, qe.channelId = event.channelId) →
      KeyedBy (q.queues.insert event.channelId (l ++ [event])) := by
    intro l hl
    apply h.queues.insert
    intro qe hqe
    rcases List.mem_append.mp hqe with hold | hnew
    · exact hl qe hold
    · rw [List.mem_singleton.mp hnew]
  have hentry := h.queues event.channelId
  rw [EventQueue.push]
  split
  · exact h
  · split
    · exact ⟨hqueues _ fun qe hqe => hentry qe (List.mem_of_mem_drop hqe), h.withheld⟩
    · exact ⟨hqueues _ hentry, h.withheld⟩

theorem Keyed.requeue (h : q.Keyed) (now : Instant) (jittered : Nat → Duration) (b : FlushBatch) :
    (q.requeue now jittered b).1.Keyed := by
  rw [EventQueue.requeue]
  split
  · exact ⟨h.queues, h.withheld⟩
  · have hfront := h.pushFront (toQueued_channel b.channelId b.events)
    exact ⟨hfront.queues, hfront.withheld⟩

theorem Keyed.markNativeSteerPending (h : q.Keyed) (c : Uuid) (eventId : String) :
    (q.markNativeSteerPending c eventId).1.Keyed := by
  rw [EventQueue.markNativeSteerPending]
  split
  · exact h
  · rename_i qe hfind
    refine ⟨h.queues.set fun x hx => h.queues c x (List.mem_of_mem_eraseP hx), h.withheld.insert ?_⟩
    intro x hx
    rcases List.mem_append.mp hx with hold | hnew
    · exact h.withheld c x hold
    · rw [List.mem_singleton.mp hnew]
      exact h.queues c qe (List.mem_of_find?_eq_some hfind)

theorem Keyed.releaseNativeSteer (h : q.Keyed) (c : Uuid) (eventId : String) :
    (q.releaseNativeSteer c eventId).1.Keyed := by
  rw [EventQueue.releaseNativeSteer]
  dsimp only
  split
  · exact h
  · rename_i qe hfind
    refine Keyed.pushFront ⟨h.queues, h.withheld.set ?_⟩ ?_
    · intro x hx
      exact h.withheld c x (List.mem_of_mem_eraseP hx)
    · intro x hx
      rw [List.mem_singleton.mp hx]
      exact h.withheld c qe (List.mem_of_find?_eq_some hfind)

theorem Keyed.apply (h : q.Keyed) (op : QueueOp) : (q.apply op).1.Keyed := by
  cases op with
  | withInFlightDeadline secs => exact ⟨h.queues, h.withheld⟩
  | extendInFlightDeadline now c secs =>
    exact h.sameTables (q.sameTables_extendInFlightDeadline now c secs)
  | push event => exact h.push event
  | flushNext now => exact (h.expireChannels _).flushReady now
  | markComplete now c => exact h.sameTables (q.sameTables_markComplete now c)
  | requeue now jittered b => exact h.requeue now jittered b
  | requeuePreserveTimestamps b => exact h.pushFront (toQueued_channel b.channelId b.events)
  | requeueAsCancelled b reason => exact ⟨h.queues, h.withheld⟩
  | hasFlushableWork now => exact h.expireChannels _
  | drainChannel c => exact ⟨h.queues.erase c, h.withheld.erase c⟩
  | markNativeSteerPending c eventId => exact h.markNativeSteerPending c eventId
  | releaseNativeSteer c eventId => exact h.releaseNativeSteer c eventId
  | removeEvent c eventId => exact ⟨h.queues.retainEvents c _, h.withheld.retainEvents c _⟩
  | compactExpiredState now => exact ⟨h.queues, h.withheld⟩

/-- What an operation drops: what it lets its caller see, what it is asked to take out, and the
cancelled events of a batch that goes back to its queue. -/
def discarded (q : EventQueue) (op : QueueOp) (out : Outcome) : Multiset QueuedEvent :=
  (out.dropped : List QueuedEvent) + batchContents out.deadLettered +
    match op with
    | .requeue _ _ b =>
      if MAX_RETRIES < q.attempt b.channelId then 0 else onChannel b.channelId b.cancelledEvents
    | .requeuePreserveTimestamps b => onChannel b.channelId b.cancelledEvents
    | .drainChannel c => q.drained c
    | .removeEvent c eventId => q.removed c eventId
    | _ => 0

/-- An operation moves events between the tables, the batch that it hands out and the batch that
it is handed. -/
theorem stored_apply (h : q.Keyed) (op : QueueOp) :
    (q.apply op).1.stored + batchContents (q.apply op).2.flushed +
      q.discarded op (q.apply op).2 =
      q.stored + (q.apply op).2.accepted.elim 0 ({·}) + batchContents op.handed := by
  cases op with
  | withInFlightDeadline secs => rfl
  | extendInFlightDeadline now id secs =>
    have hsame := (q.sameTables_extendInFlightDeadline now id secs).stored
    change (q.extendInFlightDeadline now id secs).stored + 0 + (0 + 0 + 0) = q.stored + 0 + 0
    rw [hsame]
    abel
  | push event =>
    have hpush := q.stored_push event
    change (q.push event).1.stored + 0 + (waiting event.channelId (q.push event).2.1 + 0 + 0) =
      q.stored + _ + 0
    rw [add_zero, add_zero, add_zero, add_zero, hpush]
    change _ = q.stored + (if (q.push event).2.2 then some event else none).elim 0 ({·})
    cases (q.push event).2.2 with
    | true => rfl
    | false => rfl
  | flushNext now =>
    have hkeyed : (q.expireInFlight now).1.Keyed := h.expireChannels _
    have hflush := stored_flushReady hkeyed now
    rw [← q.stored_expireInFlight now, ← hflush]
    change ((q.expireInFlight now).1.flushReady now).1.stored +
      batchContents ((q.expireInFlight now).1.flushReady now).2 +
      (Multiset.ofList (q.expireInFlight now).2 + 0 + 0) = _ + _ + 0 + 0
    abel
  | markComplete now id =>
    have hsame := (q.sameTables_markComplete now id).stored
    change (q.markComplete now id).stored + 0 + (0 + 0 + 0) = q.stored + 0 + 0
    rw [hsame]
    abel
  | requeue now jittered b =>
    have hrequeue := q.stored_requeue now jittered b
    change (q.requeue now jittered b).1.stored + 0 +
      (waiting b.channelId (q.requeue now jittered b).2.1 +
        batchContents (q.requeue now jittered b).2.2 + _) = q.stored + 0 + b.contents
    rw [add_zero, add_zero, ← hrequeue]
    abel
  | requeuePreserveTimestamps b =>
    have hrequeue := q.stored_requeuePreserveTimestamps b
    change (q.requeuePreserveTimestamps b).1.stored + 0 +
      (waiting b.channelId (q.requeuePreserveTimestamps b).2 + 0 + _) = q.stored + 0 + b.contents
    rw [add_zero, add_zero, add_zero, ← hrequeue]
    abel
  | requeueAsCancelled b reason =>
    change (q.requeueAsCancelled b reason).stored + 0 + (0 + 0 + 0) = q.stored + 0 + b.contents
    rw [stored_requeueAsCancelled]
    abel
  | hasFlushableWork now =>
    change (q.expireInFlight now).1.stored + 0 +
      (Multiset.ofList (q.expireInFlight now).2 + 0 + 0) = q.stored + 0 + 0
    rw [← q.stored_expireInFlight now]
    abel
  | drainChannel c =>
    change (q.drainChannel c).1.stored + 0 + (0 + 0 + q.drained c) = q.stored + 0 + 0
    rw [← q.stored_drainChannel c]
    abel
  | markNativeSteerPending c eventId =>
    change (q.markNativeSteerPending c eventId).1.stored + 0 + (0 + 0 + 0) = q.stored + 0 + 0
    rw [stored_markNativeSteerPending]
    abel
  | releaseNativeSteer c eventId =>
    change (q.releaseNativeSteer c eventId).1.stored + 0 +
      (waiting c (q.releaseNativeSteer c eventId).2 + 0 + 0) = q.stored + 0 + 0
    rw [← q.stored_releaseNativeSteer c eventId]
    abel
  | removeEvent c eventId =>
    change (q.removeEvent c eventId).stored + 0 + (0 + 0 + q.removed c eventId) = q.stored + 0 + 0
    rw [← q.stored_removeEvent c eventId]
    abel
  | compactExpiredState now => rfl

theorem Reordered.refl (q : EventQueue) : Reordered q q :=
  ⟨.refl _, rfl, .refl _, .refl _, .refl _, .refl _, rfl, .refl _, .refl _, .refl _, rfl⟩

theorem Keyed.reordered (h : q.Keyed) (hr : q.Reordered q') : q'.Keyed :=
  ⟨h.queues.perm hr.queues, h.withheld.perm hr.withheldNativeSteer⟩

theorem Reordered.stored (hr : Reordered q q') : q'.stored = q.stored := by
  rw [EventQueue.stored, EventQueue.stored, Table.contents_perm _ hr.queues,
    Table.contents_perm _ hr.cancelledBatches, Table.contents_perm _ hr.withheldNativeSteer]

/-- What is discarded does not depend on the order of iteration. -/
theorem Reordered.discarded (hr : Reordered q q') (op : QueueOp) (out : Outcome) :
    q'.discarded op out = q.discarded op out := by
  have hentry : ∀ c, q'.entry c = q.entry c := fun c => by
    rw [entry, entry, AList.perm_lookup hr.queues]
  cases op with
  | requeue now jittered b =>
    rw [EventQueue.discarded, EventQueue.discarded, attempt, attempt, AList.perm_lookup hr.retryCounts]
  | drainChannel c =>
    rw [EventQueue.discarded, EventQueue.discarded, drained, drained, hentry, AList.perm_lookup hr.cancelledBatches,
      AList.perm_lookup hr.withheldNativeSteer]
  | removeEvent c eventId =>
    rw [EventQueue.discarded, EventQueue.discarded, removed, removed, hentry, AList.perm_lookup hr.withheldNativeSteer]
  | _ => rfl

end EventQueue

/-- Where a flushed batch stands that was not handed back. -/
inductive FlushStatus where
  | inFlight
  | released
  | orphaned
deriving DecidableEq

structure Flushed where
  batch : FlushBatch
  status : FlushStatus

/-- The queue, with the batches that its caller holds. -/
structure Session where
  queue : EventQueue
  ledger : List Flushed

def Session.new (dedupMode : DedupMode) : Session :=
  ⟨.new dedupMode, []⟩

/-- The batches in flight on channels whose deadline has passed are orphaned. -/
def Flushed.expire (ids : List Uuid) (f : Flushed) : Flushed :=
  if f.status = .inFlight ∧ f.batch.channelId ∈ ids then { f with status := .orphaned } else f

/-- The batch stays with the caller when its channel is marked complete. -/
def Flushed.release (channelId : Uuid) (f : Flushed) : Flushed :=
  if f.status = .inFlight ∧ f.batch.channelId = channelId then { f with status := .released } else f

/-- How the caller's batches change. A batch is handed back once. -/
inductive LedgerStep (q : EventQueue) (out : Outcome) :
    QueueOp → List Flushed → List Flushed → Prop where
  | flush : LedgerStep q out (.flushNext now) ledger
      (ledger.map (Flushed.expire (q.expired now)) ++ (out.flushed.map fun b => ⟨b, .inFlight⟩).toList)
  | flushable : LedgerStep q out (.hasFlushableWork now) ledger
      (ledger.map (Flushed.expire (q.expired now)))
  | complete : LedgerStep q out (.markComplete now c) ledger (ledger.map (Flushed.release c))
  | handBack (before : List Flushed) (f : Flushed) (after : List Flushed)
    (h : op.handed = some f.batch) :
    LedgerStep q out op (before ++ f :: after) (before ++ after)
  | keep (h : op.handed = none) (hflush : ∀ now, op ≠ .flushNext now)
    (hwork : ∀ now, op ≠ .hasFlushableWork now) (hcomplete : ∀ now c, op ≠ .markComplete now c) :
    LedgerStep q out op ledger ledger

namespace Session

/-- The events of the caller's batches of some standing. -/
def holding (p : FlushStatus → Bool) (ledger : List Flushed) : Multiset QueuedEvent :=
  ((ledger.filter fun f => p f.status).map fun f => f.batch.contents).sum

/-- The events in the tables and in the outstanding batches. -/
def held (s : Session) : Multiset QueuedEvent :=
  s.queue.stored + holding (· != .orphaned) s.ledger

def orphaned (s : Session) : Multiset QueuedEvent :=
  holding (· == .orphaned) s.ledger

/-- The events of all batches that the caller has. -/
def outstanding (ledger : List Flushed) : Multiset QueuedEvent :=
  (ledger.map fun f => f.batch.contents).sum

theorem held_add_orphaned (s : Session) :
    s.held + s.orphaned = s.queue.stored + outstanding s.ledger := by
  have hsplit : ∀ ledger, holding (· != .orphaned) ledger + holding (· == .orphaned) ledger =
      outstanding ledger := by
    intro ledger
    induction ledger with
    | nil => rfl
    | cons f ledger ih =>
      rw [outstanding, List.map_cons, List.sum_cons, ← outstanding, ← ih]
      obtain ⟨b, status⟩ := f
      cases status with
      | inFlight => exact add_assoc _ _ _
      | released => exact add_assoc _ _ _
      | orphaned =>
        change holding (· != .orphaned) ledger + (b.contents + holding (· == .orphaned) ledger) =
          b.contents + (holding (· != .orphaned) ledger + holding (· == .orphaned) ledger)
        abel
  rw [held, orphaned, add_assoc, hsplit]

theorem outstanding_map (g : Flushed → Flushed) (hg : ∀ f, (g f).batch = f.batch)
    (ledger : List Flushed) : outstanding (ledger.map g) = outstanding ledger := by
  rw [outstanding, outstanding, List.map_map]
  congr 1
  apply List.map_congr_left
  intro f _
  rw [Function.comp_apply, hg]

theorem outstanding_append (l l' : List Flushed) :
    outstanding (l ++ l') = outstanding l + outstanding l' := by
  rw [outstanding, List.map_append, List.sum_append]
  rfl

theorem expire_batch (ids : List Uuid) (f : Flushed) : (f.expire ids).batch = f.batch := by
  rw [Flushed.expire]
  split
  · rfl
  · rfl

theorem release_batch (c : Uuid) (f : Flushed) : (f.release c).batch = f.batch := by
  rw [Flushed.release]
  split
  · rfl
  · rfl

end Session

/-- The caller's batches after a flush that gives out a batch. -/
theorem LedgerStep.flushed {q : EventQueue} (h : (q.flushNext now).2.2 = some b) :
    LedgerStep q (q.apply (.flushNext now)).2 (.flushNext now) l
      (l.map (Flushed.expire (q.expired now)) ++ [⟨b, .inFlight⟩]) := by
  have hflush : (q.apply (.flushNext now)).2.flushed = some b := h
  have hstep : LedgerStep q (q.apply (.flushNext now)).2 (.flushNext now) l _ := .flush
  rw [hflush] at hstep
  exact hstep

theorem EventQueue.apply_flushed (q : EventQueue) (op : QueueOp) (h : ∀ now, op ≠ .flushNext now) :
    (q.apply op).2.flushed = none := by
  cases op with
  | flushNext now => exact absurd rfl (h now)
  | _ => rfl

open Session in
/-- The caller's batches change by the one that is flushed and the one that is handed back. -/
theorem LedgerStep.balance (h : LedgerStep q (q.apply op).2 op l l') :
    outstanding l' + batchContents op.handed =
      outstanding l + batchContents (q.apply op).2.flushed := by
  cases h with
  | @flush now =>
    rw [outstanding_append, outstanding_map _ (expire_batch _)]
    change _ + 0 = _
    rw [add_zero]
    congr 1
    cases (q.apply (.flushNext now)).2.flushed with
    | none => rfl
    | some b => exact add_zero _
  | flushable => exact congrArg (· + 0) (outstanding_map _ (expire_batch _) l)
  | complete => exact congrArg (· + 0) (outstanding_map _ (release_batch _) l)
  | handBack before f after hop =>
    have hflush : (q.apply op).2.flushed = none := by
      apply EventQueue.apply_flushed
      intro now he
      rw [he] at hop
      cases hop
    rw [hop, hflush, outstanding_append, outstanding_append]
    change _ + _ + f.batch.contents = _ + (f.batch.contents + outstanding after) + 0
    abel
  | keep hop hflush => rw [hop, EventQueue.apply_flushed q op hflush]

namespace Session

/-- An operation of the queue, on tables in some order of iteration. -/
def Step (s : Session) (op : QueueOp) (out : Outcome) (t : Session) : Prop :=
  ∃ q, s.queue.Reordered q ∧ q.apply op = (t.queue, out) ∧ LedgerStep q out op s.ledger t.ledger

/-- Every state that the public operations lead to. -/
inductive Reachable (dedupMode : DedupMode) : Session → Prop where
  | new : Reachable dedupMode (.new dedupMode)
  | step (h : Reachable dedupMode s) (hstep : s.Step op out t) : Reachable dedupMode t

theorem Reachable.keyed (h : Reachable dedupMode s) : s.queue.Keyed := by
  induction h with
  | new =>
    refine ⟨?_, ?_⟩
    · intro c qe hqe
      cases hqe
    · intro c qe hqe
      cases hqe
  | @step s op out t _ hstep ih =>
    obtain ⟨q, hr, happly, _⟩ := hstep
    have hkeyed := (ih.reordered hr).apply op
    rw [happly] at hkeyed
    exact hkeyed

variable {s t : Session}

/-- A step moves events between the tables and the caller, takes in what it accepts and gives up
what it discards. -/
theorem Step.balance (h : s.queue.Keyed) (hstep : s.Step op out t) :
    t.held + t.orphaned + s.queue.discarded op out =
      s.held + s.orphaned + out.accepted.elim 0 ({·}) := by
  obtain ⟨q, hr, happly, hledger⟩ := hstep
  have hqueue : t.queue = (q.apply op).1 := by rw [happly]
  have hout : out = (q.apply op).2 := by rw [happly]
  rw [hout] at hledger
  have hstored := EventQueue.stored_apply (h.reordered hr) op
  have hcaller := hledger.balance
  rw [held_add_orphaned, held_add_orphaned, ← hr.stored, ← hr.discarded, hqueue, hout]
  -- what is handed out and what is handed back stand on both sides
  apply add_right_cancel (b := batchContents (q.apply op).2.flushed + batchContents op.handed)
  calc
    _ = ((q.apply op).1.stored + batchContents (q.apply op).2.flushed +
          q.discarded op (q.apply op).2) +
        (outstanding t.ledger + batchContents op.handed) := by abel
    _ = (q.stored + (q.apply op).2.accepted.elim 0 ({·}) + batchContents op.handed) +
        (outstanding s.ledger + batchContents (q.apply op).2.flushed) := by rw [hstored, hcaller]
    _ = _ := by abel

end Session

end Buzz
