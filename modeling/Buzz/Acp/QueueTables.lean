import Buzz.Acp.QueueLoss

namespace Buzz
set_option autoImplicit true

/-- A list put in a table that keeps no empty ones. -/
theorem Table.All.set {P : List QueuedEvent → Prop} {t : Table Uuid (List QueuedEvent)}
    (h : Table.All P t) (c : Uuid) (hl : l ≠ [] → P l) :
    Table.All P (if l.isEmpty then t.erase c else t.insert c l) := by
  cases l with
  | nil => exact h.erase c
  | cons qe l => exact h.insert c (hl nofun)

theorem Table.All.retainEvents {P : List QueuedEvent → Prop} {t : Table Uuid (List QueuedEvent)}
    (h : Table.All P t) (c : Uuid) (p : QueuedEvent → Bool)
    (hp : ∀ l, P l → l.filter p ≠ [] → P (l.filter p)) : Table.All P (retainEvents t c p) := by
  rw [Buzz.retainEvents]
  split
  · exact h
  · rename_i entries hsome
    exact h.set c (hp entries (h c entries hsome))

namespace EventQueue

/-- The states that a sequence of public operations leads to from a new queue. -/
inductive Reaches (mode : DedupMode) : List QueueOp → EventQueue → Prop where
  | new : Reaches mode [] (.new mode)
  | step (h : Reaches mode ops q) (hstep : q.Step op out q') :
    Reaches mode (ops ++ [op]) q'

variable {q : EventQueue}

theorem Reaches.apply (h : Reaches mode ops q) (op : QueueOp) :
    Reaches mode (ops ++ [op]) (q.apply op).1 :=
  h.step ⟨q, .refl q, rfl⟩

/-- The tables of a queue agree with each other. -/
structure Consistent (q : EventQueue) : Prop where
  deadlines : ∀ c, c ∈ q.inFlightDeadlines ↔ c ∈ q.inFlightChannels
  batchSizes : ∀ c, c ∈ q.inFlightBatchSizes ↔ c ∈ q.inFlightChannels
  capped : Table.All (fun l => l.length ≤ MAX_PENDING_PER_CHANNEL) q.queues
  reasons : ∀ c ∈ q.cancelReasons, c ∈ q.cancelledBatches

/-- No key of the two event tables has an empty list. -/
structure NoEmptyLists (q : EventQueue) : Prop where
  queues : Table.All (· ≠ []) q.queues
  withheld : Table.All (· ≠ []) q.withheldNativeSteer

theorem Consistent.entry_length (h : q.Consistent) (c : Uuid) :
    (q.entry c).length ≤ MAX_PENDING_PER_CHANNEL := by
  rw [entry]
  cases hq : q.queues.lookup c with
  | none => exact Nat.zero_le _
  | some l => exact h.capped c l hq

theorem Consistent.withQueues (h : q.Consistent)
    (ht : Table.All (fun l => l.length ≤ MAX_PENDING_PER_CHANNEL) t) :
    Consistent { q with queues := t } :=
  ⟨h.deadlines, h.batchSizes, ht, h.reasons⟩

theorem Consistent.pushFront (h : q.Consistent) (c : Uuid) (l : List QueuedEvent) :
    (q.pushFront c l).1.Consistent :=
  h.withQueues (h.capped.insert c (List.length_take_le _ _))

/-- A channel that leaves the flight leaves all three tables. -/
theorem Consistent.land (h : q.Consistent) (c : Uuid) :
    Consistent { q with
      inFlightBatchSizes := q.inFlightBatchSizes.erase c
      inFlightChannels := q.inFlightChannels.erase c
      inFlightDeadlines := q.inFlightDeadlines.erase c } := by
  refine ⟨fun d => ?_, fun d => ?_, h.capped, h.reasons⟩
  · rw [AList.mem_erase, Finset.mem_erase, h.deadlines]
  · rw [AList.mem_erase, Finset.mem_erase, h.batchSizes]

theorem Consistent.expireChannel (h : q.Consistent) (c : Uuid) :
    (q.expireChannel c).1.Consistent := by
  have hland := h.land c
  rw [EventQueue.expireChannel, recoverWithheldForExpiredChannel]
  split
  · exact hland
  · have hwithheld : Consistent { q with
        inFlightBatchSizes := q.inFlightBatchSizes.erase c
        inFlightChannels := q.inFlightChannels.erase c
        inFlightDeadlines := q.inFlightDeadlines.erase c
        withheldNativeSteer := q.withheldNativeSteer.erase c } :=
      ⟨hland.deadlines, hland.batchSizes, hland.capped, hland.reasons⟩
    exact hwithheld.pushFront c _

theorem Consistent.expireChannels (h : q.Consistent) (ids : List Uuid) :
    (q.expireChannels ids).1.Consistent := by
  induction ids generalizing q with
  | nil => exact h
  | cons id ids ih => exact ih (h.expireChannel id)

theorem Consistent.drainQueue (h : q.Consistent) (c : Uuid) : (q.drainQueue c).Consistent := by
  apply h.withQueues
  apply h.capped.set c
  intro _
  rw [List.length_drop]
  exact (Nat.sub_le _ _).trans (h.entry_length c)

/-- A channel that goes in flight enters all three tables, and its cancelled events leave both. -/
theorem Consistent.markInFlight (h : q.Consistent) (now : Instant) (c : Uuid) (size : Nat) :
    (q.markInFlight now c size).Consistent := by
  refine ⟨fun d => ?_, fun d => ?_, h.capped, fun d hd => ?_⟩
  · change d ∈ q.inFlightDeadlines.insert c _ ↔ d ∈ insert c q.inFlightChannels
    rw [AList.mem_insert, Finset.mem_insert, h.deadlines]
  · change d ∈ q.inFlightBatchSizes.insert c _ ↔ d ∈ insert c q.inFlightChannels
    rw [AList.mem_insert, Finset.mem_insert, h.batchSizes]
  · have hd' : d ∈ q.cancelReasons.erase c := hd
    change d ∈ q.cancelledBatches.erase c
    rw [AList.mem_erase] at hd' ⊢
    exact ⟨hd'.1, h.reasons d hd'.2⟩

theorem Consistent.flushReady (h : q.Consistent) (now : Instant) :
    (q.flushReady now).1.Consistent := by
  rw [EventQueue.flushReady]
  split
  · exact (h.drainQueue _).markInFlight now _ _
  · split
    · exact h.markInFlight now _ _
    · exact h

theorem Consistent.push (h : q.Consistent) (event : QueuedEvent) :
    (q.push event).1.Consistent := by
  have hlen := h.entry_length event.channelId
  rw [EventQueue.push]
  split
  · exact h
  · split
    · apply h.withQueues
      apply h.capped.insert
      rw [List.length_append, List.length_drop, List.length_singleton]
      have hcap : 1 ≤ MAX_PENDING_PER_CHANNEL := by decide
      omega
    · rename_i hroom
      apply h.withQueues
      apply h.capped.insert
      rw [List.length_append, List.length_singleton]
      omega

theorem Consistent.extend (h : q.Consistent) (now : Instant) (c : Uuid) (secs : Nat) :
    (q.extendInFlightDeadline now c secs).Consistent := by
  rw [extendInFlightDeadline]
  split
  · exact h
  · rename_i current hsome
    dsimp only
    split
    · refine ⟨fun d => ?_, h.batchSizes, h.capped, h.reasons⟩
      have hc : c ∈ q.inFlightDeadlines := AList.lookup_isSome.mp (hsome ▸ rfl)
      change d ∈ q.inFlightDeadlines.insert c _ ↔ _
      rw [AList.mem_insert, h.deadlines]
      rw [h.deadlines] at hc
      exact ⟨fun hd => hd.elim (fun he => he ▸ hc) id, .inr⟩
    · exact h

theorem Consistent.markComplete (h : q.Consistent) (now : Instant) (c : Uuid) :
    (q.markComplete now c).Consistent := by
  have hland := h.land c
  have hkeep : ∀ retryAfter retryCounts, Consistent { q with
      inFlightBatchSizes := q.inFlightBatchSizes.erase c
      inFlightChannels := q.inFlightChannels.erase c
      inFlightDeadlines := q.inFlightDeadlines.erase c
      retryAfter := retryAfter
      retryCounts := retryCounts } :=
    fun _ _ => ⟨hland.deadlines, hland.batchSizes, hland.capped, hland.reasons⟩
  rw [EventQueue.markComplete]
  dsimp only
  split
  · split
    · exact hland
    · exact hkeep _ _
  · exact hkeep _ _

theorem Consistent.apply (h : q.Consistent) (op : QueueOp) : (q.apply op).1.Consistent := by
  cases op with
  | withInFlightDeadline secs => exact ⟨h.deadlines, h.batchSizes, h.capped, h.reasons⟩
  | extendInFlightDeadline now c secs => exact h.extend now c secs
  | push event => exact h.push event
  | flushNext now => exact (h.expireChannels _).flushReady now
  | markComplete now c => exact h.markComplete now c
  | requeue now jittered b =>
    change (q.requeue now jittered b).1.Consistent
    rw [EventQueue.requeue]
    split
    · exact ⟨h.deadlines, h.batchSizes, h.capped, h.reasons⟩
    · have hfront := h.pushFront b.channelId (b.events.map (BatchEvent.toQueued b.channelId))
      exact ⟨hfront.deadlines, hfront.batchSizes, hfront.capped, hfront.reasons⟩
  | requeuePreserveTimestamps b => exact h.pushFront b.channelId _
  | requeueAsCancelled b reason =>
    refine ⟨h.deadlines, h.batchSizes, h.capped, fun c hc => ?_⟩
    have hc' : c ∈ q.cancelReasons.insert b.channelId reason := hc
    change c ∈ q.cancelledBatches.insert b.channelId _
    rw [AList.mem_insert] at hc' ⊢
    exact hc'.imp id (h.reasons c)
  | hasFlushableWork now => exact h.expireChannels _
  | drainChannel c =>
    refine ⟨h.deadlines, h.batchSizes, h.capped.erase c, fun d hd => ?_⟩
    have hd' : d ∈ q.cancelReasons.erase c := hd
    change d ∈ q.cancelledBatches.erase c
    rw [AList.mem_erase] at hd' ⊢
    exact ⟨hd'.1, h.reasons d hd'.2⟩
  | markNativeSteerPending c eventId =>
    change (q.markNativeSteerPending c eventId).1.Consistent
    rw [EventQueue.markNativeSteerPending]
    split
    · exact h
    · refine ⟨h.deadlines, h.batchSizes, h.capped.set c fun _ => ?_, h.reasons⟩
      exact (List.eraseP_sublist).length_le.trans (h.entry_length c)
  | releaseNativeSteer c eventId =>
    change (q.releaseNativeSteer c eventId).1.Consistent
    rw [EventQueue.releaseNativeSteer]
    dsimp only
    split
    · exact h
    · apply Consistent.pushFront
      exact ⟨h.deadlines, h.batchSizes, h.capped, h.reasons⟩
  | removeEvent c eventId =>
    refine ⟨h.deadlines, h.batchSizes, h.capped.retainEvents c _ ?_, h.reasons⟩
    intro l hl _
    exact (List.length_filter_le _ _).trans hl
  | compactExpiredState now => exact ⟨h.deadlines, h.batchSizes, h.capped, h.reasons⟩

theorem Consistent.reordered (h : q.Consistent) (hr : q.Reordered q') : q'.Consistent := by
  refine ⟨fun c => ?_, fun c => ?_, h.capped.perm hr.queues, fun c hc => ?_⟩
  · rw [← AList.mem_of_perm hr.inFlightDeadlines, hr.inFlightChannels, h.deadlines]
  · rw [← AList.mem_of_perm hr.inFlightBatchSizes, hr.inFlightChannels, h.batchSizes]
  · rw [← AList.mem_of_perm hr.cancelReasons] at hc
    rw [← AList.mem_of_perm hr.cancelledBatches]
    exact h.reasons c hc

theorem capQueue_ne_nil (h : l ≠ []) : (capQueue l).1 ≠ [] := by
  cases l with
  | nil => exact absurd rfl h
  | cons qe l => exact nofun

theorem NoEmptyLists.pushFront (h : q.NoEmptyLists) (c : Uuid) (hl : l ≠ []) :
    (q.pushFront c l).1.NoEmptyLists := by
  refine ⟨h.queues.insert c (capQueue_ne_nil ?_), h.withheld⟩
  intro hnil
  exact hl (List.append_eq_nil_iff.mp hnil).1

theorem NoEmptyLists.expireChannel (h : q.NoEmptyLists) (c : Uuid) :
    (q.expireChannel c).1.NoEmptyLists := by
  rw [EventQueue.expireChannel, recoverWithheldForExpiredChannel]
  split
  · exact ⟨h.queues, h.withheld⟩
  · rename_i entries hsome
    apply NoEmptyLists.pushFront
    · exact ⟨h.queues, h.withheld.erase c⟩
    · exact h.withheld c entries hsome

theorem NoEmptyLists.expireChannels (h : q.NoEmptyLists) (ids : List Uuid) :
    (q.expireChannels ids).1.NoEmptyLists := by
  induction ids generalizing q with
  | nil => exact h
  | cons id ids ih => exact ih (h.expireChannel id)

theorem NoEmptyLists.flushReady (h : q.NoEmptyLists) (now : Instant) :
    (q.flushReady now).1.NoEmptyLists := by
  rw [EventQueue.flushReady]
  split
  · exact ⟨h.queues.set _ id, h.withheld⟩
  · split
    · exact ⟨h.queues, h.withheld⟩
    · exact h

theorem NoEmptyLists.sameTables (h : q.NoEmptyLists) (hsame : SameTables q q') :
    q'.NoEmptyLists := by
  refine ⟨?_, ?_⟩
  · rw [hsame.queues]
    exact h.queues
  · rw [hsame.withheld]
    exact h.withheld

theorem NoEmptyLists.push (h : q.NoEmptyLists) (event : QueuedEvent) :
    (q.push event).1.NoEmptyLists := by
  rw [EventQueue.push]
  split
  · exact h
  · split
    · exact ⟨h.queues.insert _ (List.append_ne_nil_of_right_ne_nil _ (List.cons_ne_nil _ _)), h.withheld⟩
    · exact ⟨h.queues.insert _ (List.append_ne_nil_of_right_ne_nil _ (List.cons_ne_nil _ _)), h.withheld⟩

theorem NoEmptyLists.apply (h : q.NoEmptyLists) (op : QueueOp)
    (hop : ∀ b, op.handed = some b → b.events ≠ []) : (q.apply op).1.NoEmptyLists := by
  have hback : ∀ b : FlushBatch, b.events ≠ [] →
      b.events.map (BatchEvent.toQueued b.channelId) ≠ [] := by
    intro b hb hnil
    exact hb (List.map_eq_nil_iff.mp hnil)
  cases op with
  | withInFlightDeadline secs => exact ⟨h.queues, h.withheld⟩
  | extendInFlightDeadline now c secs =>
    exact h.sameTables (q.sameTables_extendInFlightDeadline now c secs)
  | push event => exact h.push event
  | flushNext now => exact (h.expireChannels _).flushReady now
  | markComplete now c => exact h.sameTables (q.sameTables_markComplete now c)
  | requeue now jittered b =>
    change (q.requeue now jittered b).1.NoEmptyLists
    rw [EventQueue.requeue]
    split
    · exact ⟨h.queues, h.withheld⟩
    · have hfront := h.pushFront b.channelId (hback b (hop b rfl))
      exact ⟨hfront.queues, hfront.withheld⟩
  | requeuePreserveTimestamps b => exact h.pushFront b.channelId (hback b (hop b rfl))
  | requeueAsCancelled b reason => exact ⟨h.queues, h.withheld⟩
  | hasFlushableWork now => exact h.expireChannels _
  | drainChannel c => exact ⟨h.queues.erase c, h.withheld.erase c⟩
  | markNativeSteerPending c eventId =>
    change (q.markNativeSteerPending c eventId).1.NoEmptyLists
    rw [EventQueue.markNativeSteerPending]
    split
    · exact h
    · exact ⟨h.queues.set c id,
        h.withheld.insert c (List.append_ne_nil_of_right_ne_nil _ (List.cons_ne_nil _ _))⟩
  | releaseNativeSteer c eventId =>
    change (q.releaseNativeSteer c eventId).1.NoEmptyLists
    rw [EventQueue.releaseNativeSteer]
    dsimp only
    split
    · exact h
    · apply NoEmptyLists.pushFront
      · exact ⟨h.queues, h.withheld.set c id⟩
      · exact List.cons_ne_nil _ _
  | removeEvent c eventId =>
    exact ⟨h.queues.retainEvents c _ fun _ _ => id, h.withheld.retainEvents c _ fun _ _ => id⟩
  | compactExpiredState now => exact ⟨h.queues, h.withheld⟩

theorem Reaches.consistent (h : Reaches mode ops q) : q.Consistent := by
  induction h with
  | new =>
    refine ⟨fun c => ?_, fun c => ?_, .empty _, nofun⟩
    · exact ⟨nofun, nofun⟩
    · exact ⟨nofun, nofun⟩
  | @step ops q op out q' _ hstep ih =>
    obtain ⟨q₁, hr, happly⟩ := hstep
    have hq' := (ih.reordered hr).apply op
    rw [happly] at hq'
    exact hq'

theorem Reaches.noEmptyLists (h : Reaches mode ops q)
    (hops : ∀ op ∈ ops, ∀ b, op.handed = some b → b.events ≠ []) : q.NoEmptyLists := by
  induction h with
  | new => exact ⟨.empty _, .empty _⟩
  | @step ops q op out q' _ hstep ih =>
    obtain ⟨q₁, hr, happly⟩ := hstep
    rw [List.forall_mem_append, List.forall_mem_singleton] at hops
    have hq := ih hops.1
    have hq₁ : q₁.NoEmptyLists :=
      ⟨hq.queues.perm hr.queues, hq.withheld.perm hr.withheldNativeSteer⟩
    have hq' := hq₁.apply op hops.2
    rw [happly] at hq'
    exact hq'

/-- In every state of every run the tables of the queue agree with each other. -/
theorem tables_consistent (mode : DedupMode) (ops : List QueueOp) (q : EventQueue)
    (h : Reaches mode ops q) :
    (∀ c, (c ∈ q.inFlightDeadlines ↔ c ∈ q.inFlightChannels) ∧
      (c ∈ q.inFlightBatchSizes ↔ c ∈ q.inFlightChannels)) ∧
    (∀ c queue, q.queues.lookup c = some queue → queue.length ≤ MAX_PENDING_PER_CHANNEL) ∧
    ((∀ op ∈ ops, ∀ b, op.handed = some b → b.events ≠ []) →
      (∀ c queue, q.queues.lookup c = some queue → queue ≠ []) ∧
      ∀ c events, q.withheldNativeSteer.lookup c = some events → events ≠ []) ∧
    ∀ c ∈ q.cancelReasons, c ∈ q.cancelledBatches := by
  have hq := h.consistent
  refine ⟨fun c => ⟨hq.deadlines c, hq.batchSizes c⟩, hq.capped, fun hops => ?_, hq.reasons⟩
  have hlists := h.noEmptyLists hops
  exact ⟨hlists.queues, hlists.withheld⟩

open Session.LossExample

/-- The channel of a flushed message is in all three in-flight tables. -/
theorem tables_consistent_flushed :
    channel ∈ (one.flushNext 10).1.inFlightChannels ∧
      channel ∈ (one.flushNext 10).1.inFlightDeadlines ∧
      channel ∈ (one.flushNext 10).1.inFlightBatchSizes := by
  have hone : Reaches .queue [.push (message 1)] one := Reaches.new.apply (.push (message 1))
  have hflushed : Reaches .queue [.push (message 1), .flushNext 10] (one.flushNext 10).1 :=
    hone.apply (.flushNext 10)
  have hin : channel ∈ (one.flushNext 10).1.inFlightChannels := by decide +kernel
  obtain ⟨hdeadlines, hsizes⟩ := (tables_consistent .queue _ _ hflushed).1 channel
  exact ⟨hin, hdeadlines.mpr hin, hsizes.mpr hin⟩

end EventQueue

end Buzz
