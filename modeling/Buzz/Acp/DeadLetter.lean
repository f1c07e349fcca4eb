import Buzz.Acp.QueueTables
import Buzz.Lib.Run

namespace Buzz
set_option autoImplicit true

/-- The delay that the jitter makes of a number of seconds, at most a fifth away from it. -/
structure Jitter where
  delay : Nat → Duration
  least : ∀ secs, 4 * fromSecs secs ≤ 5 * delay secs
  most : ∀ secs, 5 * delay secs ≤ 6 * fromSecs secs

theorem Jitter.delay_pos {secs : Nat} (jitter : Jitter) (h : 0 < secs) :
    0 < jitter.delay secs := by
  have hpos : 0 < 4 * fromSecs secs := Nat.mul_pos (by decide) (Nat.mul_pos h (by decide))
  exact (Nat.mul_pos_iff_of_pos_left (by decide)).mp (hpos.trans_le (jitter.least secs))

/-- What the harness does with its queue. A failed batch and one that finds no free agent go back
to the queue and their channel is marked complete at the same time. -/
inductive DispatchMove where
  | call (op : QueueOp)
  | failure (now : Instant) (jitter : Jitter) (batch : FlushBatch)
  | poolExhausted (now : Instant) (batch : FlushBatch)

/-- The operations that end a turn of the channel in a way of their own. -/
def QueueOp.endsTurn (channelId : Uuid) : QueueOp → Bool
  | .markComplete _ id => id == channelId
  | .requeue _ _ batch => batch.channelId == channelId
  | .requeuePreserveTimestamps batch => batch.channelId == channelId
  | .requeueAsCancelled batch _ => batch.channelId == channelId
  | .drainChannel id => id == channelId
  | _ => false

namespace EventQueue

variable {q q' : EventQueue}

/-- Also the batch that is dead-lettered. -/
def perform (q : EventQueue) : DispatchMove → EventQueue × Option FlushBatch
  | .call op => ((q.apply op).1, (q.apply op).2.deadLettered)
  | .failure now jitter batch =>
    let requeued := q.requeue now jitter.delay batch
    (requeued.1.markComplete now batch.channelId, requeued.2.2)
  | .poolExhausted now batch =>
    ((q.requeuePreserveTimestamps batch).1.markComplete now batch.channelId, none)

def retryCount (q : EventQueue) (channelId : Uuid) : Nat :=
  (q.retryCounts.lookup channelId).getD 0

/-- The channel has no throttle, or one that is over. -/
def unthrottled (q : EventQueue) (now : Instant) (channelId : Uuid) : Bool :=
  (q.retryAfter.lookup channelId).all (· ≤ now)

/-- The moves, other than failures, that take away the retry counter of a channel. -/
def forgets (q : EventQueue) (channelId : Uuid) : DispatchMove → Bool
  | .poolExhausted now _ => q.unthrottled now channelId
  | .call (.compactExpiredState now) =>
    q.unthrottled now channelId && (q.entry channelId).isEmpty &&
      decide (channelId ∉ q.inFlightChannels)
  | _ => false

theorem Reordered.retryCount (h : q.Reordered q') (c : Uuid) : q'.retryCount c = q.retryCount c := by
  rw [EventQueue.retryCount, EventQueue.retryCount, AList.perm_lookup h.retryCounts]

theorem retryCounts_expireChannels (q : EventQueue) (ids : List Uuid) :
    (q.expireChannels ids).1.retryCounts = q.retryCounts := by
  induction ids generalizing q with
  | nil => rfl
  | cons id ids ih =>
    have hone : (q.expireChannel id).1.retryCounts = q.retryCounts := by
      rw [expireChannel, recoverWithheldForExpiredChannel]
      split
      · rfl
      · rfl
    exact (ih _).trans hone

theorem retryCounts_flushReady (q : EventQueue) (now : Instant) :
    (q.flushReady now).1.retryCounts = q.retryCounts := by
  rw [flushReady]
  split
  · rfl
  · split
    · rfl
    · rfl

theorem retryCounts_markComplete (q : EventQueue) (now : Instant) (c : Uuid) :
    (q.markComplete now c).retryCounts =
      if q.unthrottled now c then q.retryCounts.erase c else q.retryCounts := by
  rw [markComplete, unthrottled]
  dsimp only
  cases q.retryAfter.lookup c with
  | none => rfl
  | some deadline =>
    rw [Option.all_some]
    by_cases hlate : now < deadline
    · simp [hlate]
    · simp [hlate, Nat.le_of_not_lt hlate]

theorem retryAfter_markComplete (q : EventQueue) (now : Instant) (c : Uuid) :
    (q.markComplete now c).retryAfter =
      if q.unthrottled now c then q.retryAfter.erase c else q.retryAfter := by
  rw [markComplete, unthrottled]
  dsimp only
  cases hthrottle : q.retryAfter.lookup c with
  | none =>
    rw [Table.erase_of_lookup_eq_none hthrottle, ite_self]
  | some deadline =>
    rw [Option.all_some]
    by_cases hlate : now < deadline
    · simp [hlate]
    · simp [hlate, Nat.le_of_not_lt hlate]

theorem inFlightChannels_markComplete (q : EventQueue) (now : Instant) (c : Uuid) :
    (q.markComplete now c).inFlightChannels = q.inFlightChannels.erase c := by
  rw [markComplete]
  dsimp only
  split
  · split
    · rfl
    · rfl
  · rfl

theorem retryCount_markComplete (q : EventQueue) (now : Instant) (c : Uuid) :
    (q.markComplete now c).retryCount c = if q.unthrottled now c then 0 else q.retryCount c := by
  rw [retryCount, retryCounts_markComplete]
  split
  · rw [AList.lookup_erase]
    rfl
  · rfl

/-- The end of another channel's turn. -/
theorem retryCount_markComplete_ne (q : EventQueue) (now : Instant) (hne : c ≠ d) :
    (q.markComplete now d).retryCount c = q.retryCount c := by
  rw [retryCount, retryCounts_markComplete]
  split
  · rw [AList.lookup_erase_ne hne]
    rfl
  · rfl

theorem retryCount_compactExpiredState (q : EventQueue) (now : Instant) (c : Uuid) :
    (q.compactExpiredState now).retryCount c =
      if q.forgets c (.call (.compactExpiredState now)) then 0 else q.retryCount c := by
  have hthrottled : ((q.retryAfter.retain fun _ deadline => decide (now < deadline)).lookup c).isSome =
      !q.unthrottled now c := by
    rw [Table.lookup_retain, unthrottled]
    cases q.retryAfter.lookup c with
    | none => rfl
    | some deadline =>
      rw [Option.all_some]
      by_cases hlate : now < deadline
      · simp [hlate]
      · simp [hlate, Nat.le_of_not_lt hlate]
  rw [retryCount, compactExpiredState, retryCount, forgets]
  dsimp only
  rw [Table.lookup_retain]
  cases q.retryCounts.lookup c with
  | none => exact (ite_self 0).symm
  | some n =>
    have hkept : (!q.unthrottled now c || !(q.entry c).isEmpty || decide (c ∈ q.inFlightChannels)) =
        !(q.unthrottled now c && (q.entry c).isEmpty && decide (c ∉ q.inFlightChannels)) := by
      rw [Bool.not_and, Bool.not_and, decide_not, Bool.not_not]
    rw [Option.filter_some, hthrottled]
    change (if (!q.unthrottled now c || !(q.entry c).isEmpty ||
      decide (c ∈ q.inFlightChannels)) = true then some n else none).getD 0 = _
    rw [hkept]
    cases q.unthrottled now c && (q.entry c).isEmpty && decide (c ∉ q.inFlightChannels) with
    | true => rfl
    | false => rfl

/-- An operation that ends no turn of the channel leaves its retry counter, unless it is a
compaction that finds the channel idle. -/
theorem retryCount_apply (q : EventQueue) (op : QueueOp) (h : op.endsTurn c = false) :
    (q.apply op).1.retryCount c = if q.forgets c (.call op) then 0 else q.retryCount c := by
  cases op with
  | extendInFlightDeadline now id secs =>
    change (q.extendInFlightDeadline now id secs).retryCount c = q.retryCount c
    rw [extendInFlightDeadline]
    split
    · rfl
    · dsimp only
      split
      · rfl
      · rfl
  | push event =>
    change (q.push event).1.retryCount c = q.retryCount c
    rw [push]
    split
    · rfl
    · split
      · rfl
      · rfl
  | flushNext now =>
    change ((q.expireInFlight now).1.flushReady now).1.retryCount c = q.retryCount c
    rw [retryCount, retryCounts_flushReady, expireInFlight, retryCounts_expireChannels, retryCount]
  | markComplete now id =>
    have hne : id ≠ c := ne_of_beq_false h
    exact q.retryCount_markComplete_ne now hne.symm
  | requeue now jittered b =>
    have hne : b.channelId ≠ c := ne_of_beq_false h
    change (q.requeue now jittered b).1.retryCount c = q.retryCount c
    rw [requeue, retryCount, retryCount]
    split
    · exact congrArg (Option.getD · 0) (AList.lookup_erase_ne hne.symm)
    · exact congrArg (Option.getD · 0) (AList.lookup_insert_ne hne.symm)
  | hasFlushableWork now =>
    change (q.expireInFlight now).1.retryCount c = q.retryCount c
    rw [retryCount, expireInFlight, retryCounts_expireChannels, retryCount]
  | drainChannel id =>
    have hne : id ≠ c := ne_of_beq_false h
    exact congrArg (Option.getD · 0) (AList.lookup_erase_ne hne.symm)
  | markNativeSteerPending id eventId =>
    change (q.markNativeSteerPending id eventId).1.retryCount c = q.retryCount c
    rw [markNativeSteerPending]
    split
    · rfl
    · rfl
  | releaseNativeSteer id eventId =>
    change (q.releaseNativeSteer id eventId).1.retryCount c = q.retryCount c
    rw [releaseNativeSteer]
    dsimp only
    split
    · rfl
    · rfl
  | compactExpiredState now => exact q.retryCount_compactExpiredState now c
  | _ => rfl

theorem cappedSecs_pos (attempt : Nat) : 0 < cappedSecs attempt := by
  rw [cappedSecs, lt_min_iff]
  exact ⟨Nat.mul_pos (by decide) (Nat.two_pow_pos _), by decide⟩

/-- A failure within the retries counts and is not dead-lettered. -/
theorem perform_failure (now : Instant) (jitter : Jitter) (b : FlushBatch)
    (h : q.retryCount b.channelId < MAX_RETRIES) :
    (q.perform (.failure now jitter b)).1.retryCount b.channelId = q.retryCount b.channelId + 1 ∧
      (q.perform (.failure now jitter b)).2 = none := by
  have hattempt : q.attempt b.channelId = q.retryCount b.channelId + 1 := rfl
  have hfew : ¬MAX_RETRIES < q.attempt b.channelId := by omega
  have hlate : ¬now + jitter.delay (cappedSecs (q.attempt b.channelId)) ≤ now := by
    apply Nat.not_le.mpr
    exact Nat.lt_add_of_pos_right (jitter.delay_pos (cappedSecs_pos _))
  have hcount : (q.requeue now jitter.delay b).1.retryCount b.channelId = q.attempt b.channelId := by
    rw [requeue, if_neg hfew]
    exact congrArg (Option.getD · 0) (AList.lookup_insert _)
  have hthrottled : (q.requeue now jitter.delay b).1.unthrottled now b.channelId = false := by
    rw [requeue, if_neg hfew, unthrottled]
    dsimp only [pushFront]
    rw [AList.lookup_insert, Option.all_some, decide_eq_false hlate]
  refine ⟨?_, ?_⟩
  · change ((q.requeue now jitter.delay b).1.markComplete now b.channelId).retryCount _ = _
    rw [retryCount_markComplete, hthrottled, hcount, hattempt]
    rfl
  · change (q.requeue now jitter.delay b).2.2 = none
    rw [requeue, if_neg hfew]

/-- The failure after the last retry is dead-lettered, and the counter starts again. -/
theorem perform_failure_last (now : Instant) (jitter : Jitter) (b : FlushBatch)
    (h : MAX_RETRIES ≤ q.retryCount b.channelId) :
    (q.perform (.failure now jitter b)).1.retryCount b.channelId = 0 ∧
      (q.perform (.failure now jitter b)).2 = some b := by
  have hattempt : q.attempt b.channelId = q.retryCount b.channelId + 1 := rfl
  have hmany : MAX_RETRIES < q.attempt b.channelId := by omega
  have hcount : (q.requeue now jitter.delay b).1.retryCount b.channelId = 0 := by
    rw [requeue, if_pos hmany]
    exact congrArg (Option.getD · 0) (AList.lookup_erase _ _)
  refine ⟨?_, ?_⟩
  · change ((q.requeue now jitter.delay b).1.markComplete now b.channelId).retryCount _ = _
    rw [retryCount_markComplete, hcount, ite_self]
  · change (q.requeue now jitter.delay b).2.2 = some b
    rw [requeue, if_pos hmany]

theorem perform_poolExhausted (q : EventQueue) (now : Instant) (b : FlushBatch) :
    (q.perform (.poolExhausted now b)).1.retryCount b.channelId =
      if q.forgets b.channelId (.poolExhausted now b) then 0 else q.retryCount b.channelId :=
  (q.requeuePreserveTimestamps b).1.retryCount_markComplete now b.channelId

end EventQueue

end Buzz
