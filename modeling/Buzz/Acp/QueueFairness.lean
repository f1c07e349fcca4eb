import Buzz.Acp.DeadLetter
import Buzz.Acp.QueueDispatch

namespace Buzz
set_option autoImplicit true

theorem minByKey_map (key : β → Nat) (f : α → β) (l : List α) :
    minByKey key (l.map f) = (minByKey (fun a => key (f a)) l).map f := by
  induction l with
  | nil => rfl
  | cons a l ih =>
    rw [List.map_cons, minByKey, minByKey, ih]
    cases minByKey (fun a => key (f a)) l with
    | none => rfl
    | some b =>
      rw [Option.map_some, apply_ite (Option.map f)]
      rfl

/-- A stable sort puts the first of the least elements in front. -/
theorem head?_mergeSort (key : α → Nat) (l : List α) :
    (l.mergeSort fun a b => decide (key a ≤ key b)).head? = minByKey key l := by
  have htrans : ∀ a b c : α, decide (key a ≤ key b) = true → decide (key b ≤ key c) = true →
      decide (key a ≤ key c) = true := by
    intro a b c hab hbc
    exact decide_eq_true ((of_decide_eq_true hab).trans (of_decide_eq_true hbc))
  have htotal : ∀ a b : α, (decide (key a ≤ key b) || decide (key b ≤ key a)) = true := by
    intro a b
    rw [Bool.or_eq_true, decide_eq_true_eq, decide_eq_true_eq]
    exact Nat.le_total _ _
  induction l with
  | nil => rw [List.mergeSort_nil, minByKey, List.head?_nil]
  | cons a l ih =>
    obtain ⟨l₁, l₂, hcons, hl, hl₁⟩ := List.mergeSort_cons htrans htotal a l
    have hsorted := List.pairwise_mergeSort htrans htotal (a :: l)
    rw [hcons] at hsorted ⊢
    rw [minByKey, ← ih, hl]
    cases l₁ with
    | nil =>
      cases l₂ with
      | nil => rfl
      | cons b l₂ =>
        have hle : key a ≤ key b :=
          of_decide_eq_true (List.rel_of_pairwise_cons hsorted List.mem_cons_self)
        exact (if_pos hle).symm
    | cons b l₁ =>
      have hlt : ¬key a ≤ key b := by
        have hb := hl₁ b List.mem_cons_self
        rw [Bool.not_eq_true', decide_eq_false_iff_not] at hb
        exact hb
      exact (if_neg hlt).symm

namespace EventQueue

variable {q : EventQueue}

/-- What the channels are ordered by. -/
def headReceivedAt (q : EventQueue) (channelId : Uuid) : Option Instant :=
  (q.entry channelId).head?.map QueuedEvent.receivedAt

/-- Of the least created events of a queue, when the first one came in. -/
def earliestReceivedAt (queue : List QueuedEvent) : Option Instant :=
  (minByKey (fun qe => qe.event.createdAt.toNat) queue).map QueuedEvent.receivedAt

/-- A flush that takes all queued events of a channel, and nothing that was cancelled. -/
structure DrainsCompletely (q : EventQueue) (now : Instant) (batch : FlushBatch) : Prop where
  flushed : (q.flushNext now).2.2 = some batch
  queued : (q.expireInFlight now).1.entry batch.channelId ≠ []
  drained : (q.flushNext now).1.entry batch.channelId = []
  noCancelled : batch.cancelledEvents = []

theorem entry_drainQueue (q : EventQueue) (c : Uuid) :
    (q.drainQueue c).entry c = (q.entry c).drop MAX_BATCH_EVENTS := by
  rw [drainQueue, entry]
  dsimp only
  split
  · rename_i hempty
    rw [AList.lookup_erase, List.isEmpty_iff.mp hempty]
    rfl
  · rw [AList.lookup_insert]
    rfl

theorem entry_drainQueue_ne (q : EventQueue) (hne : d ≠ c) :
    (q.drainQueue c).entry d = q.entry d := by
  rw [drainQueue, entry]
  dsimp only
  split
  · rw [AList.lookup_erase_ne hne, entry]
  · rw [AList.lookup_insert_ne hne, entry]

/-- Such a flush takes its batch from the queue. -/
theorem DrainsCompletely.flushQueued (h : q.DrainsCompletely now b) :
    (q.expireInFlight now).1.oldestChannel now = some b.channelId ∧
    (q.flushNext now).1 = ((q.expireInFlight now).1.flushQueued now b.channelId).1 ∧
    b.events = (q.expireInFlight now).1.drainedEvents b.channelId := by
  have hflushed := h.flushed
  have hdrained := h.drained
  have hqueued := h.queued
  rw [flushNext] at hflushed hdrained ⊢
  generalize (q.expireInFlight now).1 = e at *
  dsimp only at hflushed hdrained ⊢
  rw [flushReady] at hflushed hdrained ⊢
  cases holdest : e.oldestChannel now with
  | some c =>
    rw [holdest] at hflushed
    cases hflushed
    exact ⟨rfl, rfl, rfl⟩
  | none =>
    rw [holdest] at hflushed hdrained
    cases hcancelled : e.cancelledChannel with
    | some c =>
      -- a flush of cancelled events leaves the queue of its channel
      rw [hcancelled] at hflushed hdrained
      cases hflushed
      exact absurd hdrained hqueued
    | none =>
      rw [hcancelled] at hflushed
      cases hflushed

theorem DrainsCompletely.length_le (h : q.DrainsCompletely now b) :
    ((q.expireInFlight now).1.entry b.channelId).length ≤ MAX_BATCH_EVENTS := by
  have hdrained := h.drained
  rw [h.flushQueued.2.1] at hdrained
  have hdrop : ((q.expireInFlight now).1.drainQueue b.channelId).entry b.channelId = [] := hdrained
  rw [entry_drainQueue] at hdrop
  exact List.drop_eq_nil_iff.mp hdrop

/-- The queue of a channel whose batch went back is the batch. -/
theorem entry_poolExhausted (q : EventQueue) (now : Instant) (b : FlushBatch)
    (h : q.entry b.channelId = []) :
    (q.perform (.poolExhausted now b)).1.entry b.channelId =
      (b.events.map (BatchEvent.toQueued b.channelId)).take MAX_PENDING_PER_CHANNEL := by
  change ((q.requeuePreserveTimestamps b).1.markComplete now b.channelId).entry b.channelId = _
  have hqueues := ((q.requeuePreserveTimestamps b).1.sameTables_markComplete now b.channelId).queues
  rw [entry, hqueues, requeuePreserveTimestamps, pushFront, h]
  dsimp only
  rw [AList.lookup_insert, Option.getD_some, List.append_nil, capQueue]

theorem entry_poolExhausted_ne (q : EventQueue) (now : Instant) (b : FlushBatch)
    (hne : d ≠ b.channelId) : (q.perform (.poolExhausted now b)).1.entry d = q.entry d := by
  change ((q.requeuePreserveTimestamps b).1.markComplete now b.channelId).entry d = _
  have hqueues := ((q.requeuePreserveTimestamps b).1.sameTables_markComplete now b.channelId).queues
  rw [entry, hqueues, requeuePreserveTimestamps, pushFront]
  dsimp only
  rw [AList.lookup_insert_ne hne, entry]

theorem isReady_markComplete_ne (q : EventQueue) (now later : Instant) (hne : d ≠ c) :
    (q.markComplete now c).isReady later d = q.isReady later d := by
  have hmem : d ∈ q.inFlightChannels.erase c ↔ d ∈ q.inFlightChannels := by
    rw [Finset.mem_erase, and_iff_right hne]
  have hthrottle : (q.markComplete now c).retryAfter.lookup d = q.retryAfter.lookup d := by
    rw [retryAfter_markComplete]
    split
    · exact AList.lookup_erase_ne hne
    · rfl
  rw [isReady, isReady, hthrottle, inFlightChannels_markComplete, decide_eq_decide.mpr hmem.not]

/-- A channel is ready again after a turn that finds no throttle. -/
theorem isReady_markComplete (q : EventQueue) (now later : Instant)
    (h : q.unthrottled later c = true) : (q.markComplete now c).isReady later c = true := by
  have hthrottle : (q.markComplete now c).unthrottled later c = true := by
    rw [unthrottled, retryAfter_markComplete]
    split
    · rw [AList.lookup_erase, Option.all_none]
    · exact h
  have hfree : c ∉ q.inFlightChannels.erase c := Finset.notMem_erase c _
  rw [unthrottled] at hthrottle
  rw [isReady, inFlightChannels_markComplete, decide_eq_true hfree, hthrottle, Bool.true_and]

/-- The head of the queue is then the first of the least created events. -/
theorem DrainsCompletely.headReceivedAt_requeued (h : q.DrainsCompletely now b) (now' : Instant) :
    ((q.flushNext now).1.perform (.poolExhausted now' b)).1.headReceivedAt b.channelId =
      earliestReceivedAt ((q.expireInFlight now).1.entry b.channelId) := by
  have hle : (fun a b : BatchEvent => decide (a.event.createdAt ≤ b.event.createdAt)) =
      fun a b => decide (a.event.createdAt.toNat ≤ b.event.createdAt.toNat) := by
    funext a b
    exact decide_eq_decide.mpr UInt64.le_iff_toNat_le
  have hevents := h.flushQueued.2.2
  rw [drainedEvents, List.take_of_length_le h.length_le, hle] at hevents
  rw [headReceivedAt, entry_poolExhausted _ now' b h.drained, hevents, List.head?_take,
    if_neg (by decide), List.head?_map, head?_mergeSort (fun a : BatchEvent => a.event.createdAt.toNat),
    minByKey_map, earliestReceivedAt, Option.map_map, Option.map_map]
  rfl

theorem isReady_of_oldestChannel (h : q.oldestChannel now = some c) : q.isReady now c = true := by
  obtain ⟨⟨d, age⟩, hmin, rfl⟩ := Option.map_eq_some_iff.mp h
  obtain ⟨⟨d', queue⟩, _, hcand⟩ := List.mem_filterMap.mp (minByKey_mem hmin)
  cases queue with
  | nil => cases hcand
  | cons qe queue =>
    dsimp only at hcand
    split at hcand
    · rename_i hready
      cases hcand
      exact hready
    · cases hcand

theorem unthrottled_mono (hle : now ≤ later) (h : q.unthrottled now c = true) :
    q.unthrottled later c = true := by
  rw [unthrottled] at h ⊢
  cases hthrottle : q.retryAfter.lookup c with
  | none => rfl
  | some deadline =>
    rw [hthrottle, Option.all_some, decide_eq_true_eq] at h
    rw [Option.all_some, decide_eq_true_eq]
    exact h.trans hle

/-- A flush that drains a channel, and then an exhausted pool, leave the key of the channel exactly
if the first of its least created events came in when the head of its queue did. The channel may be
picked again at once, and the other channels stand as the expiry of the flush leaves them. -/
theorem headReceivedAt_requeued_iff (q : EventQueue) (now now' : Instant) (batch : FlushBatch)
    (h : q.DrainsCompletely now batch) :
    ((((q.flushNext now).1.perform (.poolExhausted now' batch)).1.headReceivedAt batch.channelId =
        q.headReceivedAt batch.channelId) ↔
      earliestReceivedAt ((q.expireInFlight now).1.entry batch.channelId) =
        q.headReceivedAt batch.channelId) ∧
    (∀ later, now ≤ later → ((q.flushNext now).1.perform (.poolExhausted now' batch)).1.isReady
      later batch.channelId = true) ∧
    ∀ d, d ≠ batch.channelId →
      ((q.flushNext now).1.perform (.poolExhausted now' batch)).1.entry d =
        (q.expireInFlight now).1.entry d ∧
      ∀ later, ((q.flushNext now).1.perform (.poolExhausted now' batch)).1.isReady later d =
        (q.expireInFlight now).1.isReady later d := by
  obtain ⟨holdest, hflush, _⟩ := h.flushQueued
  rw [h.headReceivedAt_requeued now', hflush]
  refine ⟨.rfl, ?_, ?_⟩
  · intro later hlater
    apply isReady_markComplete
    have hready := isReady_of_oldestChannel holdest
    rw [isReady, Bool.and_eq_true] at hready
    exact unthrottled_mono hlater hready.2
  · intro d hne
    refine ⟨?_, ?_⟩
    · rw [entry_poolExhausted_ne _ now' batch hne]
      exact entry_drainQueue_ne _ hne
    · intro later
      have hcomplete := isReady_markComplete_ne
        (((q.expireInFlight now).1.flushQueued now batch.channelId).1.requeuePreserveTimestamps
          batch).1 now' later hne
      have hmem : d ∈ insert batch.channelId (q.expireInFlight now).1.inFlightChannels ↔
          d ∈ (q.expireInFlight now).1.inFlightChannels := by
        rw [Finset.mem_insert, or_iff_right hne]
      refine Eq.trans hcomplete ?_
      exact congrArg (· && _) (decide_eq_decide.mpr hmem.not)

namespace FairnessExample

theorem mergeSort_pair (le : α → α → Bool) (a b : α) (h : le a b = false) :
    [a, b].mergeSort le = [b, a] := by
  simp [List.mergeSort, h]

open Session.LossExample

/-- A message that comes in second and was created first. -/
def replayed : QueuedEvent :=
  ⟨channel, ⟨HexId.ofNat 64 2, HexId.ofNat 64 1, 900, 9, []⟩, 2, "mention", false⟩

/-- The relay delivers the newest message first. -/
def replay : EventQueue := (new .queue).after [.push (message 1), .push replayed]

def both : FlushBatch := ⟨channel, [replayed.toBatch, (message 1).toBatch], [], none⟩

theorem drainedEvents_replay :
    (replay.expireInFlight 10).1.drainedEvents channel = both.events := by
  have hentry : ((replay.expireInFlight 10).1.entry channel).take MAX_BATCH_EVENTS =
      [message 1, replayed] := by
    decide +kernel
  have hlater : decide ((message 1).toBatch.event.createdAt ≤ replayed.toBatch.event.createdAt) =
      false := by
    decide
  rw [drainedEvents, hentry]
  exact mergeSort_pair _ _ _ hlater

theorem drains_replay : replay.DrainsCompletely 10 both := by
  have holdest : (replay.expireInFlight 10).1.oldestChannel 10 = some channel := by decide +kernel
  have hcancelled : (replay.expireInFlight 10).1.cancelledBatches.lookup channel = none := by
    decide +kernel
  refine ⟨?_, by decide +kernel, ?_, rfl⟩
  · rw [flushNext, flushReady, holdest]
    dsimp only
    rw [flushQueued, drainedEvents_replay, hcancelled]
    rfl
  · rw [flushNext, flushReady, holdest]
    decide +kernel

theorem drains_one : one.DrainsCompletely 10 first :=
  ⟨by decide +kernel, by decide +kernel, by decide +kernel, rfl⟩

theorem reaches_replay : Reaches .queue [.push (message 1), .push replayed] replay :=
  (Reaches.new.apply (.push (message 1))).apply (.push replayed)

end FairnessExample

open Session.LossExample FairnessExample

/-- After a replay the message that came in second is the head when its batch goes back. -/
theorem replay_loses_position :
    ¬∀ (mode : DedupMode) (ops : List QueueOp) (q : EventQueue) (now now' : Instant)
      (batch : FlushBatch), Reaches mode ops q → now ≤ now' → q.DrainsCompletely now batch →
      ((q.flushNext now).1.perform (.poolExhausted now' batch)).1.headReceivedAt batch.channelId =
        q.headReceivedAt batch.channelId := by
  intro h
  have hkept := h .queue _ replay 10 10 both reaches_replay (Nat.le_refl 10) drains_replay
  rw [drains_replay.headReceivedAt_requeued] at hkept
  revert hkept
  decide +kernel

/-- A single message keeps its channel's position. -/
theorem headReceivedAt_requeued_one :
    ((one.flushNext 10).1.perform (.poolExhausted 10 first)).1.headReceivedAt channel =
      one.headReceivedAt channel := by
  have hposition : earliestReceivedAt ((one.expireInFlight 10).1.entry channel) =
      one.headReceivedAt channel := by
    decide +kernel
  exact (headReceivedAt_requeued_iff one 10 10 first drains_one).1.mpr hposition

end EventQueue

end Buzz
