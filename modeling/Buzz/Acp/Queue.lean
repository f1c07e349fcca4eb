import Buzz.Core.Nostr
import Buzz.Lib.Table

namespace Buzz
set_option autoImplicit true

/-- A reading of the monotonic clock in nanoseconds. -/
abbrev Instant := Nat

abbrev Duration := Nat

def fromSecs (secs : Nat) : Duration :=
  secs * 1000000000

def MAX_PENDING_PER_CHANNEL : Nat := 500
def MAX_BATCH_EVENTS : Nat := 50
def MAX_RETRIES : Nat := 10
def BASE_RETRY_DELAY_SECS : Nat := 5
def MAX_RETRY_DELAY_SECS : Nat := 300
def IN_FLIGHT_DEADLINE_BUFFER_SECS : Nat := 100
def DEFAULT_IN_FLIGHT_DEADLINE_SECS : Nat := 7300

inductive DedupMode where
  | drop
  | queue
deriving DecidableEq

structure QueuedEvent where
  channelId : Uuid
  event : Event
  receivedAt : Instant
  promptTag : String
  isIssue : Bool
deriving DecidableEq

structure BatchEvent where
  event : Event
  promptTag : String
  receivedAt : Instant
  isIssue : Bool
deriving DecidableEq

inductive CancelReason where
  | interrupt
  | steer
deriving DecidableEq

structure FlushBatch where
  channelId : Uuid
  events : List BatchEvent
  cancelledEvents : List BatchEvent
  cancelReason : Option CancelReason
deriving DecidableEq

def QueuedEvent.toBatch (qe : QueuedEvent) : BatchEvent :=
  ⟨qe.event, qe.promptTag, qe.receivedAt, qe.isIssue⟩

def BatchEvent.toQueued (channelId : Uuid) (be : BatchEvent) : QueuedEvent :=
  ⟨channelId, be.event, be.receivedAt, be.promptTag, be.isIssue⟩

structure EventQueue where
  queues : Table Uuid (List QueuedEvent)
  inFlightChannels : Finset Uuid
  inFlightDeadlines : Table Uuid Instant
  inFlightBatchSizes : Table Uuid Nat
  retryAfter : Table Uuid Instant
  retryCounts : Table Uuid Nat
  dedupMode : DedupMode
  cancelledBatches : Table Uuid (List BatchEvent)
  cancelReasons : Table Uuid CancelReason
  withheldNativeSteer : Table Uuid (List QueuedEvent)
  inFlightDeadline : Duration

/-- The queue within its cap, and the events popped from its back with a warning. -/
def capQueue (queue : List QueuedEvent) : List QueuedEvent × List QueuedEvent :=
  (queue.take MAX_PENDING_PER_CHANNEL, queue.drop MAX_PENDING_PER_CHANNEL)

/-- The first entry with the least key. -/
def minByKey (key : α → Nat) : List α → Option α
  | [] => none
  | a :: l =>
    match minByKey key l with
    | none => some a
    | some b => if key a ≤ key b then some a else some b

/-- `retain` on the list of a key. An empty list is taken out of the table. -/
def retainEvents (t : Table Uuid (List QueuedEvent)) (channelId : Uuid) (p : QueuedEvent → Bool) :
    Table Uuid (List QueuedEvent) :=
  match t.lookup channelId with
  | none => t
  | some entries =>
    if (entries.filter p).isEmpty then t.erase channelId
    else t.insert channelId (entries.filter p)

namespace EventQueue

def new (dedupMode : DedupMode) : EventQueue :=
  ⟨∅, ∅, ∅, ∅, ∅, ∅, dedupMode, ∅, ∅, ∅, fromSecs DEFAULT_IN_FLIGHT_DEADLINE_SECS⟩

def withInFlightDeadline (q : EventQueue) (maxTurnDurationSecs : Nat) : EventQueue :=
  { q with inFlightDeadline := fromSecs (maxTurnDurationSecs + IN_FLIGHT_DEADLINE_BUFFER_SECS) }

def extendInFlightDeadline (q : EventQueue) (now : Instant) (channelId : Uuid)
    (maxTurnSecs : Nat) : EventQueue :=
  match q.inFlightDeadlines.lookup channelId with
  | none => q
  | some current =>
    let extended := now + fromSecs (maxTurnSecs + IN_FLIGHT_DEADLINE_BUFFER_SECS)
    if current < extended then
      { q with inFlightDeadlines := q.inFlightDeadlines.insert channelId extended }
    else q

/-- `queues.entry(channel_id).or_default()`. -/
def entry (q : EventQueue) (channelId : Uuid) : List QueuedEvent :=
  (q.queues.lookup channelId).getD []

/-- Also the event that the cap pushes out, and whether the new one is accepted. -/
def push (q : EventQueue) (event : QueuedEvent) : EventQueue × List QueuedEvent × Bool :=
  if q.dedupMode = .drop ∧ event.channelId ∈ q.inFlightChannels then (q, [], false)
  else if MAX_PENDING_PER_CHANNEL ≤ (q.entry event.channelId).length then
    ({ q with
        queues := q.queues.insert event.channelId ((q.entry event.channelId).drop 1 ++ [event]) },
      (q.entry event.channelId).take 1, true)
  else
    ({ q with queues := q.queues.insert event.channelId (q.entry event.channelId ++ [event]) },
      [], true)

/-- Events put in front of a channel's queue, which is then cut to its cap. -/
def pushFront (q : EventQueue) (channelId : Uuid) (events : List QueuedEvent) :
    EventQueue × List QueuedEvent :=
  let capped := capQueue (events ++ q.entry channelId)
  ({ q with queues := q.queues.insert channelId capped.1 }, capped.2)

def recoverWithheldForExpiredChannel (q : EventQueue) (channelId : Uuid) :
    EventQueue × List QueuedEvent :=
  match q.withheldNativeSteer.lookup channelId with
  | none => (q, [])
  | some entries =>
    { q with withheldNativeSteer := q.withheldNativeSteer.erase channelId }.pushFront channelId
      entries

def expired (q : EventQueue) (now : Instant) : List Uuid :=
  (q.inFlightDeadlines.entries.filter fun e => e.2 ≤ now).map fun e => e.1

def expireChannel (q : EventQueue) (channelId : Uuid) : EventQueue × List QueuedEvent :=
  { q with
    inFlightBatchSizes := q.inFlightBatchSizes.erase channelId
    inFlightChannels := q.inFlightChannels.erase channelId
    inFlightDeadlines := q.inFlightDeadlines.erase channelId
  }.recoverWithheldForExpiredChannel channelId

def expireChannels (q : EventQueue) : List Uuid → EventQueue × List QueuedEvent
  | [] => (q, [])
  | id :: ids =>
    let one := q.expireChannel id
    let rest := one.1.expireChannels ids
    (rest.1, one.2 ++ rest.2)

/-- The expiry block of `flush_next` and `has_flushable_work`. -/
def expireInFlight (q : EventQueue) (now : Instant) : EventQueue × List QueuedEvent :=
  q.expireChannels (q.expired now)

def isReady (q : EventQueue) (now : Instant) (channelId : Uuid) : Bool :=
  decide (channelId ∉ q.inFlightChannels) && (q.retryAfter.lookup channelId).all (· ≤ now)

/-- The channels that may be flushed, with the age of their oldest event. -/
def candidates (q : EventQueue) (now : Instant) : List (Uuid × Instant) :=
  q.queues.entries.filterMap fun e =>
    match e.2 with
    | [] => none
    | qe :: _ => if q.isReady now e.1 then some (e.1, qe.receivedAt) else none

def oldestChannel (q : EventQueue) (now : Instant) : Option Uuid :=
  (minByKey Prod.snd (q.candidates now)).map Prod.fst

def cancelledChannel (q : EventQueue) : Option Uuid :=
  q.cancelledBatches.keys.find? fun id => decide (id ∉ q.inFlightChannels)

/-- The bookkeeping of a batch that goes out. -/
def markInFlight (q : EventQueue) (now : Instant) (channelId : Uuid) (size : Nat) : EventQueue :=
  { q with
    inFlightChannels := insert channelId q.inFlightChannels
    inFlightDeadlines := q.inFlightDeadlines.insert channelId (now + q.inFlightDeadline)
    inFlightBatchSizes := q.inFlightBatchSizes.insert channelId size
    cancelledBatches := q.cancelledBatches.erase channelId
    cancelReasons := q.cancelReasons.erase channelId }

/-- Re-dispatch of cancelled events when there is nothing new to merge them with. -/
def flushCancelled (q : EventQueue) (now : Instant) (channelId : Uuid) : EventQueue × FlushBatch :=
  let cancelled := (q.cancelledBatches.lookup channelId).getD []
  (q.markInFlight now channelId cancelled.length,
    ⟨channelId, cancelled, [], q.cancelReasons.lookup channelId⟩)

/-- The oldest events of a channel, sorted by the time of their creation. -/
def drainedEvents (q : EventQueue) (channelId : Uuid) : List BatchEvent :=
  (((q.entry channelId).take MAX_BATCH_EVENTS).map QueuedEvent.toBatch).mergeSort fun a b =>
    decide (a.event.createdAt ≤ b.event.createdAt)

def drainQueue (q : EventQueue) (channelId : Uuid) : EventQueue :=
  let rest := (q.entry channelId).drop MAX_BATCH_EVENTS
  { q with
    queues := if rest.isEmpty then q.queues.erase channelId else q.queues.insert channelId rest }

def flushQueued (q : EventQueue) (now : Instant) (channelId : Uuid) : EventQueue × FlushBatch :=
  let events := q.drainedEvents channelId
  let cancelled := (q.cancelledBatches.lookup channelId).getD []
  ((q.drainQueue channelId).markInFlight now channelId events.length,
    ⟨channelId, events, cancelled,
      if cancelled.isEmpty then none else q.cancelReasons.lookup channelId⟩)

def flushReady (q : EventQueue) (now : Instant) : EventQueue × Option FlushBatch :=
  match q.oldestChannel now with
  | some id => ((q.flushQueued now id).1, some (q.flushQueued now id).2)
  | none =>
    match q.cancelledChannel with
    | some id => ((q.flushCancelled now id).1, some (q.flushCancelled now id).2)
    | none => (q, none)

/-- Also the events that the recovery of withheld ones pushes out. -/
def flushNext (q : EventQueue) (now : Instant) : EventQueue × List QueuedEvent × Option FlushBatch :=
  let flushed := (q.expireInFlight now).1.flushReady now
  (flushed.1, (q.expireInFlight now).2, flushed.2)

def markComplete (q : EventQueue) (now : Instant) (channelId : Uuid) : EventQueue :=
  let q := { q with
    inFlightChannels := q.inFlightChannels.erase channelId
    inFlightDeadlines := q.inFlightDeadlines.erase channelId
    inFlightBatchSizes := q.inFlightBatchSizes.erase channelId }
  match q.retryAfter.lookup channelId with
  | some deadline =>
    if now < deadline then q
    else
      { q with
        retryAfter := q.retryAfter.erase channelId
        retryCounts := q.retryCounts.erase channelId }
  | none => { q with retryCounts := q.retryCounts.erase channelId }

def attempt (q : EventQueue) (channelId : Uuid) : Nat :=
  (q.retryCounts.lookup channelId).getD 0 + 1

/-- The delay before the jitter. -/
def cappedSecs (attempt : Nat) : Nat :=
  min (BASE_RETRY_DELAY_SECS * 2 ^ min (attempt - 1) 6) MAX_RETRY_DELAY_SECS

/-- The jittered delay comes from the wall clock. Also the events that the cap pushes out, and the
batch if it is dead-lettered. -/
def requeue (q : EventQueue) (now : Instant) (jittered : Nat → Duration) (batch : FlushBatch) :
    EventQueue × List QueuedEvent × Option FlushBatch :=
  if MAX_RETRIES < q.attempt batch.channelId then
    ({ q with
        retryCounts := q.retryCounts.erase batch.channelId
        retryAfter := q.retryAfter.erase batch.channelId },
      [], some batch)
  else
    let queued := { q with
      retryCounts := q.retryCounts.insert batch.channelId (q.attempt batch.channelId) }.pushFront
        batch.channelId (batch.events.map (BatchEvent.toQueued batch.channelId))
    ({ queued.1 with
        retryAfter := queued.1.retryAfter.insert batch.channelId
          (now + jittered (cappedSecs (q.attempt batch.channelId))) },
      queued.2, none)

def requeuePreserveTimestamps (q : EventQueue) (batch : FlushBatch) :
    EventQueue × List QueuedEvent :=
  q.pushFront batch.channelId (batch.events.map (BatchEvent.toQueued batch.channelId))

def requeueAsCancelled (q : EventQueue) (batch : FlushBatch) (reason : CancelReason) : EventQueue :=
  { q with
    cancelledBatches := q.cancelledBatches.insert batch.channelId
      ((q.cancelledBatches.lookup batch.channelId).getD [] ++ batch.cancelledEvents ++ batch.events)
    cancelReasons := q.cancelReasons.insert batch.channelId reason }

def hasFlushableWork (q : EventQueue) (now : Instant) : EventQueue × List QueuedEvent × Bool :=
  let expiry := q.expireInFlight now
  (expiry.1, expiry.2,
    expiry.1.queues.entries.any (fun e => !e.2.isEmpty && expiry.1.isReady now e.1) ||
      expiry.1.cancelledBatches.keys.any fun id => decide (id ∉ expiry.1.inFlightChannels))

def hasUndispatchedWork (q : EventQueue) : Bool :=
  q.queues.entries.any (fun e => !e.2.isEmpty && decide (e.1 ∉ q.inFlightChannels)) ||
    q.cancelledBatches.keys.any (fun id => decide (id ∉ q.inFlightChannels)) ||
    q.withheldNativeSteer.entries.any fun e => !e.2.isEmpty && decide (e.1 ∉ q.inFlightChannels)

def drainChannel (q : EventQueue) (channelId : Uuid) : EventQueue × List String :=
  ({ q with
      queues := q.queues.erase channelId
      retryAfter := q.retryAfter.erase channelId
      retryCounts := q.retryCounts.erase channelId
      cancelledBatches := q.cancelledBatches.erase channelId
      cancelReasons := q.cancelReasons.erase channelId
      withheldNativeSteer := q.withheldNativeSteer.erase channelId },
    (q.entry channelId).map fun qe => qe.event.id.toHex)

def hasId (eventId : String) (qe : QueuedEvent) : Bool :=
  qe.event.id.toHex == eventId

def markNativeSteerPending (q : EventQueue) (channelId : Uuid) (eventId : String) :
    EventQueue × Bool :=
  match (q.entry channelId).find? (hasId eventId) with
  | none => (q, false)
  | some qe =>
    let rest := (q.entry channelId).eraseP (hasId eventId)
    ({ q with
        queues := if rest.isEmpty then q.queues.erase channelId
          else q.queues.insert channelId rest
        withheldNativeSteer := q.withheldNativeSteer.insert channelId
          ((q.withheldNativeSteer.lookup channelId).getD [] ++ [qe]) },
      true)

/-- Also the events that the cap pushes out. -/
def releaseNativeSteer (q : EventQueue) (channelId : Uuid) (eventId : String) :
    EventQueue × List QueuedEvent :=
  let entries := (q.withheldNativeSteer.lookup channelId).getD []
  match entries.find? (hasId eventId) with
  | none => (q, [])
  | some qe =>
    let rest := entries.eraseP (hasId eventId)
    { q with
      withheldNativeSteer := if rest.isEmpty then q.withheldNativeSteer.erase channelId
        else q.withheldNativeSteer.insert channelId rest }.pushFront channelId [qe]

def removeEvent (q : EventQueue) (channelId : Uuid) (eventId : String) : EventQueue :=
  { q with
    withheldNativeSteer := retainEvents q.withheldNativeSteer channelId fun qe => !hasId eventId qe
    queues := retainEvents q.queues channelId fun qe => !hasId eventId qe }

def compactExpiredState (q : EventQueue) (now : Instant) : EventQueue :=
  let retryAfter := q.retryAfter.retain fun _ deadline => decide (now < deadline)
  { q with
    retryAfter := retryAfter
    retryCounts := q.retryCounts.retain fun id _ =>
      (retryAfter.lookup id).isSome || !(q.entry id).isEmpty || decide (id ∈ q.inFlightChannels) }

end EventQueue

/-- The public operations, each with the clock reading that it takes. -/
inductive QueueOp where
  | withInFlightDeadline (maxTurnDurationSecs : Nat)
  | extendInFlightDeadline (now : Instant) (channelId : Uuid) (maxTurnSecs : Nat)
  | push (event : QueuedEvent)
  | flushNext (now : Instant)
  | markComplete (now : Instant) (channelId : Uuid)
  | requeue (now : Instant) (jittered : Nat → Duration) (batch : FlushBatch)
  | requeuePreserveTimestamps (batch : FlushBatch)
  | requeueAsCancelled (batch : FlushBatch) (reason : CancelReason)
  | hasFlushableWork (now : Instant)
  | drainChannel (channelId : Uuid)
  | markNativeSteerPending (channelId : Uuid) (eventId : String)
  | releaseNativeSteer (channelId : Uuid) (eventId : String)
  | removeEvent (channelId : Uuid) (eventId : String)
  | compactExpiredState (now : Instant)

/-- The batch that an operation is handed. -/
def QueueOp.handed : QueueOp → Option FlushBatch
  | .requeue _ _ batch => some batch
  | .requeuePreserveTimestamps batch => some batch
  | .requeueAsCancelled batch _ => some batch
  | _ => none

/-- What an operation lets its caller see. -/
structure Outcome where
  accepted : Option QueuedEvent
  dropped : List QueuedEvent
  flushed : Option FlushBatch
  deadLettered : Option FlushBatch

def Outcome.silent : Outcome :=
  ⟨none, [], none, none⟩

def Outcome.dropping (dropped : List QueuedEvent) : Outcome :=
  ⟨none, dropped, none, none⟩

namespace EventQueue

def apply (q : EventQueue) : QueueOp → EventQueue × Outcome
  | .withInFlightDeadline secs => (q.withInFlightDeadline secs, .silent)
  | .extendInFlightDeadline now id secs => (q.extendInFlightDeadline now id secs, .silent)
  | .push event =>
    let r := q.push event
    (r.1, ⟨if r.2.2 then some event else none, r.2.1, none, none⟩)
  | .flushNext now =>
    let r := q.flushNext now
    (r.1, ⟨none, r.2.1, r.2.2, none⟩)
  | .markComplete now id => (q.markComplete now id, .silent)
  | .requeue now jittered batch =>
    let r := q.requeue now jittered batch
    (r.1, ⟨none, r.2.1, none, r.2.2⟩)
  | .requeuePreserveTimestamps batch =>
    let r := q.requeuePreserveTimestamps batch
    (r.1, .dropping r.2)
  | .requeueAsCancelled batch reason => (q.requeueAsCancelled batch reason, .silent)
  | .hasFlushableWork now =>
    let r := q.hasFlushableWork now
    (r.1, .dropping r.2.1)
  | .drainChannel id => ((q.drainChannel id).1, .silent)
  | .markNativeSteerPending id eventId => ((q.markNativeSteerPending id eventId).1, .silent)
  | .releaseNativeSteer id eventId =>
    let r := q.releaseNativeSteer id eventId
    (r.1, .dropping r.2)
  | .removeEvent id eventId => (q.removeEvent id eventId, .silent)
  | .compactExpiredState now => (q.compactExpiredState now, .silent)

/-- The same tables in another order of iteration, which a hash table may take at any time. -/
structure Reordered (q q' : EventQueue) : Prop where
  queues : q.queues.entries.Perm q'.queues.entries
  inFlightChannels : q'.inFlightChannels = q.inFlightChannels
  inFlightDeadlines : q.inFlightDeadlines.entries.Perm q'.inFlightDeadlines.entries
  inFlightBatchSizes : q.inFlightBatchSizes.entries.Perm q'.inFlightBatchSizes.entries
  retryAfter : q.retryAfter.entries.Perm q'.retryAfter.entries
  retryCounts : q.retryCounts.entries.Perm q'.retryCounts.entries
  dedupMode : q'.dedupMode = q.dedupMode
  cancelledBatches : q.cancelledBatches.entries.Perm q'.cancelledBatches.entries
  cancelReasons : q.cancelReasons.entries.Perm q'.cancelReasons.entries
  withheldNativeSteer : q.withheldNativeSteer.entries.Perm q'.withheldNativeSteer.entries
  inFlightDeadline : q'.inFlightDeadline = q.inFlightDeadline

/-- An operation on the tables in some order of iteration. -/
def Step (q : EventQueue) (op : QueueOp) (out : Outcome) (q' : EventQueue) : Prop :=
  ∃ q₁, q.Reordered q₁ ∧ q₁.apply op = (q', out)

end EventQueue

end Buzz
