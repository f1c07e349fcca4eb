import Buzz.Push.Lease

namespace Buzz.Push
set_option autoImplicit true

inductive WakeState where
  | pending
  | sending
  | delivered
  | failed
deriving DecidableEq

/-- The columns of `push_wake_outbox` that stay as they were inserted. -/
structure Wake where
  id : Uuid
  address : Address
  leaseGeneration : Int
  endpointHash : List UInt8
  eventId : EventId
  wakeClass : String
  expiresAt : Int
  createdAt : Nat

/-- What an event and an endpoint have one job for. -/
def Wake.key (w : Wake) : List UInt8 × EventId :=
  (w.endpointHash, w.eventId)

structure WakeJob extends Wake where
  state : WakeState
  attempts : Nat
  nextAttemptAt : Nat
  leaseUntil : Option Nat
  claimId : Option Uuid

structure WakeRequest where
  address : Address
  leaseGeneration : Int
  eventId : EventId
  wakeClass : String
  expiresAt : Int

inductive EnqueueWakeOutcome where
  | enqueued (id : Uuid)
  | duplicate (id : Uuid)
  | inactiveLease
deriving DecidableEq

structure ClaimedWake where
  id : Uuid
  claimId : Uuid
  eventId : EventId
  channelId : Option Uuid
  address : Address
  leaseGeneration : Int
  endpointGrant : String
  wakeClass : String
  expiresAt : Int
  attempt : Nat

inductive RevalidateWakeOutcome where
  | deliver (wake : ClaimedWake)
  | suppressed

/-- The push tables and the wake outbox of one community. -/
structure Outbox where
  store : Store
  jobs : List WakeJob

/-- A lease that a wake may be sent for. -/
def LeaseRow.eligible (now : Nat) (row : LeaseRow) : Bool :=
  row.active && row.endpointEnabled && epochSecs now < row.version.expiresAt

/-- The join of a job with the current lease of its address. -/
def Store.leaseFor (w : Wake) (now : Nat) (s : Store) : Option LeaseRow :=
  (s.leases.lookup w.address).filter fun row =>
    row.version.generation = w.leaseGeneration && row.endpointHash = some w.endpointHash &&
      row.eligible now

def Store.liveEvents (id : EventId) (s : Store) : List EventRow :=
  s.events.filter fun row => row.id = id && row.deletedAt.isNone

/-- `deleted_at` is set on the rows of an event. -/
def Store.softDelete (id : EventId) (now : Nat) (s : Store) : Store :=
  { s with
    events := s.events.map fun row =>
      if row.id = id && row.deletedAt.isNone then { row with deletedAt := some now } else row }

namespace WakeRequest

/-- The endpoint of the request's lease, if that is current, eligible and of its generation. An
active row has an endpoint. -/
def resolve (now : Nat) (s : Store) (r : WakeRequest) : Option (List UInt8) :=
  ((s.leases.lookup r.address).filter fun row =>
    row.eligible now && row.version.generation = r.leaseGeneration).bind (·.endpointHash)

/-- A new row, with the defaults of its other columns. -/
def job (id : Uuid) (now : Nat) (r : WakeRequest) (endpointHash : List UInt8) : WakeJob where
  id := id
  address := r.address
  leaseGeneration := r.leaseGeneration
  endpointHash := endpointHash
  eventId := r.eventId
  wakeClass := r.wakeClass
  expiresAt := r.expiresAt
  createdAt := now
  state := .pending
  attempts := 0
  nextAttemptAt := now
  leaseUntil := none
  claimId := none

def key (now : Nat) (s : Store) (r : WakeRequest) : Option (List UInt8 × EventId) :=
  (r.resolve now s).map fun hash => (hash, r.eventId)

end WakeRequest

namespace WakeJob

def claim (claimId : Uuid) (leaseUntil : Nat) (job : WakeJob) : WakeJob :=
  { job with
    state := .sending
    claimId := some claimId
    leaseUntil := some leaseUntil
    attempts := job.attempts + 1 }

/-- A claim is over, and leaves the job in the state. -/
def release (state : WakeState) (job : WakeJob) : WakeJob :=
  { job with state := state, claimId := none, leaseUntil := none }

def heldBy (id claimId : Uuid) (job : WakeJob) : Bool :=
  job.id = id && job.claimId = some claimId && job.state = .sending

def claimedWake (channelId : Option Uuid) (row : LeaseRow) (job : WakeJob) : Option ClaimedWake :=
  match job.claimId, row.endpointGrant with
  | some claimId, some grant =>
    some {
      id := job.id
      claimId := claimId
      eventId := job.eventId
      channelId := channelId
      address := job.address
      leaseGeneration := job.leaseGeneration
      endpointGrant := grant
      wakeClass := job.wakeClass
      expiresAt := job.expiresAt
      attempt := job.attempts }
  | _, _ => none

/-- `ORDER BY next_attempt_at, created_at, id`. -/
def dueBefore (a b : WakeJob) : Bool :=
  a.nextAttemptAt < b.nextAttemptAt || (a.nextAttemptAt = b.nextAttemptAt &&
    (a.createdAt < b.createdAt || (a.createdAt = b.createdAt && a.id.nibbles ≤ b.id.nibbles)))

end WakeJob

/-- One row of the insert, with `ON CONFLICT (community_id, endpoint_hash, event_id) DO NOTHING`. -/
def insertWake (jobs : List WakeJob) (job : WakeJob) : Except Violation (List WakeJob) :=
  if job.wakeClass ∉ WAKE_CLASSES then .error .check
  else if jobs.any fun old => old.key = job.key then .ok jobs
  else if jobs.any fun old => old.id = job.id then .error .wakesPrimaryKey
  else .ok (jobs ++ [job])

/-- One answer for each request. The first request of an inserted key is its `Enqueued`. -/
def enqueueOutcomes (jobs inserted : List WakeJob) : List (Option (List UInt8 × EventId)) →
    List (List UInt8 × EventId) → Except DbError (List EnqueueWakeOutcome)
  | [], _ => .ok []
  | none :: keys, reported => (.inactiveLease :: ·) <$> enqueueOutcomes jobs inserted keys reported
  | some key :: keys, reported =>
    match jobs.find? fun job => job.key = key with
    | none => .error (.invalidData "wake enqueue resolved neither insert nor duplicate")
    | some job =>
      if (inserted.any fun job => job.key = key) && key ∉ reported then
        (.enqueued job.id :: ·) <$> enqueueOutcomes jobs inserted keys (key :: reported)
      else (.duplicate job.id :: ·) <$> enqueueOutcomes jobs inserted keys reported

namespace Outbox

/-- The rows that a batch proposes, each with an id of its own. -/
def proposed (requests : List WakeRequest) (genRandomUuid : Nat → Uuid) (now : Nat) (o : Outbox) :
    List WakeJob :=
  requests.zipIdx.filterMap fun (r, k) => (r.resolve now o.store).map (r.job (genRandomUuid k) now)

/-- The transaction is committed before the answers are put together. -/
def enqueueWakes (requests : List WakeRequest) (genRandomUuid : Nat → Uuid) (now : Nat)
    (o : Outbox) : Outbox × Except DbError (List EnqueueWakeOutcome) :=
  match (o.proposed requests genRandomUuid now).foldlM insertWake o.jobs with
  | .error violation => (o, .error (.database violation))
  | .ok jobs =>
    ({ o with jobs := jobs },
      enqueueOutcomes jobs (jobs.drop o.jobs.length) (requests.map (·.key now o.store)) [])

/-- A job whose time has come, pending or with a claim that has run out. -/
def claimable (now : Nat) (o : Outbox) (job : WakeJob) : Bool :=
  epochSecs now < job.expiresAt && job.nextAttemptAt ≤ now &&
    (job.state = .pending || (job.state = .sending && job.leaseUntil.any (· < now))) &&
    (o.store.leaseFor job.toWake now).isSome

/-- The candidates, with their events, as far as no other worker has them locked. -/
def candidates (locked : Uuid → Bool) (limit now : Nat) (o : Outbox) :
    List (WakeJob × EventRow) :=
  ((((o.jobs.filter (o.claimable now)).insertionSort (WakeJob.dueBefore · ·)).flatMap fun job =>
    (o.store.liveEvents job.eventId).map fun event => (job, event)).filter fun c =>
      ! locked c.1.id).take limit

/-- Another worker's lock can hide any job from the statement. -/
def claimDueWakes (locked : Uuid → Bool) (limit : Nat) (claimId : Uuid) (leaseUntil now : Nat)
    (o : Outbox) : Outbox × List ClaimedWake :=
  let candidates := o.candidates locked limit now
  ({ o with
      jobs := o.jobs.map fun job =>
        if candidates.any fun c => c.1.id = job.id then job.claim claimId leaseUntil else job },
    o.jobs.filterMap fun job =>
      (candidates.find? fun c => c.1.id = job.id).bind fun c =>
        (o.store.leaseFor job.toWake now).bind fun row =>
          (job.claim claimId leaseUntil).claimedWake c.2.channelId row)

def revalidateWakeForSend (id claimId : Uuid) (now : Nat) (o : Outbox) : RevalidateWakeOutcome :=
  match o.jobs.find? fun job => job.heldBy id claimId && job.leaseUntil.any (now ≤ ·) &&
    epochSecs now < job.expiresAt with
  | none => .suppressed
  | some job =>
    match o.store.leaseFor job.toWake now, o.store.liveEvents job.eventId with
    | some row, event :: _ =>
      ((job.claimedWake event.channelId row).map RevalidateWakeOutcome.deliver).getD .suppressed
    | _, _ => .suppressed

/-- An update of the job under one claim. It says whether there was one. -/
def settle (id claimId : Uuid) (f : WakeJob → WakeJob) (o : Outbox) : Outbox × Bool :=
  ({ o with jobs := o.jobs.map fun job => if job.heldBy id claimId then f job else job },
    (o.jobs.countP (·.heldBy id claimId)) = 1)

def completeWake (id claimId : Uuid) (o : Outbox) : Outbox × Bool :=
  o.settle id claimId (·.release .delivered)

def retryWake (id claimId : Uuid) (nextAttemptAt : Nat) (o : Outbox) : Outbox × Bool :=
  o.settle id claimId fun job => { job.release .pending with nextAttemptAt := nextAttemptAt }

def failWake (id claimId : Uuid) (o : Outbox) : Outbox × Bool :=
  o.settle id claimId (·.release .failed)

end Outbox

end Buzz.Push
