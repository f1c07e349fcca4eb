import Buzz.Core.Kind
import Buzz.Db.Replaceable
import Buzz.Lib.Fallible
import Buzz.Lib.JsonValue
import Buzz.Lib.Table

namespace Buzz.Push
set_option autoImplicit true
open Replaceable (Head validTimestamp)

abbrev Subscriptions := Json.Value Json.FloatText

def PUSH_GATE_BACKFILL_SECS : Nat := 120

/-- The kinds of the match trigger and of the backfill. -/
def PUSH_KINDS : List Nat :=
  [7, 9, 1059, 40007, 46010]

def WAKE_CLASSES : List String :=
  ["silent", "default", "time_sensitive", "urgent"]

def SECOND : Nat := 1000000

/-- `EXTRACT(EPOCH FROM now())::bigint`, which rounds. The clock counts microseconds. -/
def epochSecs (now : Nat) : Int :=
  ((now + SECOND / 2) / SECOND : Nat)

/-- The key of a lease within its community. -/
structure Address where
  author : PublicKey
  installationId : String
deriving DecidableEq

def Address.check (a : Address) : Bool :=
  1 ≤ a.installationId.utf8ByteSize && a.installationId.utf8ByteSize ≤ 64

structure LeaseVersion where
  sourceEventId : EventId
  sourceCreatedAt : Int
  generation : Int
  expiresAt : Int

/-- The place of the source event in the order of NIP-01. -/
def LeaseVersion.head (v : LeaseVersion) : Head :=
  ⟨v.sourceCreatedAt, v.sourceEventId⟩

/-- `wins_event`: later, or at the same second with the lower id. -/
def LeaseVersion.winsEvent (v current : LeaseVersion) : Bool :=
  v.sourceCreatedAt > current.sourceCreatedAt ||
    (v.sourceCreatedAt = current.sourceCreatedAt &&
      v.sourceEventId.nibbles < current.sourceEventId.nibbles)

structure ActiveLease where
  appProfile : String
  endpointHash : List UInt8
  endpointGrant : String
  maxClass : String
  subscriptions : Subscriptions

/-- The columns of `push_leases` next to the key. -/
structure Lease where
  version : LeaseVersion
  active : Bool
  endpointEnabled : Bool
  appProfile : Option String
  endpointHash : Option (List UInt8)
  endpointGrant : Option String
  maxClass : Option String
  subscriptions : Option Subscriptions

/-- The `CHECK`s of `push_leases`: an active lease has all the active columns, any other none. -/
def Lease.check (l : Lease) : Bool :=
  0 < l.version.generation &&
    l.endpointHash.all (fun hash => hash.length = 32) &&
    l.maxClass.all (fun c => c ∈ WAKE_CLASSES) &&
    ((l.active && l.appProfile.isSome && l.endpointHash.isSome && l.endpointGrant.isSome &&
        l.maxClass.isSome && l.subscriptions.isSome) ||
      (! l.active && l.appProfile.isNone && l.endpointHash.isNone && l.endpointGrant.isNone &&
        l.maxClass.isNone && l.subscriptions.isNone))

/-- What the database lets into `push_leases`. -/
structure LeaseRow extends Lease where
  checked : toLease.check = true

def LeaseRow.ofLease (l : Lease) : Option LeaseRow :=
  if h : l.check = true then some ⟨l, h⟩ else none

/-- The row of an accepted version. -/
def Lease.ofVersion (version : LeaseVersion) (active : Option ActiveLease) : Lease where
  version := version
  active := active.isSome
  endpointEnabled := true
  appProfile := active.map (·.appProfile)
  endpointHash := active.map (·.endpointHash)
  endpointGrant := active.map (·.endpointGrant)
  maxClass := active.map (·.maxClass)
  subscriptions := active.map (·.subscriptions)

/-- The columns of `events` that the push statements use. -/
structure EventRow where
  id : EventId
  pubkey : PublicKey
  createdAt : Int
  kind : Nat
  receivedAt : Nat
  channelId : Option Uuid
  dTag : Option String
  deletedAt : Option Nat
deriving DecidableEq

/-- The integrity constraints a statement can violate. -/
inductive Violation where
  | check
  | eventsPrimaryKey
  | leasesSourceEvent
  | leasesEndpoint
  | wakesPrimaryKey
deriving DecidableEq

inductive DbError where
  | invalidTimestamp (secs : Int)
  | database (violation : Violation)
  | invalidData (message : String)
deriving DecidableEq

inductive AcceptLeaseOutcome where
  | accepted
  | staleEvent
  | staleGeneration
  | endpointAlreadyLeased
  | leaseQuotaExceeded
  | sourceEventCollision
  | constraintViolation
deriving DecidableEq

inductive ReplaceLeaseOutcome where
  | accepted
  | staleEvent
  | staleGeneration
deriving DecidableEq

def constraintAcceptanceOutcome : Violation → AcceptLeaseOutcome
  | .leasesEndpoint => .endpointAlreadyLeased
  | .leasesSourceEvent => .sourceEventCollision
  | .check => .constraintViolation
  | .eventsPrimaryKey => .constraintViolation
  | .wakesPrimaryKey => .constraintViolation

/-- How a transaction ends that is not committed. -/
inductive Rollback where
  | refused (outcome : AcceptLeaseOutcome)
  | failed (error : DbError)

/-- What the push tables hold of one community, with its events. -/
structure Store where
  leases : Table Address LeaseRow
  events : List EventRow
  matchQueue : List EventId

/-- One lease event, as its caller has validated it: the version is that of the event. -/
structure LeaseCall where
  event : Event
  installationId : String
  version : LeaseVersion
  active : Option ActiveLease
  sourced : version.sourceEventId = event.id

namespace LeaseCall

def address (c : LeaseCall) : Address :=
  ⟨c.event.pubkey, c.installationId⟩

def lease (c : LeaseCall) : Lease :=
  .ofVersion c.version c.active

def eventRow (c : LeaseCall) (now : Nat) : EventRow where
  id := c.event.id
  pubkey := c.event.pubkey
  createdAt := c.version.sourceCreatedAt
  kind := KIND_PUSH_LEASE
  receivedAt := now
  channelId := none
  dTag := some c.installationId
  deletedAt := none

end LeaseCall

/-- The event is the live lease event of the address. -/
def EventRow.isLeaseOf (a : Address) (row : EventRow) : Bool :=
  row.kind = KIND_PUSH_LEASE && row.pubkey = a.author && row.dTag = some a.installationId &&
    row.deletedAt.isNone

namespace Store

/-- No lease yet, next to any events. -/
def init (events : List EventRow) : Store :=
  ⟨∅, events, []⟩

/-- `ON CONFLICT DO NOTHING` on the event of a match job. -/
def backfillPushMatchJobs (now : Nat) (s : Store) : Store :=
  { s with
    matchQueue := (s.events.filter fun row =>
      row.kind ∈ PUSH_KINDS && row.deletedAt.isNone &&
        now < row.receivedAt + PUSH_GATE_BACKFILL_SECS * SECOND).foldl
      (fun jobs row => if row.id ∈ jobs then jobs else jobs ++ [row.id]) s.matchQueue }

/-- The insert into `push_leases`, which replaces the row of the address. Its unique indexes are
those of the source event and, over active rows, of the endpoint of an author. -/
def upsertLease (a : Address) (l : Lease) (s : Store) : Except Violation Store :=
  match LeaseRow.ofLease l with
  | none => .error .check
  | some row =>
    if ! a.check then .error .check
    else if s.leases.entries.any fun e =>
        e.1 ≠ a && e.2.version.sourceEventId = l.version.sourceEventId then
      .error .leasesSourceEvent
    else if l.active && s.leases.entries.any fun e =>
        e.1 ≠ a && e.2.active && e.1.author = a.author && e.2.appProfile = l.appProfile &&
          e.2.endpointHash = l.endpointHash then
      .error .leasesEndpoint
    else .ok { s with leases := s.leases.insert a row }

/-- A source event belongs to one address. Its own address has seen it. -/
def checkSource (c : LeaseCall) (s : Store) : Except Rollback Unit :=
  match s.leases.entries.find? fun e => e.2.version.sourceEventId = c.version.sourceEventId with
  | none => .ok ()
  | some e =>
    if e.1 ≠ c.address then .error (.refused .sourceEventCollision)
    else .error (.refused .staleEvent)

def checkOrder (c : LeaseCall) (s : Store) : Except Rollback Unit :=
  match s.leases.lookup c.address with
  | none => .ok ()
  | some current =>
    if ! c.version.winsEvent current.version then .error (.refused .staleEvent)
    else if c.version.generation ≤ current.version.generation then
      .error (.refused .staleGeneration)
    else .ok ()

/-- An active lease of the author that has expired. -/
def expiredLease (author : PublicKey) (now : Nat) (a : Address) (row : LeaseRow) : Bool :=
  a.author = author && row.active && row.version.expiresAt ≤ epochSecs now

/-- `SET active=false, endpoint_enabled=false`, with the other columns as they are. -/
def deactivate (row : LeaseRow) : Option LeaseRow :=
  LeaseRow.ofLease { row.toLease with active := false, endpointEnabled := false }

/-- The clean-up before the checks of the whole author. One row that breaks a `CHECK` fails it. -/
def expireLeases (author : PublicKey) (now : Nat) (s : Store) : Except Rollback Store :=
  if s.leases.entries.any fun e => expiredLease author now e.1 e.2 && (deactivate e.2).isNone then
    .error (.failed (.database .check))
  else .ok { s with
    leases := s.leases.mapVals fun a row =>
      if expiredLease author now a row then (deactivate row).getD row else row }

/-- The quota and the endpoint, against the other installations of the author. -/
def checkAuthor (c : LeaseCall) (maxActiveLeases : Int) (s : Store) : Except Rollback Unit :=
  match c.active with
  | none => .ok ()
  | some active =>
    if maxActiveLeases ≤ s.leases.entries.countP fun e =>
        e.1.author = c.event.pubkey && e.2.active && e.1.installationId ≠ c.installationId then
      .error (.refused .leaseQuotaExceeded)
    else if s.leases.entries.any fun e =>
        e.1.author = c.event.pubkey && e.1.installationId ≠ c.installationId && e.2.active &&
          e.2.appProfile = some active.appProfile &&
          e.2.endpointHash = some active.endpointHash then
      .error (.refused .endpointAlreadyLeased)
    else .ok ()

/-- The live lease event of the address makes room. -/
def retireEvents (a : Address) (now : Nat) (s : Store) : List EventRow :=
  s.events.map fun row => if row.isLeaseOf a then { row with deletedAt := some now } else row

/-- The new lease event, as a row that no other has the primary key of. -/
def replaceEvent (c : LeaseCall) (now : Nat) (s : Store) : Except Rollback Store :=
  if ! validTimestamp c.version.sourceCreatedAt then
    .error (.failed (.invalidTimestamp c.version.sourceCreatedAt))
  else if (s.retireEvents c.address now).any fun row =>
      row.createdAt = c.version.sourceCreatedAt && row.id = c.event.id then
    .error (.refused (constraintAcceptanceOutcome .eventsPrimaryKey))
  else .ok { s with events := s.retireEvents c.address now ++ [c.eventRow now] }

def replaceLeaseRow (c : LeaseCall) (s : Store) : Except Rollback Store :=
  match s.upsertLease c.address c.lease with
  | .ok s' => .ok s'
  | .error violation => .error (.refused (constraintAcceptanceOutcome violation))

/-- The transaction under the locks of the address and of the author. -/
def acceptTransaction (c : LeaseCall) (maxActiveLeases : Int) (now : Nat) (s : Store) :
    Except Rollback Store := do
  s.checkSource c
  s.checkOrder c
  let s ← s.expireLeases c.event.pubkey now
  s.checkAuthor c maxActiveLeases
  let s ← s.replaceEvent c now
  let s ← s.replaceLeaseRow c
  return if c.active.isSome then s.backfillPushMatchJobs now else s

/-- Only an accepted event is committed. -/
def acceptLeaseEvent (c : LeaseCall) (maxActiveLeases : Int) (now : Nat) (s : Store) :
    Store × Except DbError AcceptLeaseOutcome :=
  match s.acceptTransaction c maxActiveLeases now with
  | .ok s' => (s', .ok .accepted)
  | .error (.refused outcome) => (s, .ok outcome)
  | .error (.failed error) => (s, .error error)

/-- The upsert of `replace_lease`, where its condition holds. -/
def replaceRow (a : Address) (version : LeaseVersion) (active : Option ActiveLease) (now : Nat)
    (s : Store) : Store × Except DbError ReplaceLeaseOutcome :=
  match s.upsertLease a (.ofVersion version active) with
  | .ok s' => (if active.isSome then s'.backfillPushMatchJobs now else s', .ok .accepted)
  | .error violation => (s, .error (.database violation))

/-- `replace_active_lease` and `revoke_lease`. A row of the address is met before its condition, and
after the `CHECK`s. -/
def replaceLease (a : Address) (version : LeaseVersion) (active : Option ActiveLease) (now : Nat)
    (s : Store) : Store × Except DbError ReplaceLeaseOutcome :=
  match s.leases.lookup a with
  | none => s.replaceRow a version active now
  | some current =>
    if (Lease.ofVersion version active).check && a.check then
      if ! version.winsEvent current.version then (s, .ok .staleEvent)
      else if version.generation ≤ current.version.generation then (s, .ok .staleGeneration)
      else s.replaceRow a version active now
    else (s, .error (.database .check))

/-- The current endpoint of an address is switched off, if it is of the generation. -/
def disableEndpointGeneration (a : Address) (generation : Int) (s : Store) : Store × Bool :=
  match s.leases.lookup a with
  | none => (s, false)
  | some row =>
    if row.version.generation = generation && row.active && row.endpointEnabled then
      ({ s with leases := s.leases.insert a ⟨{ row.toLease with endpointEnabled := false },
        row.checked⟩ }, true)
    else (s, false)

end Store

end Buzz.Push
