import Buzz.Core.Nip10
import Buzz.Db.EventQuery

namespace Buzz
set_option autoImplicit true

/-- A row of `thread_metadata`. -/
structure ThreadRow where
  eventCreatedAt : Int
  eventId : EventId
  channelId : Uuid
  parentEventId : Option EventId
  parentEventCreatedAt : Option Int
  rootEventId : Option EventId
  rootEventCreatedAt : Option Int
  depth : Nat
  broadcast : Bool
  replyCount : Nat
  descendantCount : Nat
deriving DecidableEq

/-- The event and thread tables of one community. -/
structure ThreadDb where
  community : CommunityId
  events : List EventRow
  threads : List ThreadRow

def ThreadDb.empty (community : CommunityId) : ThreadDb :=
  ⟨community, [], []⟩

structure ThreadMetadataParams where
  eventId : EventId
  eventCreatedAt : Int
  channelId : Uuid
  parentEventId : Option EventId
  parentEventCreatedAt : Option Int
  rootEventId : Option EventId
  rootEventCreatedAt : Option Int
  depth : Nat
  broadcast : Bool

/-- The ancestry that ingest resolves for a reply. -/
structure ThreadMetadataOwned where
  eventId : EventId
  eventCreatedAt : Int
  channelId : Uuid
  parentEventId : EventId
  parentEventCreatedAt : Int
  rootEventId : EventId
  rootEventCreatedAt : Int
  depth : Nat
  broadcast : Bool

def ThreadMetadataOwned.asParams (m : ThreadMetadataOwned) : ThreadMetadataParams :=
  ⟨m.eventId, m.eventCreatedAt, m.channelId, some m.parentEventId, some m.parentEventCreatedAt,
    some m.rootEventId, some m.rootEventCreatedAt, m.depth, m.broadcast⟩

/-- `DateTime::from_timestamp(created_at.as_secs() as i64, 0)`. -/
def eventTimestamp (event : Event) : Option Int :=
  DateTime.fromTimestamp (asI64 event.createdAt)

def decodeEventId (hex : String) : Option EventId :=
  HexId.ofChars 64 hex.toList

namespace ThreadDb

/-- The live event with an id. -/
def getEventById (db : ThreadDb) (id : EventId) : Option StoredEvent :=
  ((db.events.filter fun row => row.id == id && !row.deleted).insertionSort rowBefore).head?.bind
    rowToStoredEvent

def getThreadMetadataByEvent (db : ThreadDb) (id : EventId) : Option ThreadRow :=
  db.threads.find? fun t => t.eventId == id

/-- The time of a live event, or the time of the reply's parent. -/
def rootTimestamp (db : ThreadDb) (root : EventId) (parentCreated : Int) : Int :=
  match db.getEventById root with
  | some rootEv => (eventTimestamp rootEv.event).getD parentCreated
  | none => parentCreated

/-- Ancestry of a reply whose parent has no thread row, from the parent's own tags. -/
def deriveAncestryFromParentTags (db : ThreadDb) (parentEvent : Event) (parentId : EventId)
    (parentCreated : Int) : EventId × Int × Nat :=
  let markers := parseThreadMarkers parentEvent.tags
  let parentRoot :=
    ((markers.resolve.map Prod.fst).bind decodeEventId).getD parentId
  if parentRoot = parentId then (parentRoot, parentCreated, 1)
  else (parentRoot, db.rootTimestamp parentRoot parentCreated, 2)

/-- The root, its time and the depth of a reply to a parent, or why the reply is refused. -/
def replyAncestry (db : ThreadDb) (clientRoot parentId : EventId) (parentEvent : StoredEvent)
    (parentCreated : Int) : Except String (EventId × Int × Nat) :=
  match db.getThreadMetadataByEvent parentId with
  | some threadMeta =>
    let effectiveRoot := threadMeta.rootEventId.getD parentId
    if clientRoot ≠ effectiveRoot then .error "root tag does not match thread ancestry"
    else if 100 < threadMeta.depth + 1 then .error "thread depth limit exceeded"
    else .ok (effectiveRoot, db.rootTimestamp effectiveRoot parentCreated, threadMeta.depth + 1)
  | none =>
    let ancestry := db.deriveAncestryFromParentTags parentEvent.event parentId parentCreated
    if clientRoot ≠ ancestry.1 then .error "root tag does not match thread ancestry"
    else .ok ancestry

def isBroadcast (event : Event) : Bool :=
  event.tags.any fun t => t.kind == "broadcast" && t.content == some "1"

/-- Thread ancestry of an event, `none` for a top-level one. -/
def resolveNip10ThreadMeta (db : ThreadDb) (event : Event) (channelId : Uuid) (now : Int) :
    Except String (Option ThreadMetadataOwned) :=
  match (parseThreadMarkers event.tags).resolve with
  | none => .ok none
  | some (rootHex, parentHex) =>
    match decodeEventId parentHex with
    | none => .error "invalid parent event ID hex"
    | some parentId =>
      match db.getEventById parentId with
      | none => .error "reply parent not found"
      | some parentEvent =>
        match parentEvent.channelId with
        | none => .error "parent event has no channel association"
        | some parentCh =>
          if parentCh ≠ channelId then .error "parent event belongs to a different channel"
          else
            let parentCreated := (eventTimestamp parentEvent.event).getD now
            match decodeEventId rootHex with
            | none => .error "invalid root event ID hex"
            | some clientRoot =>
              match db.replyAncestry clientRoot parentId parentEvent parentCreated with
              | .error message => .error message
              | .ok (root, rootCreated, depth) =>
                .ok (some ⟨event.id, (eventTimestamp event).getD now, channelId, parentId,
                  parentCreated, root, rootCreated, depth, isBroadcast event⟩)

/-- `INSERT INTO thread_metadata .. ON CONFLICT DO NOTHING`. -/
def insertThreadRow (threads : List ThreadRow) (t : ThreadRow) : List ThreadRow × Bool :=
  if threads.any fun u => u.eventCreatedAt == t.eventCreatedAt && u.eventId == t.eventId then
    (threads, false)
  else (threads ++ [t], true)

/-- The row that a parent or a root gets on its first reply. -/
def stubRow (createdAt : Int) (id : EventId) (channelId : Uuid) : ThreadRow :=
  ⟨createdAt, id, channelId, none, none, none, none, 0, false, 0, 0⟩

def updateReplyCount (f : Nat → Nat) (id : EventId) (threads : List ThreadRow) : List ThreadRow :=
  threads.map fun t => if t.eventId = id then { t with replyCount := f t.replyCount } else t

def updateDescendantCount (f : Nat → Nat) (id : EventId) (threads : List ThreadRow) :
    List ThreadRow :=
  threads.map fun t =>
    if t.eventId = id then { t with descendantCount := f t.descendantCount } else t

/-- The thread part of `insert_event_with_thread_metadata_tx`. -/
def insertThreadMetadata (threads : List ThreadRow) (m : ThreadMetadataParams) : List ThreadRow :=
  let inserted := insertThreadRow threads
    ⟨m.eventCreatedAt, m.eventId, m.channelId, m.parentEventId, m.parentEventCreatedAt,
      m.rootEventId, m.rootEventCreatedAt, m.depth, m.broadcast, 0, 0⟩
  match inserted.2, m.parentEventId with
  | true, some pid =>
    let threads := (insertThreadRow inserted.1
      (stubRow (m.parentEventCreatedAt.getD m.eventCreatedAt) pid m.channelId)).1
    let threads :=
      match m.rootEventId with
      | some rootId =>
        if rootId ≠ pid then
          (insertThreadRow threads
            (stubRow (m.rootEventCreatedAt.getD m.eventCreatedAt) rootId m.channelId)).1
        else threads
      | none => threads
    let threads := updateReplyCount (· + 1) pid threads
    match m.rootEventId with
    | some rootId => updateDescendantCount (· + 1) rootId threads
    | none => threads
  | _, _ => inserted.1

/-- The row of an event as `insert_event_with_thread_metadata_tx` writes it. The mention rows
are written elsewhere. -/
def eventRow (community : CommunityId) (event : Event) (createdAt : Int) (channelId : Option Uuid) :
    EventRow where
  communityId := community
  id := event.id
  pubkey := event.pubkey
  createdAt := createdAt
  kind := event.kind
  tags := event.tags
  channelId := channelId
  deleted := false
  dTag := extractDTag event
  mentions := []

def insertEventWithThreadMetadata (db : ThreadDb) (event : Event) (channelId : Option Uuid)
    (threadMeta : Option ThreadMetadataParams) : Except DbError (ThreadDb × Bool) :=
  if event.kind.toNat = KIND_AUTH then .error .authEventRejected
  else if isEphemeral event.kind.toNat then .error (.ephemeralEventRejected event.kind)
  else
    match eventTimestamp event with
    | none => .error (.invalidTimestamp (asI64 event.createdAt))
    | some createdAt =>
      if db.events.any fun row => row.createdAt == createdAt && row.id == event.id then
        .ok (db, false)
      else
        .ok ({ db with
          events := db.events ++ [eventRow db.community event createdAt channelId]
          threads :=
            match threadMeta with
            | some m => insertThreadMetadata db.threads m
            | none => db.threads }, true)

/-- Mark the live rows of an event deleted and take it off its parent's and root's counters. -/
def softDeleteEventAndUpdateThread (db : ThreadDb) (eventId : EventId)
    (parentEventId rootEventId : Option EventId) : ThreadDb × Bool :=
  let deleted := db.events.any fun row => row.id == eventId && !row.deleted
  if deleted then
    ({ db with
      events := db.events.map fun row =>
        if row.id = eventId then { row with deleted := true } else row
      threads :=
        match parentEventId with
        | none => db.threads
        | some pid =>
          let threads := updateReplyCount (· - 1) pid db.threads
          match rootEventId with
          | some rootId => updateDescendantCount (· - 1) rootId threads
          | none => threads }, true)
  else (db, false)

end ThreadDb

/-- The steps on a community's threads: a submission of an event to a channel, at a wall-clock
time, or the deletion of an event. -/
inductive ThreadOp where
  | submit (event : Event) (channelId : Uuid) (now : Int)
  | delete (eventId : EventId)

namespace ThreadDb

/-- A refused submission leaves the tables as they are. -/
def step (db : ThreadDb) : ThreadOp → ThreadDb
  | .submit event channelId now =>
    match db.resolveNip10ThreadMeta event channelId now with
    | .error _ => db
    | .ok threadMeta =>
      match db.insertEventWithThreadMetadata event (some channelId)
        (threadMeta.map ThreadMetadataOwned.asParams) with
      | .error _ => db
      | .ok (db', _) => db'
  | .delete eventId =>
    let threadMeta := db.getThreadMetadataByEvent eventId
    (db.softDeleteEventAndUpdateThread eventId (threadMeta.bind ThreadRow.parentEventId)
      (threadMeta.bind ThreadRow.rootEventId)).1

def run (community : CommunityId) (ops : List ThreadOp) : ThreadDb :=
  ops.foldl step (empty community)

end ThreadDb

end Buzz
