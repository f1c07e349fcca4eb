import Buzz.Relay.Thread

namespace Buzz
set_option autoImplicit true

/-- The ancestry of a reply that the relay builds itself. -/
structure ReplyAncestry where
  parentEventId : EventId
  parentEventCreatedAt : Int
  rootEventId : EventId
  rootEventCreatedAt : Int
  depth : Nat

namespace ReplyAncestry

def rootHex (a : ReplyAncestry) : String :=
  a.rootEventId.toHex

def parentHex (a : ReplyAncestry) : String :=
  a.parentEventId.toHex

def intoThreadMeta (a : ReplyAncestry) (replyEventId : EventId) (replyCreatedAt : Int)
    (channelId : Uuid) : ThreadMetadataOwned :=
  ⟨replyEventId, replyCreatedAt, channelId, a.parentEventId, a.parentEventCreatedAt,
    a.rootEventId, a.rootEventCreatedAt, a.depth, false⟩

/-- The NIP-10 tags of a workflow reply. -/
def threadTags (a : ReplyAncestry) : List Tag :=
  if a.rootHex = a.parentHex then [⟨"e", [a.rootHex, "", "reply"]⟩]
  else [⟨"e", [a.rootHex, "", "root"]⟩, ⟨"e", [a.parentHex, "", "reply"]⟩]

end ReplyAncestry

/-- `hex::decode` accepts the text. -/
def isHexBytes (hex : String) : Bool :=
  hex.toList.length % 2 == 0 && hex.toList.all fun c => (Hex.digitVal c).isSome

namespace ThreadDb

/-- The root, its time and the depth of a relay-built reply. -/
def relayAncestry (db : ThreadDb) (parentId : EventId) (parentEvent : StoredEvent)
    (parentCreated : Int) : EventId × Int × Nat :=
  match db.getThreadMetadataByEvent parentId with
  | some threadMeta =>
    let effectiveRoot := threadMeta.rootEventId.getD parentId
    let rootCreated :=
      if effectiveRoot = parentId then parentCreated
      else db.rootTimestamp effectiveRoot parentCreated
    (effectiveRoot, rootCreated, threadMeta.depth + 1)
  | none => db.deriveAncestryFromParentTags parentEvent.event parentId parentCreated

/-- Thread ancestry of a reply that the relay builds for a parent. An id of another length than
an event's names no event. -/
def resolveRelayReplyThreadMeta (db : ThreadDb) (parentHex : String) (channelId : Uuid)
    (now : Int) : Except String ReplyAncestry :=
  if !isHexBytes parentHex then .error "invalid parent event ID hex"
  else
    match decodeEventId parentHex with
    | none => .error "reply parent not found"
    | some parentId =>
      match db.getEventById parentId with
      | none => .error "reply parent not found"
      | some parentEvent =>
        match parentEvent.channelId with
        | none => .error "parent event has no channel association"
        | some parentCh =>
          if parentCh ≠ channelId then .error "parent event belongs to a different channel"
          else
            let parentCreated := (eventTimestamp parentEvent.event).getD now
            let ancestry := db.relayAncestry parentId parentEvent parentCreated
            if 100 < ancestry.2.2 then .error "thread depth limit exceeded"
            else .ok ⟨parentId, parentCreated, ancestry.1, ancestry.2.1, ancestry.2.2⟩

/-- A message of a workflow: its own tags, the mentions that follow the thread tags, and its
signed event for each list of tags. -/
structure WorkflowMessage where
  baseTags : List Tag
  mentionTags : List Tag
  sign : List Tag → Event

/-- `send_message` of the workflow sink, from the ancestry on. -/
def sendMessage (db : ThreadDb) (message : WorkflowMessage) (channelId : Uuid)
    (replyTo : Option String) (now : Int) : Except String (ThreadDb × Bool) :=
  let ancestry :=
    match replyTo with
    | some parentHex => (db.resolveRelayReplyThreadMeta parentHex channelId now).map some
    | none => .ok none
  match ancestry with
  | .error e => .error e
  | .ok ancestry =>
    let threadTags := (ancestry.map ReplyAncestry.threadTags).getD []
    let event := message.sign (message.baseTags ++ threadTags ++ message.mentionTags)
    let createdAt := (eventTimestamp event).getD now
    let threadMeta :=
      match ancestry with
      | some a => (a.intoThreadMeta event.id createdAt channelId).asParams
      | none => ⟨event.id, createdAt, channelId, none, none, none, none, 0, false⟩
    (db.insertEventWithThreadMetadata event (some channelId) (some threadMeta)).mapError
      DbError.toString

end ThreadDb

/-- The steps on a community's threads by clients and by workflows. -/
inductive ReplyOp where
  | client (op : ThreadOp)
  | workflow (message : ThreadDb.WorkflowMessage) (channelId : Uuid) (replyTo : Option String)
    (now : Int)

namespace ReplyOp

/-- The events that a step may store. -/
def Submits : ReplyOp → Event → Prop
  | client (.submit event _ _), e => e = event
  | client (.delete _), _ => False
  | workflow message _ _ _, e => ∃ tags, e = message.sign tags

end ReplyOp

namespace ThreadDb

def replyStep (db : ThreadDb) : ReplyOp → ThreadDb
  | .client op => db.step op
  | .workflow message channelId replyTo now =>
    match db.sendMessage message channelId replyTo now with
    | .error _ => db
    | .ok (db', _) => db'

def replyRun (db : ThreadDb) (ops : List ReplyOp) : ThreadDb :=
  ops.foldl replyStep db

end ThreadDb

end Buzz
