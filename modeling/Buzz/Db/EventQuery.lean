import Buzz.Core.FilterMatch

namespace Buzz
set_option autoImplicit true

/-- `u64 as i64`. -/
def asI64 (x : UInt64) : Int :=
  if x.toNat < 2 ^ 63 then x.toNat else x.toNat - 2 ^ 64

namespace DateTime

def MIN_SECS : Int := -8334601228800
def MAX_SECS : Int := 8210266876799

/-- `chrono::DateTime::from_timestamp` at whole seconds: `none` outside the range of the
calendar. -/
def fromTimestamp (secs : Int) : Option Int :=
  if MIN_SECS ≤ secs ∧ secs ≤ MAX_SECS then some secs else none

end DateTime

def DEFAULT_MAX_PAGE_LIMIT : Int := 1000

/-- A row of `events`, with the `pubkey_hex` of the `event_mentions` rows that join it. -/
structure EventRow where
  communityId : CommunityId
  id : EventId
  pubkey : PublicKey
  createdAt : Int
  kind : Kind
  tags : List Tag
  channelId : Option Uuid
  deleted : Bool
  dTag : Option String
  mentions : List String

structure EventQuery where
  communityId : CommunityId
  channelId : Option Uuid
  kinds : Option (List Kind)
  pubkey : Option PublicKey
  since : Option Int
  until_ : Option Int
  limit : Option Int
  offset : Option Int
  pTagHex : Option String
  dTag : Option String
  dTags : Option (List String)
  beforeId : Option EventId
  globalOnly : Bool
  authors : Option (List PublicKey)
  ids : Option (List EventId)
  eTags : Option (List String)
  channelIds : Option (List Uuid)
  channelIdsIncludeGlobal : Bool
  maxLimit : Option Int
  sharedGatedReader : Option PublicKey

def EventQuery.forCommunity (communityId : CommunityId) : EventQuery where
  communityId := communityId
  channelId := none
  kinds := none
  pubkey := none
  since := none
  until_ := none
  limit := none
  offset := none
  pTagHex := none
  dTag := none
  dTags := none
  beforeId := none
  globalOnly := false
  authors := none
  ids := none
  eTags := none
  channelIds := none
  channelIdsIncludeGlobal := true
  maxLimit := none
  sharedGatedReader := none

inductive DbError where
  | sqlx (message : String)
  | invalidData (message : String)
  | authEventRejected
  | ephemeralEventRejected (kind : Kind)
  | invalidTimestamp (secs : Int)
deriving DecidableEq

def DbError.toString : DbError → String
  | sqlx message => "database error: " ++ message
  | invalidData message => "invalid data: " ++ message
  | authEventRejected => "AUTH events (kind 22242) must not be stored"
  | ephemeralEventRejected kind =>
    "ephemeral events (kind " ++ ToString.toString kind.toNat ++ ") must not be stored"
  | invalidTimestamp secs => "invalid timestamp: " ++ ToString.toString secs

/-- `to_ascii_lowercase`. -/
def asciiLower (s : String) : String :=
  String.ofList (s.toList.map fun c => if 'A' ≤ c ∧ c ≤ 'Z' then Char.ofNat (c.toNat + 32) else c)

/-- `tags @> [[a, b, ..]]`: some tag holds all of the parts, in any position. -/
def tagsContain (tags : List Tag) (parts : List String) : Bool :=
  tags.any fun tag => parts.all fun part => tag.asSlice.contains part

/-- The `d_tag` column of an event: the first `d` value of an addressable event. -/
def extractDTag (event : Event) : Option String :=
  if !isParameterizedReplaceable event.kind.toNat then none
  else some ((event.tags.findSome? fun tag => if tag.kind == "d" then tag.content else none).getD "")

/-- An event reads back only from a row whose timestamp is a `u64`. -/
def rowToStoredEvent (row : EventRow) : Option StoredEvent :=
  if 0 ≤ row.createdAt ∧ row.createdAt < 2 ^ 64 then
    some ⟨⟨row.id, row.pubkey, UInt64.ofNat row.createdAt.toNat, row.kind, row.tags⟩,
      row.channelId⟩
  else none

namespace EventQuery

/-- An empty list stands for "match nothing". -/
def matchesNothing (q : EventQuery) : Bool :=
  q.kinds == some [] || q.authors == some [] || q.ids == some [] || q.eTags == some []

/-- The channel fragments of the `WHERE` clause. -/
def channelClause (q : EventQuery) (row : EventRow) : Bool :=
  (match q.channelId with
    | some ch => row.channelId == some ch
    | none => if q.globalOnly then row.channelId == none else true) &&
  (match q.channelIds with
    | none => true
    | some [] => if q.channelIdsIncludeGlobal then row.channelId == none else false
    | some chs =>
      (q.channelIdsIncludeGlobal && row.channelId == none) ||
        chs.any fun ch => row.channelId == some ch)

def keysClause (q : EventQuery) (row : EventRow) : Bool :=
  (match q.kinds with
    | some ks => ks.isEmpty || ks.contains row.kind
    | none => true) &&
  (match q.pubkey with
    | some pk => row.pubkey == pk
    | none => true) &&
  (match q.authors with
    | some authors => authors.isEmpty || authors.contains row.pubkey
    | none => true) &&
  (match q.ids with
    | some ids => ids.isEmpty || ids.contains row.id
    | none => true) &&
  (match q.eTags with
    | some eTags => eTags.isEmpty || eTags.any fun e => tagsContain row.tags ["e", e]
    | none => true)

def dTagClause (q : EventQuery) (row : EventRow) : Bool :=
  match q.dTag with
  | some d => row.dTag == some d
  | none =>
    match q.dTags with
    | some ds => ds.isEmpty || ds.any fun d => row.dTag == some d
    | none => true

def sinceClause (q : EventQuery) (row : EventRow) : Bool :=
  match q.since with
  | some s => decide (s ≤ row.createdAt)
  | none => true

def untilClause (q : EventQuery) (row : EventRow) : Bool :=
  match q.until_ with
  | some u => decide (row.createdAt ≤ u)
  | none => true

/-- `until` with the keyset cursor of a page. -/
def pageClause (q : EventQuery) (row : EventRow) : Bool :=
  match q.until_, q.beforeId with
  | some u, some bid =>
    decide (row.createdAt < u) || (decide (row.createdAt = u) && decide (bid.nibbles < row.id.nibbles))
  | _, _ => q.untilClause row

/-- A shared-gated row is the reader's own or carries the shared tag. -/
def sharedClause (q : EventQuery) (row : EventRow) : Bool :=
  match q.sharedGatedReader with
  | some reader =>
    !SHARED_GATED_KINDS.contains row.kind.toNat || row.pubkey == reader ||
      tagsContain row.tags ["shared", "true"]
  | none => true

def liveClause (q : EventQuery) (row : EventRow) : Bool :=
  row.communityId == q.communityId && !row.deleted

/-- The `WHERE` clause of `query_events_on`, apart from the join. -/
def queryClause (q : EventQuery) (row : EventRow) : Bool :=
  q.liveClause row && q.channelClause row && q.keysClause row && q.sinceClause row &&
    q.pageClause row && q.dTagClause row && q.sharedClause row

/-- The `WHERE` clause of `count_events_on`, apart from the join. -/
def countClause (q : EventQuery) (row : EventRow) : Bool :=
  q.liveClause row && q.channelClause row && q.keysClause row && q.sinceClause row &&
    q.untilClause row && q.dTagClause row

/-- The joined rows of one event: one for each mention of the pubkey asked for. -/
def joinMentions (q : EventQuery) (row : EventRow) : List EventRow :=
  match q.pTagHex with
  | some p => (row.mentions.filter (· = asciiLower p)).map fun _ => row
  | none => [row]

/-- A query without cursor, global scope or offset. -/
structure Plain (q : EventQuery) : Prop where
  beforeId : q.beforeId = none
  globalOnly : q.globalOnly = false
  offset : q.offset = none

end EventQuery

/-- `ORDER BY created_at DESC, id ASC`. -/
def rowBefore (a b : EventRow) : Prop :=
  b.createdAt < a.createdAt ∨ (a.createdAt = b.createdAt ∧ a.id.nibbles ≤ b.id.nibbles)

instance : DecidableRel rowBefore := fun _ _ => instDecidableOr

/-- The events table with its mentions. -/
structure EventStore where
  rows : List EventRow
  primaryKey : (rows.map fun row => (row.communityId, row.createdAt, row.id)).Nodup

def EventStore.empty : EventStore :=
  ⟨[], List.nodup_nil⟩

namespace EventStore

/-- The rows that satisfy the join and the `WHERE` clause of `query_events_on`. -/
def candidates (store : EventStore) (q : EventQuery) : List EventRow :=
  (store.rows.filter q.queryClause).flatMap q.joinMentions

def limitVal (q : EventQuery) : Int :=
  min (q.limit.getD 100) (q.maxLimit.getD DEFAULT_MAX_PAGE_LIMIT)

/-- `query_events_on`, with the page cut by a function of the query. -/
def queryPage (page : EventQuery → List EventRow → Except DbError (List EventRow))
    (store : EventStore) (q : EventQuery) : Except DbError (List StoredEvent) :=
  if q.beforeId.isSome && q.until_.isNone then
    .error (.invalidData "before_id requires until to be set")
  else if q.globalOnly && q.channelId.isSome then
    .error (.invalidData "global_only and channel_id are mutually exclusive")
  else if q.matchesNothing then .ok []
  else (page q ((store.candidates q).insertionSort rowBefore)).map (·.filterMap rowToStoredEvent)

/-- `LIMIT` and `OFFSET`. -/
def cutPage (q : EventQuery) (rows : List EventRow) : Except DbError (List EventRow) :=
  if limitVal q < 0 then .error (.sqlx "LIMIT must not be negative")
  else if q.offset.getD 0 < 0 then .error (.sqlx "OFFSET must not be negative")
  else .ok ((rows.drop (q.offset.getD 0).toNat).take (limitVal q).toNat)

def queryEvents : EventStore → EventQuery → Except DbError (List StoredEvent) :=
  queryPage cutPage

/-- `query_events` without a row limit. -/
def queryEventsUnlimited : EventStore → EventQuery → Except DbError (List StoredEvent) :=
  queryPage fun _ rows => .ok rows

def countEvents (store : EventStore) (q : EventQuery) : Except DbError Nat :=
  if q.matchesNothing then .ok 0
  else .ok ((store.rows.filter q.countClause).flatMap q.joinMentions).length

end EventStore

end Buzz
