import Buzz.Db.EventQuery
import Buzz.Lib.Keyset
import Buzz.Lib.Fallible

namespace Buzz.Paging
set_option autoImplicit true

/-- A `BYTEA` value, compared byte by byte. -/
abbrev Bytea := List (Fin 256)

/-- `hex::encode`. -/
def hexEncode (bytes : Bytea) : String :=
  String.ofList <| bytes.flatMap fun b =>
    [Hex.digitChar (Fin.ofNat 16 (b.val / 16)), Hex.digitChar (Fin.ofNat 16 (b.val % 16))]

/-- A row of `events`. Timestamps are microseconds, `kind` is an `INT`, `tags` the stored `JSONB`. -/
structure EventRow (T : Type) where
  communityId : CommunityId
  id : Bytea
  pubkey : Bytea
  createdAt : Int
  kind : Int
  tags : T
  content : String
  sig : Bytea
  receivedAt : Int
  channelId : Option Uuid
  deletedAt : Option Int

/-- A row of `thread_metadata`. -/
structure ThreadRow where
  communityId : CommunityId
  eventCreatedAt : Int
  eventId : Bytea
  rootEventId : Option Bytea
  depth : Int
  replyCount : Int
  descendantCount : Int
  lastReplyAt : Option Int
  broadcast : Bool

/-- The two tables at one moment, with their primary keys. -/
structure Store (T : Type) where
  events : List (EventRow T)
  threads : List ThreadRow
  events_key : (events.map fun e => (e.communityId, e.createdAt, e.id)).Nodup
  threads_key : (threads.map fun tm => (tm.communityId, tm.eventCreatedAt, tm.eventId)).Nodup

/-- The `thread_metadata` row that the join finds for an event. -/
def Store.threadOf (store : Store T) (e : EventRow T) : Option ThreadRow :=
  store.threads.find? fun tm =>
    tm.communityId == e.communityId && tm.eventCreatedAt == e.createdAt && tm.eventId == e.id

abbrev Cursor := Int × Bytea

structure Query where
  communityId : CommunityId
  channelId : Uuid
  limit : UInt32
  kindFilter : Option (List UInt32)

def topLevel : Option ThreadRow → Bool
  | none => true
  | some tm => tm.depth == 0 || (tm.depth == 1 && tm.broadcast)

def Query.kindClause (q : Query) (e : EventRow T) : Bool :=
  match q.kindFilter with
  | none => true
  | some kinds => kinds.isEmpty || kinds.any fun k => e.kind == (k.toNat : Int)

/-- The `WHERE` clause, but for the cursor. -/
def qualifies (store : Store T) (q : Query) (e : EventRow T) : Bool :=
  e.communityId == q.communityId && e.channelId == some q.channelId && e.deletedAt.isNone &&
    topLevel (store.threadOf e) && q.kindClause e

/-- `AND (e.created_at < $3 OR (e.created_at = $3 AND e.id > $4))`. -/
def cursorClause (cursor : Option Cursor) (e : EventRow T) : Bool :=
  match cursor with
  | none => true
  | some (ts, id) => decide (e.createdAt < ts) || (e.createdAt == ts && decide (id < e.id))

/-- `ORDER BY e.created_at DESC, e.id ASC`. -/
def orderBy (a b : EventRow T) : Prop :=
  b.createdAt < a.createdAt ∨ a.createdAt = b.createdAt ∧ a.id ≤ b.id

instance (a b : EventRow T) : Decidable (orderBy a b) :=
  inferInstanceAs (Decidable (_ ∨ _))

/-- A result row: the event with the columns joined to it. -/
structure DbRow (T : Type) where
  event : EventRow T
  thread : Option ThreadRow

def fetchAll (store : Store T) (q : Query) (cursor : Option Cursor) : List (DbRow T) :=
  (((store.events.filter fun e => qualifies store q e && cursorClause cursor e).insertionSort
    orderBy).take (q.limit.toNat + 1)).map fun e => ⟨e, store.threadOf e⟩

/-- The members of the `event_json` object. -/
structure EventJson (J : Type) where
  id : String
  pubkey : String
  createdAt : Int
  kind : UInt16
  tags : J
  content : String
  sig : String

structure StoredEvent (E : Type) where
  event : E
  receivedAt : Int
  channelId : Option Uuid
  verified : Bool

/-- What the driver and the event library do: they read a `JSONB` column, read an event from
JSON, and give the bytes of its id. -/
structure Decoder (T J E : Type) where
  tags : T → Except DbError J
  fromValue : EventJson J → Option E
  idBytes : E → Bytea

/-- `u16::try_from(kind_i32)`. -/
def kindU16 (kind : Int) : Except DbError UInt16 :=
  if 0 ≤ kind ∧ kind < 65536 then .ok (UInt16.ofNat kind.toNat)
  else .error (.invalidData ("kind out of u16 range: " ++ ToString.toString kind))

variable {T J E : Type} (decoder : Decoder T J E)

def rowToStoredEvent (row : EventRow T) : Except DbError (Option (StoredEvent E)) := do
  let tagsJson ← decoder.tags row.tags
  let kind ← kindU16 row.kind
  let eventJson : EventJson J :=
    { id := hexEncode row.id
      pubkey := hexEncode row.pubkey
      createdAt := row.createdAt / 1000000
      kind := kind
      tags := tagsJson
      content := row.content
      sig := hexEncode row.sig }
  return (decoder.fromValue eventJson).map fun event =>
    ⟨event, row.receivedAt, row.channelId, true⟩

structure ThreadSummary where
  replyCount : Int
  descendantCount : Int
  lastReplyAt : Option Int
  participants : List Bytea

structure ChannelWindowRow (E : Type) where
  storedEvent : StoredEvent E
  threadSummary : Option ThreadSummary

structure ChannelWindow (E : Type) where
  rows : List (ChannelWindowRow E)
  hasMore : Bool
  nextCursor : Option Cursor

def threadSummary : Option ThreadRow → Option ThreadSummary
  | none => none
  | some tm =>
    if 0 < tm.replyCount then some ⟨tm.replyCount, tm.descendantCount, tm.lastReplyAt, []⟩
    else none

/-- The loop over the result rows. A row that is no event is skipped. -/
def reconstruct : List (DbRow T) → Except DbError (List (ChannelWindowRow E))
  | [] => .ok []
  | row :: rows => do
    match ← rowToStoredEvent decoder row.event with
    | none => reconstruct rows
    | some storedEvent =>
      let rest ← reconstruct rows
      return ⟨storedEvent, threadSummary row.thread⟩ :: rest

/-- The live events of a thread. -/
def threadEvents (store : Store T) (communityId : CommunityId) (root : Bytea) :
    List (EventRow T) :=
  store.events.filter fun e =>
    e.deletedAt.isNone && e.communityId == communityId &&
      (store.threadOf e).any fun tm => tm.rootEventId == some root

/-- The authors in a thread, the latest to post first and ten at most. Authors of one moment
come in the order of the table. -/
def participants (store : Store T) (communityId : CommunityId) (root : Bytea) : List Bytea :=
  let posts := threadEvents store communityId root
  let lastSeen (pubkey : Bytea) : Int :=
    ((posts.filter fun e => e.pubkey == pubkey).map fun e => e.createdAt).max?.getD 0
  ((posts.map fun e => e.pubkey).dedup.mergeSort fun a b => decide (lastSeen b ≤ lastSeen a)).take 10

/-- The pass over the rows that have a summary. `by_root` gives up an entry on its first use. -/
def fillParticipants : List (Bytea × List Bytea) → List (ChannelWindowRow E) →
    List (ChannelWindowRow E)
  | _, [] => []
  | byRoot, row :: rows =>
    match row.threadSummary with
    | none => row :: fillParticipants byRoot rows
    | some summary =>
      let root := decoder.idBytes row.storedEvent.event
      match byRoot.lookup root with
      | none => row :: fillParticipants byRoot rows
      | some found =>
        { row with threadSummary := some { summary with participants := found } } ::
          fillParticipants (byRoot.filter fun entry => entry.1 != root) rows

def participantsByRoot (store : Store T) (communityId : CommunityId)
    (rows : List (ChannelWindowRow E)) : List (Bytea × List Bytea) :=
  let roots := (rows.filter fun row => row.threadSummary.isSome).map fun row =>
    decoder.idBytes row.storedEvent.event
  (roots.map fun root => (root, participants store communityId root)).filter fun entry =>
    !entry.2.isEmpty

def getChannelWindow (store : Store T) (q : Query) (cursor : Option Cursor) :
    Except DbError (ChannelWindow E) := do
  let dbRows := fetchAll store q cursor
  -- The row past the limit shows that there are more.
  let hasMore := decide (q.limit.toNat < dbRows.length)
  let kept := dbRows.take q.limit.toNat
  let nextCursor :=
    if hasMore then kept.getLast?.map fun row => (row.event.createdAt, row.event.id) else none
  let rows ← reconstruct decoder kept
  return { rows := fillParticipants decoder (participantsByRoot decoder store q.communityId rows) rows
           hasMore := hasMore
           nextCursor := nextCursor }

section Rows

/-- A row that is made into an event or skipped, but fails no window. -/
def Readable (row : EventRow T) : Prop :=
  (∃ tags, decoder.tags row.tags = .ok tags) ∧ 0 ≤ row.kind ∧ row.kind < 65536

theorem readable_iff (row : EventRow T) :
    Readable decoder row ↔ ∃ out, rowToStoredEvent decoder row = .ok out := by
  constructor
  · intro ⟨⟨tags, htags⟩, hrange⟩
    have hkind : kindU16 row.kind = .ok (UInt16.ofNat row.kind.toNat) := if_pos hrange
    simp only [rowToStoredEvent, htags, hkind, bind, Except.bind]
    exact ⟨_, rfl⟩
  · intro ⟨out, h⟩
    obtain ⟨tags, htags, h⟩ := ok_of_bind h
    obtain ⟨kind, hkind, -⟩ := ok_of_bind h
    rw [kindU16] at hkind
    by_cases hrange : 0 ≤ row.kind ∧ row.kind < 65536
    · exact ⟨⟨tags, htags⟩, hrange⟩
    · rw [if_neg hrange] at hkind
      cases hkind

/-- The loop makes one result row of each row that is an event. -/
theorem reconstruct_ok {rows : List (DbRow T)} {out : List (ChannelWindowRow E)}
    (h : reconstruct decoder rows = .ok out) :
    ∃ events : List (EventRow T), events.Sublist (rows.map (·.event)) ∧
      List.Forall₂ (fun e row => rowToStoredEvent decoder e = .ok (some row.storedEvent))
        events out ∧
      ∀ row ∈ rows, ∀ se, rowToStoredEvent decoder row.event = .ok (some se) →
        row.event ∈ events := by
  induction rows generalizing out with
  | nil =>
    cases h
    exact ⟨[], List.nil_sublist _, List.Forall₂.nil, fun row hrow => (nomatch hrow)⟩
  | cons row rows ih =>
    obtain ⟨read, hread, h⟩ := ok_of_bind h
    cases read with
    | none =>
      obtain ⟨events, hsub, hmade, hall⟩ := ih h
      refine ⟨events, hsub.trans (List.sublist_cons_self _ _), hmade, ?_⟩
      intro row' hrow se hse
      cases List.mem_cons.mp hrow with
      | inl heq =>
        rw [heq, hread] at hse
        cases hse
      | inr hrow => exact hall row' hrow se hse
    | some stored =>
      obtain ⟨rest, hrest, h⟩ := ok_of_bind h
      cases h
      obtain ⟨events, hsub, hmade, hall⟩ := ih hrest
      refine ⟨row.event :: events, hsub.cons_cons _, List.Forall₂.cons hread hmade, ?_⟩
      intro row' hrow se hse
      cases List.mem_cons.mp hrow with
      | inl heq =>
        rw [heq]
        exact List.mem_cons_self
      | inr hrow => exact List.mem_cons_of_mem _ (hall row' hrow se hse)

theorem reconstruct_isOk_iff (rows : List (DbRow T)) :
    (∃ out, reconstruct decoder rows = .ok out) ↔ ∀ row ∈ rows, Readable decoder row.event := by
  induction rows with
  | nil => exact ⟨fun _ row hrow => (nomatch hrow), fun _ => ⟨[], rfl⟩⟩
  | cons row rows ih =>
    rw [List.forall_mem_cons, ← ih, readable_iff]
    constructor
    · intro ⟨out, h⟩
      obtain ⟨read, hread, h⟩ := ok_of_bind h
      refine ⟨⟨read, hread⟩, ?_⟩
      cases read with
      | none => exact ⟨out, h⟩
      | some stored =>
        obtain ⟨rest, hrest, -⟩ := ok_of_bind h
        exact ⟨rest, hrest⟩
    · intro ⟨⟨read, hread⟩, ⟨rest, hrest⟩⟩
      cases read with
      | none =>
        refine ⟨rest, ?_⟩
        simp only [reconstruct, hread, bind, Except.bind]
        exact hrest
      | some stored =>
        refine ⟨⟨stored, threadSummary row.thread⟩ :: rest, ?_⟩
        simp only [reconstruct, hread, hrest, bind, Except.bind]
        rfl

/-- The participants change no event of the window. -/
theorem fillParticipants_storedEvent (byRoot : List (Bytea × List Bytea))
    (rows : List (ChannelWindowRow E)) :
    (fillParticipants decoder byRoot rows).map (·.storedEvent) = rows.map (·.storedEvent) := by
  induction rows generalizing byRoot with
  | nil => rfl
  | cons row rows ih =>
    rw [fillParticipants]
    split
    · rw [List.map_cons, List.map_cons, ih]
    · dsimp only
      split
      · rw [List.map_cons, List.map_cons, ih]
      · rw [List.map_cons, List.map_cons, ih]

end Rows

end Buzz.Paging
