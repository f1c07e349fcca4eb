import Buzz.Core.Nostr
import Buzz.Lib.Run

namespace Buzz.Replaceable
set_option autoImplicit true

def KIND_BOOKMARK_SET : Kind := 30003

def KIND_READ_STATE : Kind := 30078

def MAX_TIMESTAMP_DRIFT_SECS : Int := 900

inductive ParameterizedReplaceStatus where
  | inserted
  | duplicate
  | superseded
  | revisionMissing
  | revisionMismatch
  | replayOnlyMiss
deriving DecidableEq

inductive ParameterizedReplacePrecondition where
  | unconditional
  | expectedRevision (id : EventId)
  | exactReplayOnly
deriving DecidableEq

inductive DbError where
  | invalidTimestamp (secs : Int)
  | checkViolation (message : String)

/-- What orders the events of a coordinate. -/
structure Head where
  createdAt : Int
  id : EventId
deriving DecidableEq

/-- The later timestamp first, and of two at the same second the lower id. -/
def Head.rank (h : Head) : Int ×ₗ (List (Fin 16))ᵒᵈ :=
  toLex (h.createdAt, OrderDual.toDual h.id.nibbles)

/-- `created_at.as_secs() as i64`. -/
def createdAtSecs (event : Event) : Int :=
  event.createdAt.toInt64.toInt

def headOf (event : Event) : Head :=
  ⟨createdAtSecs event, event.id⟩

/-- The seconds of the calendar. -/
def validTimestamp (secs : Int) : Bool :=
  -8334601228800 ≤ secs && secs ≤ 8210266876799

/-- The rows of a coordinate share its community, kind, author and d tag. -/
structure Coordinate where
  communityId : CommunityId
  kind : Kind
  pubkey : PublicKey
  dTag : String
deriving DecidableEq

structure Row where
  event : Event
  channelId : Option Uuid
  deleted : Bool

structure Mention where
  pubkeyHex : String
  eventId : EventId
  eventCreatedAt : Int
  channelId : Option Uuid
  eventKind : Kind
deriving DecidableEq

/-- The rows of a coordinate, live and deleted, its watermark, and the mentions. -/
structure Store where
  rows : List Row
  watermark : Option Head
  mentions : List Mention

def lowerHex (c : Char) : Bool :=
  c.isDigit || ('a' ≤ c && c ≤ 'f')

def readStateSlot (dTag : String) : Bool :=
  "read-state:".toList.isPrefixOf dTag.toList &&
    (dTag.toList.drop "read-state:".length).length = 32 &&
    (dTag.toList.drop "read-state:".length).all lowerHex

/-- The shape of a NIP-RS event. The triggers of the database ask the same of a row. -/
def isNipRs (c : Coordinate) (event : Event) : Bool :=
  event.kind = KIND_READ_STATE &&
    (event.tags.countP fun tag => tag.kind = "d") = 1 &&
    (event.tags.any fun tag => tag.kind = "d" && tag.content = some c.dTag) &&
    readStateSlot c.dTag &&
    (event.tags.countP fun tag => tag.asSlice = ["t", "read-state"]) = 1

def isBuzzMeshStatus (c : Coordinate) (event : Event) : Bool :=
  event.kind = KIND_BOOKMARK_SET &&
    "buzz-mesh-member-status:".toList.isPrefixOf c.dTag.toList &&
    (event.tags.any fun tag => tag.asSlice = ["k", "buzz-mesh-status"])

/-- Neither newer nor, at the same second, of a lower id. -/
def dominatedBy (incoming accepted : Head) : Bool :=
  incoming.createdAt < accepted.createdAt ||
    (incoming.createdAt = accepted.createdAt && accepted.id.nibbles ≤ incoming.id.nibbles)

namespace Store

def empty : Store :=
  ⟨[], none, []⟩

def liveRows (s : Store) : List Row :=
  s.rows.filter fun row => ! row.deleted

def newest (best : Option Head) (row : Row) : Option Head :=
  if best.any (dominatedBy (headOf row.event)) then best else some (headOf row.event)

/-- `ORDER BY created_at DESC, id ASC LIMIT 1` over the live rows. -/
def existing (s : Store) : Option Head :=
  s.liveRows.foldl newest none

/-- Only an event of the NIP-RS shape asks for the watermark. -/
def readWatermark (c : Coordinate) (event : Event) (s : Store) : Option Head :=
  if isNipRs c event then s.watermark else none

/-- The live rows are gone for good, and with them the mentions of the head. -/
def hardDelete (s : Store) (head : Head) : Store :=
  { s with
    rows := s.rows.filter (·.deleted)
    mentions := s.mentions.filter fun mention => mention.eventId ≠ head.id }

/-- The live rows are marked; a trigger purges those of the NIP-RS shape with their mentions. -/
def softDelete (c : Coordinate) (s : Store) : Store :=
  { s with
    rows := (s.rows.filter fun row => row.deleted || ! isNipRs c row.event).map
      fun row => { row with deleted := true }
    mentions := s.mentions.filter fun mention => s.liveRows.all fun row =>
      ! isNipRs c row.event || row.event.id ≠ mention.eventId }

/-- `ON CONFLICT DO NOTHING` on the primary key. -/
def insertRow (row : Row) (s : Store) : Option Store :=
  if s.rows.any fun old => headOf old.event = headOf row.event then none
  else some { s with rows := s.rows ++ [row] }

/-- The insert with the trigger before it, which moves the watermark of a NIP-RS coordinate on,
lets an exact replay insert nothing, and turns away anything older. -/
def insertEvent (c : Coordinate) (row : Row) (s : Store) : Except DbError (Option Store) :=
  if isNipRs c row.event then
    match s.watermark with
    | none => .ok (insertRow row { s with watermark := some (headOf row.event) })
    | some w =>
      if ! dominatedBy (headOf row.event) w then
        .ok (insertRow row { s with watermark := some (headOf row.event) })
      else if w = headOf row.event then .ok none
      else .error (.checkViolation "stale NIP-RS event rejected by durable watermark")
  else .ok (insertRow row s)

/-- The valid `p` tags, in lower case. -/
def mentionedPubkeys (event : Event) : List String :=
  ((event.tags.filter fun tag => tag.kind = "p").filterMap Tag.content).filterMap fun pk =>
    if pk.toList.length = 64 && pk.toList.all (fun c => c.isDigit || ('a' ≤ c && c ≤ 'f') ||
      ('A' ≤ c && c ≤ 'F')) then some (String.ofList (pk.toList.map Char.toLower)) else none

/-- Each mention once. -/
def insertMentions (event : Event) (channelId : Option Uuid) (s : Store) : Store :=
  { s with
    mentions := (mentionedPubkeys event).foldl (fun mentions pk =>
      if mentions.any fun m => m.pubkeyHex = pk && m.eventId = event.id then mentions
      else mentions ++ [⟨pk, event.id, createdAtSecs event, channelId, event.kind⟩]) s.mentions }

/-- What a revision precondition refuses. -/
def revisionRefusal (existing : Option Head) :
    ParameterizedReplacePrecondition → Option ParameterizedReplaceStatus
  | .unconditional => none
  | .exactReplayOnly => none
  | .expectedRevision id =>
    match existing with
    | none => some .revisionMissing
    | some head => if head.id ≠ id then some .revisionMismatch else none

/-- The old head makes room, as the incoming event asks for it. -/
def removeExisting (c : Coordinate) (event : Event) (s : Store) : Store :=
  match s.existing with
  | none => s
  | some head =>
    if isNipRs c event || isBuzzMeshStatus c event then s.hardDelete head else s.softDelete c

def writeWatermark (c : Coordinate) (event : Event) (s : Store) : Store :=
  if isNipRs c event then { s with watermark := some (headOf event) } else s

/-- What happens after the savepoint. When nothing is inserted it is rolled back. -/
def replaceHead (c : Coordinate) (event : Event) (channelId : Option Uuid) (s : Store) :
    Except DbError (Store × ParameterizedReplaceStatus) :=
  match insertEvent c ⟨event, channelId, false⟩ (s.removeExisting c event) with
  | .error e => .error e
  | .ok none => .ok (s, .duplicate)
  | .ok (some inserted) =>
    .ok (insertMentions event channelId (inserted.writeWatermark c event), .inserted)

/-- One call, under the advisory lock of the coordinate. -/
def replaceParameterizedEvent (c : Coordinate) (event : Event) (channelId : Option Uuid)
    (precondition : ParameterizedReplacePrecondition) (s : Store) :
    Except DbError (Store × ParameterizedReplaceStatus) :=
  if ! validTimestamp (createdAtSecs event) then .error (.invalidTimestamp (createdAtSecs event))
  else
    if s.existing.any (·.id = event.id) || (s.readWatermark c event).any (·.id = event.id) then
      .ok (s, .duplicate)
    else if precondition = .exactReplayOnly then .ok (s, .replayOnlyMiss)
    else
      match revisionRefusal s.existing precondition with
      | some status => .ok (s, status)
      | none =>
        if s.existing.any (dominatedBy (headOf event)) ||
          (s.readWatermark c event).any (dominatedBy (headOf event)) then .ok (s, .superseded)
        else s.replaceHead c event channelId

end Store

theorem rank_injective : Function.Injective Head.rank := by
  intro a b h
  have hpair := toLex.injective h
  obtain ⟨hcreated, hid⟩ := Prod.mk.inj hpair
  cases a
  cases b
  cases hcreated
  congr 1
  exact HexId.ext (OrderDual.toDual.injective hid)

/-- To be dominated is to be of no greater rank. -/
theorem dominatedBy_iff (incoming accepted : Head) :
    dominatedBy incoming accepted = true ↔ incoming.rank ≤ accepted.rank := by
  rw [dominatedBy, Head.rank, Head.rank, Prod.Lex.toLex_le_toLex, Bool.or_eq_true,
    decide_eq_true_iff, Bool.and_eq_true, decide_eq_true_iff, decide_eq_true_iff]
  rfl

theorem dominatedBy_eq_false_iff (incoming accepted : Head) :
    dominatedBy incoming accepted = false ↔ accepted.rank < incoming.rank := by
  rw [← Bool.not_eq_true, dominatedBy_iff, not_le]

namespace Store

/-- A call that does not insert leaves everything as it was, also when its insert meets a row that
is there already after the old head was removed. -/
theorem eq_of_not_inserted {s s' : Store}
    (h : s.replaceParameterizedEvent c event channelId precondition = .ok (s', status))
    (hstatus : status ≠ .inserted) : s' = s := by
  rw [replaceParameterizedEvent] at h
  split at h
  · cases h
  · split at h
    · cases h
      rfl
    · split at h
      · cases h
        rfl
      · split at h
        · cases h
          rfl
        · split at h
          · cases h
            rfl
          · rw [replaceHead] at h
            split at h
            · cases h
            · cases h
              rfl
            · cases h
              exact absurd rfl hstatus

/-- What an insert asks of the state before it. -/
theorem of_inserted {s s' : Store}
    (h : s.replaceParameterizedEvent c event channelId precondition = .ok (s', .inserted)) :
    (∀ head ∈ s.existing, head.rank < (headOf event).rank) ∧
      (isNipRs c event = true → ∀ w ∈ s.watermark, w.rank < (headOf event).rank) ∧
      s.replaceHead c event channelId = .ok (s', .inserted) := by
  rw [replaceParameterizedEvent] at h
  split at h
  · cases h
  · split at h
    · cases h
    · split at h
      · cases h
      · split at h
        · rename_i status hrefusal
          cases h
          rw [revisionRefusal.eq_def] at hrefusal
          split at hrefusal
          · cases hrefusal
          · cases hrefusal
          · split at hrefusal
            · cases hrefusal
            · split at hrefusal
              · cases hrefusal
              · cases hrefusal
        · split at h
          · cases h
          · rename_i hdominated
            rw [Bool.not_eq_true, Bool.or_eq_false_iff] at hdominated
            refine ⟨?_, ?_, h⟩
            · intro head hhead
              rw [Option.mem_def.mp hhead, Option.any_some, dominatedBy_eq_false_iff] at hdominated
              exact hdominated.1
            · intro hnip w hw
              rw [readWatermark, if_pos hnip, Option.mem_def.mp hw, Option.any_some,
                dominatedBy_eq_false_iff] at hdominated
              exact hdominated.2

theorem watermark_of_replaceHead {s s' : Store} (hnip : isNipRs c event = true)
    (h : s.replaceHead c event channelId = .ok (s', .inserted)) :
    s'.watermark = some (headOf event) := by
  rw [replaceHead] at h
  split at h
  · cases h
  · cases h
  · cases h
    rw [writeWatermark, if_pos hnip]
    rfl

end Store

end Buzz.Replaceable
