import Buzz.Lib.Fallible
import Buzz.Relay.ThreadCounts
import Buzz.Relay.ThreadReply

namespace Buzz
set_option autoImplicit true

/-- The event is a reply with markers for a root and a parent. -/
def Event.Marks (event : Event) (root parent : EventId) : Prop :=
  ∃ rootHex parentHex, (parseThreadMarkers event.tags).resolve = some (rootHex, parentHex) ∧
    decodeEventId rootHex = some root ∧ decodeEventId parentHex = some parent

/-- The root that an event's own markers give to its replies. -/
def Event.markedRoot (event : Event) (id : EventId) : EventId :=
  (((parseThreadMarkers event.tags).resolve.map Prod.fst).bind decodeEventId).getD id

theorem decodeChars_digits (h : Hex.decodeChars cs = some ns) :
    cs.length = ns.length ∧ (cs.all fun c => (Hex.digitVal c).isSome) = true := by
  induction cs generalizing ns with
  | nil =>
    cases h
    exact ⟨rfl, rfl⟩
  | cons c cs ih =>
    rw [Hex.decodeChars, List.mapM_cons] at h
    cases hd : Hex.digitVal c with
    | none =>
      rw [hd] at h
      cases h
    | some d =>
      cases hds : cs.mapM Hex.digitVal with
      | none =>
        rw [hd, hds] at h
        cases h
      | some ds =>
        rw [hd, hds] at h
        cases h
        obtain ⟨hl, ha⟩ := ih hds
        exact ⟨congrArg (· + 1) hl, by simp [hd, ha]⟩

theorem isHexBytes_of_decode {id : EventId} (h : decodeEventId hex = some id) : isHexBytes hex = true := by
  rw [decodeEventId, HexId.ofChars] at h
  split at h
  · rename_i ns hns
    split at h
    · rename_i hlen
      obtain ⟨hl, ha⟩ := decodeChars_digits hns
      rw [isHexBytes, ha, hl, hlen]
      rfl
    · cases h
  · cases h

namespace ThreadDb
variable {db : ThreadDb} {event : Event} {parent parentEvent : StoredEvent}
  {m : ThreadMetadataOwned} {root clientRoot parentId : EventId} {channelId : Uuid} {depth : Nat}
  {now parentCreated : Int}

/-- The root and the depth that replies to a parent get: from the parent's thread row, or else
from its tags. -/
def ancestryOf (db : ThreadDb) (parentId : EventId) (parent : Event) : EventId × Nat :=
  match db.getThreadMetadataByEvent parentId with
  | some t => (t.rootEventId.getD parentId, t.depth + 1)
  | none => (parent.markedRoot parentId, if parent.markedRoot parentId = parentId then 1 else 2)

/-- A reply to the parent joins its thread at this root and depth. -/
structure Joinable (db : ThreadDb) (parentId : EventId) (channelId : Uuid) (root : EventId)
    (depth : Nat) (parent : StoredEvent) : Prop where
  live : db.getEventById parentId = some parent
  channel : parent.channelId = some channelId
  ancestry : db.ancestryOf parentId parent.event = (root, depth)
  limit : depth ≤ 100

theorem derive_eq (db : ThreadDb) (parent : Event) (parentId : EventId) (parentCreated : Int) :
    ∃ created, db.deriveAncestryFromParentTags parent parentId parentCreated =
      (parent.markedRoot parentId, created,
        if parent.markedRoot parentId = parentId then 1 else 2) := by
  rw [deriveAncestryFromParentTags]
  by_cases h : parent.markedRoot parentId = parentId
  · refine ⟨parentCreated, ?_⟩
    rw [if_pos h]
    exact if_pos h
  · refine ⟨db.rootTimestamp (parent.markedRoot parentId) parentCreated, ?_⟩
    rw [if_neg h]
    exact if_neg h

/-- When ingest accepts the root of a client. -/
theorem replyAncestry_iff :
    (∃ created, db.replyAncestry clientRoot parentId parentEvent parentCreated =
        .ok (root, created, depth)) ↔
      db.ancestryOf parentId parentEvent.event = (root, depth) ∧ clientRoot = root ∧
        depth ≤ 100 := by
  rw [replyAncestry, ancestryOf]
  cases db.getThreadMetadataByEvent parentId with
  | some t =>
    dsimp only
    constructor
    · rintro ⟨created, h⟩
      split at h
      · cases h
      · rename_i hroot
        split at h
        · cases h
        · rename_i hdepth
          cases h
          exact ⟨rfl, not_not.mp hroot, not_lt.mp hdepth⟩
    · rintro ⟨hanc, rfl, hdepth⟩
      cases hanc
      rw [if_neg (not_not.mpr rfl), if_neg (not_lt.mpr hdepth)]
      exact ⟨_, rfl⟩
  | none =>
    obtain ⟨c, hder⟩ := derive_eq db parentEvent.event parentId parentCreated
    have hlimit : (if parentEvent.event.markedRoot parentId = parentId then 1 else 2) ≤ 100 := by
      split <;> omega
    dsimp only
    rw [hder]
    generalize (if parentEvent.event.markedRoot parentId = parentId then 1 else 2) = d at hlimit
    constructor
    · rintro ⟨created, h⟩
      split at h
      · cases h
      · rename_i hroot
        cases h
        exact ⟨rfl, not_not.mp hroot, hlimit⟩
    · rintro ⟨hanc, rfl, _⟩
      cases hanc
      exact ⟨c, if_neg (not_not.mpr rfl)⟩

theorem relayAncestry_eq (db : ThreadDb) (parentId : EventId) (parentEvent : StoredEvent)
    (parentCreated : Int) :
    ∃ created, db.relayAncestry parentId parentEvent parentCreated =
      ((db.ancestryOf parentId parentEvent.event).1, created,
        (db.ancestryOf parentId parentEvent.event).2) := by
  rw [relayAncestry, ancestryOf]
  cases db.getThreadMetadataByEvent parentId with
  | some t => exact ⟨_, rfl⟩
  | none => exact derive_eq db parentEvent.event parentId parentCreated

/-- What a reply of a client is accepted with. -/
theorem client_joins (h : db.resolveNip10ThreadMeta event channelId now = .ok (some m))
    (hmarks : event.Marks root parentId) :
    ∃ parent, db.Joinable parentId channelId root m.depth parent ∧ m.rootEventId = root ∧
      m.parentEventId = parentId ∧ m.eventId = event.id := by
  obtain ⟨rootHex, parentHex, hres, hr, hp⟩ := hmarks
  rw [resolveNip10ThreadMeta, hres] at h
  dsimp only at h
  rw [hp] at h
  dsimp only at h
  split at h
  · cases h
  · rename_i parent hlive
    split at h
    · cases h
    · rename_i parentCh hch
      split at h
      · cases h
      · rename_i hsame
        rw [hr] at h
        dsimp only at h
        split at h
        · cases h
        · rename_i r created depth hanc
          cases h
          obtain ⟨ha, rfl, hd⟩ := replyAncestry_iff.mp ⟨created, hanc⟩
          exact ⟨parent, ⟨hlive, hch.trans (congrArg some (not_not.mp hsame)), ha, hd⟩, rfl, rfl,
            rfl⟩

theorem client_accepts (hmarks : event.Marks root parentId)
    (hj : db.Joinable parentId channelId root depth parent) :
    ∃ m, db.resolveNip10ThreadMeta event channelId now = .ok (some m) ∧ m.rootEventId = root ∧
      m.depth = depth := by
  obtain ⟨rootHex, parentHex, hres, hr, hp⟩ := hmarks
  have haccept : ∃ created, db.replyAncestry root parentId parent
      ((eventTimestamp parent.event).getD now) = .ok (root, created, depth) :=
    replyAncestry_iff.mpr ⟨hj.ancestry, rfl, hj.limit⟩
  obtain ⟨created, hanc⟩ := haccept
  rw [resolveNip10ThreadMeta, hres]
  dsimp only
  rw [hp]
  dsimp only
  rw [hj.live]
  dsimp only
  rw [hj.channel]
  dsimp only
  rw [if_neg (not_not.mpr rfl), hr]
  dsimp only
  rw [hanc]
  exact ⟨_, rfl, rfl, rfl⟩

theorem relay_joins {a : ReplyAncestry}
    (h : db.resolveRelayReplyThreadMeta parentHex channelId now = .ok a)
    (hp : decodeEventId parentHex = some parentId) :
    ∃ parent, db.Joinable parentId channelId a.rootEventId a.depth parent ∧
      a.parentEventId = parentId := by
  rw [resolveRelayReplyThreadMeta, isHexBytes_of_decode hp, hp] at h
  rw [if_neg (by decide)] at h
  dsimp only at h
  split at h
  · cases h
  · rename_i parent hlive
    split at h
    · cases h
    · rename_i parentCh hch
      split at h
      · cases h
      · rename_i hsame
        obtain ⟨created, hanc⟩ := relayAncestry_eq db parentId parent
          ((eventTimestamp parent.event).getD now)
        rw [hanc] at h
        dsimp only at h
        split at h
        · cases h
        · rename_i hdepth
          cases h
          exact ⟨parent, ⟨hlive, hch.trans (congrArg some (not_not.mp hsame)), rfl,
            not_lt.mp hdepth⟩, rfl⟩

theorem relay_accepts (hp : decodeEventId parentHex = some parentId)
    (hj : db.Joinable parentId channelId root depth parent) :
    ∃ a, db.resolveRelayReplyThreadMeta parentHex channelId now = .ok a ∧ a.rootEventId = root ∧
      a.depth = depth := by
  obtain ⟨created, hanc⟩ := relayAncestry_eq db parentId parent
    ((eventTimestamp parent.event).getD now)
  rw [hj.ancestry] at hanc
  rw [resolveRelayReplyThreadMeta, isHexBytes_of_decode hp, hp]
  rw [if_neg (by decide)]
  dsimp only
  rw [hj.live]
  dsimp only
  rw [hj.channel]
  dsimp only
  rw [if_neg (not_not.mpr rfl), hanc]
  dsimp only
  rw [if_neg (not_lt.mpr hj.limit)]
  exact ⟨_, rfl, rfl, rfl⟩

/-- The thread row that lookups of an event find, as far as ancestry reads it. -/
def RowSays (threads : List ThreadRow) (id : EventId) (root : Option EventId) (depth : Nat) :
    Prop :=
  ∃ t, threads.find? (fun t => t.eventId == id) = some t ∧ t.rootEventId = root ∧ t.depth = depth

section
variable {threads : List ThreadRow} {id pid : EventId} {r : Option EventId} {k : Nat}

theorem RowSays.insert (h : RowSays threads id r k) (t : ThreadRow) :
    RowSays (insertThreadRow threads t).1 id r k := by
  obtain ⟨u, hu, hr, hk⟩ := h
  rw [insertThreadRow]
  split
  · exact ⟨u, hu, hr, hk⟩
  · refine ⟨u, ?_, hr, hk⟩
    rw [List.find?_append, hu, Option.some_or]

/-- Counting keeps what a lookup finds. -/
theorem RowSays.map (h : RowSays threads id r k)
    {g : ThreadRow → ThreadRow}
    (hg : ∀ t, (g t).eventId = t.eventId ∧ (g t).rootEventId = t.rootEventId ∧
      (g t).depth = t.depth) : RowSays (threads.map g) id r k := by
  obtain ⟨u, hu, hr, hk⟩ := h
  refine ⟨g u, ?_, (hg u).2.1.trans hr, (hg u).2.2.trans hk⟩
  have hp : (fun t => t.eventId == id) ∘ g = fun t => t.eventId == id := by
    funext t
    rw [Function.comp_apply, (hg t).1]
  rw [List.find?_map, hp, hu, Option.map_some]

theorem RowSays.reply (h : RowSays threads id r k) (f : Nat → Nat)
    (target : EventId) : RowSays (updateReplyCount f target threads) id r k := by
  apply h.map
  intro t
  split <;> exact ⟨rfl, rfl, rfl⟩

theorem RowSays.descendant (h : RowSays threads id r k) (f : Nat → Nat)
    (target : EventId) : RowSays (updateDescendantCount f target threads) id r k := by
  apply h.map
  intro t
  split <;> exact ⟨rfl, rfl, rfl⟩

/-- What `insertThreadMetadata` does after the rows of the reply and of its parent. -/
theorem RowSays.finish (h : RowSays threads id r k)
    (mp : ThreadMetadataParams) (pid : EventId) :
    RowSays
      (let threads :=
        match mp.rootEventId with
        | some rootId =>
          if rootId ≠ pid then
            (insertThreadRow threads
              (stubRow (mp.rootEventCreatedAt.getD mp.eventCreatedAt) rootId mp.channelId)).1
          else threads
        | none => threads
      let threads := updateReplyCount (· + 1) pid threads
      match mp.rootEventId with
      | some rootId => updateDescendantCount (· + 1) rootId threads
      | none => threads) id r k := by
  cases mp.rootEventId with
  | none => exact h.reply _ _
  | some rootId =>
    dsimp only
    split
    · exact ((h.insert _).reply _ _).descendant _ _
    · exact (h.reply _ _).descendant _ _

/-- A row once found stays the one that is found. -/
theorem RowSays.insertThreadMetadata (h : RowSays threads id r k)
    (mp : ThreadMetadataParams) : RowSays (insertThreadMetadata threads mp) id r k := by
  rw [ThreadDb.insertThreadMetadata]
  dsimp only
  split
  · exact ((h.insert _).insert _).finish mp _
  · exact h.insert _

/-- The first recorded reply gives its parent a row of its own. -/
theorem rowSays_stub {mp : ThreadMetadataParams}
    (hno : threads.find? (fun t => t.eventId == pid) = none) (hpid : mp.parentEventId = some pid)
    (hne : mp.eventId ≠ pid)
    (hnew : ∀ t ∈ threads, ¬(t.eventCreatedAt = mp.eventCreatedAt ∧ t.eventId = mp.eventId)) :
    RowSays (ThreadDb.insertThreadMetadata threads mp) pid none 0 := by
  have hown : ∀ u : ThreadRow, u.eventCreatedAt = mp.eventCreatedAt → u.eventId = mp.eventId →
      insertThreadRow threads u = (threads ++ [u], true) := by
    intro u hc he
    rw [insertThreadRow, if_neg]
    intro hany
    obtain ⟨t, ht, hk⟩ := List.any_eq_true.mp hany
    rw [Bool.and_eq_true, beq_iff_eq, beq_iff_eq, hc, he] at hk
    exact hnew t ht hk
  have hstub : ∀ u : ThreadRow, u.eventId = mp.eventId → ∀ created,
      RowSays (insertThreadRow (threads ++ [u]) (stubRow created pid mp.channelId)).1 pid none 0 := by
    intro u hu created
    have hnone : (threads ++ [u]).find? (fun t => t.eventId == pid) = none := by
      rw [List.find?_append, hno, Option.none_or, List.find?_singleton, hu,
        beq_eq_false_iff_ne.mpr hne]
      rfl
    rw [insertThreadRow, if_neg]
    · refine ⟨stubRow created pid mp.channelId, ?_, rfl, rfl⟩
      rw [List.find?_append, hnone, Option.none_or, List.find?_singleton]
      simp [stubRow]
    · intro hany
      obtain ⟨t, ht, hk⟩ := List.any_eq_true.mp hany
      rw [Bool.and_eq_true] at hk
      exact List.find?_eq_none.mp hnone t ht hk.2
  rw [ThreadDb.insertThreadMetadata, hown _ rfl rfl, hpid]
  exact (hstub _ rfl _).finish mp pid

end

theorem getEventById_id (h : db.getEventById parentId = some parent) :
    parent.event.id = parentId := by
  obtain ⟨row, _, hid, _, hread⟩ := getEventById_mem h
  rw [rowToStoredEvent] at hread
  split at hread
  · cases hread
    exact hid
  · cases hread

theorem getEventById_append {row : EventRow} (hne : row.id ≠ parentId) (threads : List ThreadRow) :
    getEventById ⟨db.community, db.events ++ [row], threads⟩ parentId =
      db.getEventById parentId := by
  simp [getEventById, List.filter_append, hne]

/-- A deletion brings no event back. -/
theorem getEventById_hide {id : EventId} (h : (db.hide id).getEventById parentId = some parent) :
    db.getEventById parentId = some parent := by
  by_cases he : id = parentId
  · subst he
    obtain ⟨row, hmem, hid, hlive, _⟩ := getEventById_mem h
    obtain ⟨r, _, rfl⟩ := List.mem_map.mp hmem
    split at hid
    · rename_i hr
      rw [if_pos hr] at hlive
      cases hlive
    · rename_i hr
      exact absurd hid hr
  · have hfilter : ((db.hide id).events.filter fun row => row.id == parentId && !row.deleted) =
        db.events.filter fun row => row.id == parentId && !row.deleted := by
      rw [hide]
      induction db.events with
      | nil => rfl
      | cons row rows ih =>
        rw [List.map_cons, List.filter_cons, List.filter_cons, ih]
        by_cases hr : row.id = id
        · have hne : (id == parentId) = false := beq_eq_false_iff_ne.mpr he
          simp [hr, hne]
        · rw [if_neg hr]
    rw [getEventById, hfilter] at h
    exact h

/-- What an insertion does to the tables. -/
theorem insert_outcome {threadMeta : Option ThreadMetadataParams} {ch : Option Uuid}
    (hins : db.insertEventWithThreadMetadata event ch threadMeta = .ok (db', inserted)) :
    (db' = db ∧ inserted = false) ∨
      (inserted = true ∧ ∃ createdAt, eventTimestamp event = some createdAt ∧
        (∀ row ∈ db.events, ¬(row.createdAt = createdAt ∧ row.id = event.id)) ∧
        db' = ⟨db.community, db.events ++ [eventRow db.community event createdAt ch],
          threadMeta.elim db.threads (insertThreadMetadata db.threads)⟩) := by
  rw [insertEventWithThreadMetadata.eq_def] at hins
  split at hins
  · cases hins
  · split at hins
    · cases hins
    · split at hins
      · cases hins
      · rename_i createdAt hts
        split at hins
        · cases hins
          exact .inl ⟨rfl, rfl⟩
        · rename_i hnone
          cases hins
          refine .inr ⟨rfl, createdAt, hts, ?_, ?_⟩
          · rintro row hrow ⟨hc, he⟩
            apply hnone
            exact List.any_eq_true.mpr ⟨row, hrow, by simp [hc, he]⟩
          · cases threadMeta <;> rfl

/-- The parent keeps its place in the tables: its row is stored under its own time, lookups find
no other event under its id, and its thread row says the same. -/
structure Anchored (db : ThreadDb) (parent : StoredEvent) (root : Option EventId) (depth : Nat) :
    Prop where
  stored : ∃ row ∈ db.events, row.id = parent.event.id ∧
    eventTimestamp parent.event = some row.createdAt
  live : ∀ ev, db.getEventById parent.event.id = some ev → ev = parent
  thread : RowSays db.threads parent.event.id root depth

section
variable {r : Option EventId} {k : Nat} {db' : ThreadDb}

theorem stored_of_live (hdate : ∀ row ∈ db.events, row.createdAt ≤ DateTime.MAX_SECS)
    (h : db.getEventById parentId = some parent) :
    ∃ row ∈ db.events, row.id = parent.event.id ∧
      eventTimestamp parent.event = some row.createdAt := by
  obtain ⟨row, hmem, hid, _, hread⟩ := getEventById_mem h
  exact ⟨row, hmem, hid.trans (getEventById_id h).symm,
    (eventTimestamp_of_row (hdate row hmem) hread).1⟩

/-- A newly stored event is another one than the parent. -/
theorem fresh_ne_parent
    (hstored : ∃ row ∈ db.events, row.id = parent.event.id ∧
      eventTimestamp parent.event = some row.createdAt)
    (htell : event.id = parent.event.id → event = parent.event)
    (hts : eventTimestamp event = some createdAt)
    (hnew : ∀ row ∈ db.events, ¬(row.createdAt = createdAt ∧ row.id = event.id)) :
    event.id ≠ parent.event.id := by
  intro he
  obtain ⟨row, hmem, hid, hrow⟩ := hstored
  rw [htell he, hrow, Option.some.injEq] at hts
  exact hnew row hmem ⟨hts, hid.trans he.symm⟩

theorem Anchored.insert {threadMeta : Option ThreadMetadataParams} {ch : Option Uuid}
    (h : Anchored db parent r k) (htell : event.id = parent.event.id → event = parent.event)
    (hins : db.insertEventWithThreadMetadata event ch threadMeta = .ok (db', inserted)) :
    Anchored db' parent r k := by
  rcases insert_outcome hins with ⟨rfl, _⟩ | ⟨_, createdAt, hts, hnew, rfl⟩
  · exact h
  · have hne := fresh_ne_parent h.stored htell hts hnew
    obtain ⟨row, hmem, hrow⟩ := h.stored
    refine ⟨⟨row, List.mem_append_left _ hmem, hrow⟩, ?_, ?_⟩
    · intro ev hev
      rw [getEventById_append hne] at hev
      exact h.live ev hev
    · cases threadMeta with
      | none => exact h.thread
      | some mp => exact h.thread.insertThreadMetadata mp

theorem Anchored.delete (h : Anchored db parent r k) (id : EventId) (p root : Option EventId) :
    Anchored (db.softDeleteEventAndUpdateThread id p root).1 parent r k := by
  rw [softDeleteEventAndUpdateThread.eq_def]
  dsimp only
  split
  · refine ⟨?_, ?_, ?_⟩
    · obtain ⟨row, hmem, hid, hts⟩ := h.stored
      refine ⟨_, List.mem_map_of_mem hmem, ?_, ?_⟩
      · split <;> exact hid
      · split <;> exact hts
    · intro ev hev
      exact h.live ev (getEventById_hide hev)
    · cases p with
      | none => exact h.thread
      | some pid =>
        cases root with
        | none => exact h.thread.reply (· - 1) pid
        | some rootId => exact (h.thread.reply (· - 1) pid).descendant (· - 1) rootId
  · exact h

theorem Anchored.step (h : Anchored db parent r k) {op : ReplyOp}
    (htell : ∀ e, op.Submits e → e.id = parent.event.id → e = parent.event) :
    Anchored (db.replyStep op) parent r k := by
  cases op with
  | client op =>
    cases op with
    | submit event channelId now =>
      rw [replyStep, ThreadDb.step]
      split
      · exact h
      · split
        · exact h
        · rename_i hins
          exact h.insert (htell event rfl) hins
    | delete id => exact h.delete id _ _
  | workflow message channelId replyTo now =>
    rw [replyStep]
    split
    · exact h
    · rename_i hsend
      rw [sendMessage.eq_def] at hsend
      dsimp only at hsend
      split at hsend
      · cases hsend
      · exact h.insert (htell _ ⟨_, rfl⟩) (ok_of_mapError hsend)

theorem Anchored.run (h : Anchored db parent r k) {ops : List ReplyOp}
    (htell : ∀ op ∈ ops, ∀ e, op.Submits e → e.id = parent.event.id → e = parent.event) :
    Anchored (db.replyRun ops) parent r k := by
  induction ops generalizing db with
  | nil => exact h
  | cons op ops ih =>
    rw [List.forall_mem_cons] at htell
    exact ih (h.step htell.1) htell.2

end

/-- How a reply with markers for a root and a parent comes to its thread metadata: by a client's
markers, or built by the relay for the parent. -/
inductive Accepts (db : ThreadDb) (root parentId : EventId) (channelId : Uuid) :
    Event → ThreadMetadataOwned → Prop
  | client {event : Event} {m : ThreadMetadataOwned} {now : Int} : event.Marks root parentId →
    db.resolveNip10ThreadMeta event channelId now = .ok (some m) →
    Accepts db root parentId channelId event m
  | workflow {event : Event} {a : ReplyAncestry} {parentHex : String} {now createdAt : Int} :
    decodeEventId parentHex = some parentId →
    db.resolveRelayReplyThreadMeta parentHex channelId now = .ok a → a.rootEventId = root →
    Accepts db root parentId channelId event (a.intoThreadMeta event.id createdAt channelId)

/-- Every reply with the markers is accepted with the root and the depth, and so is every reply
that the relay builds for the parent. -/
def KeepsAncestry (db : ThreadDb) (root parentId : EventId) (channelId : Uuid) (depth : Nat) :
    Prop :=
  (∀ event now, event.Marks root parentId →
    ∃ m, db.resolveNip10ThreadMeta event channelId now = .ok (some m) ∧ m.rootEventId = root ∧
      m.depth = depth) ∧
  ∀ parentHex now, decodeEventId parentHex = some parentId →
    ∃ a, db.resolveRelayReplyThreadMeta parentHex channelId now = .ok a ∧ a.rootEventId = root ∧
      a.depth = depth

/-- The parent has no thread row, and its own markers name another root. -/
def NestedUnindexed (db : ThreadDb) (parentId : EventId) (parent : Event) : Prop :=
  db.getThreadMetadataByEvent parentId = none ∧ parent.markedRoot parentId ≠ parentId

theorem Accepts.joins (h : db.Accepts root parentId channelId event m) :
    ∃ parent, db.Joinable parentId channelId root m.depth parent ∧ m.rootEventId = root ∧
      m.parentEventId = parentId ∧ m.eventId = event.id := by
  cases h with
  | client hmarks hres => exact client_joins hres hmarks
  | workflow hp hres hroot =>
    obtain ⟨parent, hj, hpid⟩ := relay_joins hres hp
    exact ⟨parent, hroot ▸ hj, hroot, hpid, rfl⟩

theorem Joinable.keeps (hj : db.Joinable parentId channelId root depth parent) :
    db.KeepsAncestry root parentId channelId depth :=
  ⟨fun _ _ hmarks => client_accepts hmarks hj, fun _ _ hp => relay_accepts hp hj⟩

theorem ancestryOf_row (h : RowSays db.threads parentId r k) (parent : Event) :
    db.ancestryOf parentId parent = (r.getD parentId, k + 1) := by
  obtain ⟨t, ht, rfl, rfl⟩ := h
  have hget : db.getThreadMetadataByEvent parentId = some t := ht
  rw [ancestryOf, hget]

section
variable {db₁ : ThreadDb}

theorem live_of_insert {ch : Option Uuid} {threadMeta : Option ThreadMetadataParams}
    (hdate : ∀ row ∈ db.events, row.createdAt ≤ DateTime.MAX_SECS)
    (hlive : db.getEventById parentId = some parent)
    (htell : event.id = parent.event.id → event = parent.event)
    (hins : db.insertEventWithThreadMetadata event ch threadMeta = .ok (db₁, inserted)) :
    db₁.getEventById parentId = some parent := by
  rcases insert_outcome hins with ⟨rfl, _⟩ | ⟨_, createdAt, hts, hnew, rfl⟩
  · exact hlive
  · have hne := fresh_ne_parent (stored_of_live hdate hlive) htell hts hnew
    rw [getEventById_id hlive] at hne
    exact (getEventById_append hne _).trans hlive

/-- A first reply that is recorded leaves its parent with a row of its own. -/
theorem recorded_first (hdate : ∀ row ∈ db.events, row.createdAt ≤ DateTime.MAX_SECS)
    (hlive : db.getEventById parentId = some parent)
    (hnone : db.getThreadMetadataByEvent parentId = none)
    (htell : event.id = parent.event.id → event = parent.event)
    (hparent : m.parentEventId = parentId) (hid : m.eventId = event.id)
    (hins : db.insertEventWithThreadMetadata event (some channelId) (some m.asParams) =
      .ok (db₁, true))
    (hnew : ∀ t ∈ db.threads, ¬(t.eventCreatedAt = m.eventCreatedAt ∧ t.eventId = m.eventId)) :
    Anchored db₁ parent none 0 := by
  have hlive₁ := live_of_insert hdate hlive htell hins
  have hpid := getEventById_id hlive
  have hstored := stored_of_live hdate hlive
  rcases insert_outcome hins with ⟨_, hfalse⟩ | ⟨_, createdAt, hts, hfresh, rfl⟩
  · cases hfalse
  · have hne := fresh_ne_parent hstored htell hts hfresh
    obtain ⟨row, hmem, hrow⟩ := hstored
    refine ⟨⟨row, List.mem_append_left _ hmem, hrow⟩, ?_, ?_⟩
    · intro ev hev
      rw [hpid, hlive₁, Option.some.injEq] at hev
      exact hev.symm
    · rw [hpid] at hne ⊢
      exact rowSays_stub hnone (congrArg some hparent) (hid.trans_ne hne) hnew

/-- After a recorded reply the parent's row gives every further reply the same ancestry, unless
the parent was nested and had no row. -/
theorem ancestry_recorded (hdate : ∀ row ∈ db.events, row.createdAt ≤ DateTime.MAX_SECS)
    (hlive : db.getEventById parentId = some parent)
    (hacc : db.Accepts root parentId channelId event m)
    (htell : event.id = parent.event.id → event = parent.event)
    (hins : db.insertEventWithThreadMetadata event (some channelId) (some m.asParams) =
      .ok (db₁, true))
    (hnew : ∀ t ∈ db.threads, ¬(t.eventCreatedAt = m.eventCreatedAt ∧ t.eventId = m.eventId)) :
    ∃ r k, Anchored db₁ parent r k ∧
      ((r.getD parentId, k + 1) = (root, m.depth) ↔ ¬db.NestedUnindexed parentId parent.event) := by
  obtain ⟨parent', hj, hroot, hpar, hid⟩ := hacc.joins
  cases hlive.symm.trans hj.live
  have hanc := hj.ancestry
  cases hget : db.getThreadMetadataByEvent parentId with
  | some t =>
    have hsays : RowSays db.threads parent.event.id t.rootEventId t.depth := by
      rw [getEventById_id hlive]
      exact ⟨t, hget, rfl, rfl⟩
    have hanch : Anchored db parent t.rootEventId t.depth := by
      refine ⟨stored_of_live hdate hlive, ?_, hsays⟩
      intro ev hev
      rw [getEventById_id hlive, hlive, Option.some.injEq] at hev
      exact hev.symm
    refine ⟨t.rootEventId, t.depth, hanch.insert htell hins, ?_⟩
    rw [ancestryOf, hget] at hanc
    apply iff_of_true hanc
    rintro ⟨hnone, _⟩
    rw [hget] at hnone
    cases hnone
  | none =>
    refine ⟨none, 0, recorded_first hdate hlive hget htell hpar hid hins hnew, ?_⟩
    rw [ancestryOf, hget] at hanc
    dsimp only at hanc
    rw [← hanc, Option.getD_none, NestedUnindexed]
    by_cases hself : parent.event.markedRoot parentId = parentId
    · simp [hself]
    · rw [if_neg hself, Prod.mk.injEq]
      simp [hself, hget]

end

namespace ThreadExample

def idOf (n : Nat) : EventId := HexId.ofNat 64 n

/-- A nested reply that was stored without a thread row. -/
def legacy : ThreadDb where
  community := home
  events := [eventRow home (message 1 1000 none) 1000 (some channel),
    eventRow home (message 2 2000 (some (1, 1))) 2000 (some channel)]
  threads := []

/-- The same messages, indexed. -/
def indexed : ThreadDb :=
  { legacy with
    threads := [⟨2000, idOf 2, channel, some (idOf 1), some 1000, some (idOf 1), some 1000, 1,
      false, 0, 0⟩] }

def firstReply : Event := message 3 3000 (some (1, 2))

def laterReply : Event := message 4 4000 (some (1, 2))

def firstMeta : ThreadMetadataOwned :=
  ⟨idOf 3, 3000, channel, idOf 2, 2000, idOf 1, 1000, 2, false⟩

def afterFirst (db : ThreadDb) : ThreadDb where
  community := home
  events := db.events ++ [eventRow home firstReply 3000 (some channel)]
  threads := insertThreadMetadata db.threads firstMeta.asParams

theorem marks_reply (id : Nat) (createdAt : UInt64) :
    (message id createdAt (some (1, 2))).Marks (idOf 1) (idOf 2) :=
  ⟨_, _, by rfl, by rfl, by rfl⟩

end ThreadExample

end ThreadDb

end Buzz
