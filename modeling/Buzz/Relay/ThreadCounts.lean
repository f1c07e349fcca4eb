import Buzz.Relay.Thread

namespace Buzz
set_option autoImplicit true

namespace ThreadDb

/-- The event's thread row names the target, as parent or as root. -/
def names (threads : List ThreadRow) (sel : ThreadRow → Option EventId) (target : EventId)
    (row : EventRow) : Bool :=
  threads.any fun t => t.eventId == row.id && sel t == some target

/-- The number of live events whose thread row names the target. -/
def liveNaming (db : ThreadDb) (sel : ThreadRow → Option EventId) (target : EventId) : Nat :=
  db.events.countP fun row => !row.deleted && names db.threads sel target row

def liveReplies (db : ThreadDb) : EventId → Nat :=
  db.liveNaming ThreadRow.parentEventId

def liveDescendants (db : ThreadDb) : EventId → Nat :=
  db.liveNaming ThreadRow.rootEventId

/-- Change nothing but the counters of the rows. -/
def adjust (f g : ThreadRow → Nat) (threads : List ThreadRow) : List ThreadRow :=
  threads.map fun t => { t with replyCount := f t, descendantCount := g t }

theorem updateCounts_eq (f g : Nat → Nat) (p root : EventId) (threads : List ThreadRow) :
    updateDescendantCount g root (updateReplyCount f p threads) =
      adjust (fun t => if t.eventId = p then f t.replyCount else t.replyCount)
        (fun t => if t.eventId = root then g t.descendantCount else t.descendantCount) threads := by
  rw [updateDescendantCount, updateReplyCount, adjust, List.map_map]
  apply List.map_congr_left
  intro t _
  have hid : (if t.eventId = p then { t with replyCount := f t.replyCount } else t).eventId =
      t.eventId := by
    split <;> rfl
  simp only [Function.comp_apply, hid]
  by_cases hp : t.eventId = p
  · by_cases hr : t.eventId = root
    · simp only [if_pos hp, if_pos hr]
    · simp only [if_pos hp, if_neg hr]
  · by_cases hr : t.eventId = root
    · simp only [if_neg hp, if_pos hr]
    · simp only [if_neg hp, if_neg hr]

/-- The two columns that name another event. -/
def IsNaming (sel : ThreadRow → Option EventId) : Prop :=
  ∀ t a b, sel { t with replyCount := a, descendantCount := b } = sel t

theorem isNaming_parent : IsNaming ThreadRow.parentEventId := fun _ _ _ => rfl

theorem isNaming_root : IsNaming ThreadRow.rootEventId := fun _ _ _ => rfl

theorem names_adjust (hsel : IsNaming sel) (f g : ThreadRow → Nat) (threads : List ThreadRow) :
    names (adjust f g threads) sel target row = names threads sel target row := by
  rw [names, names, adjust, List.any_map]
  congr 1
  funext t
  simp only [Function.comp_apply, hsel t]

theorem names_append (threads new : List ThreadRow) :
    names (threads ++ new) sel target row =
      (names threads sel target row || names new sel target row) :=
  List.any_append

theorem names_iff {threads : List ThreadRow} :
    names threads sel target row = true ↔
      ∃ t ∈ threads, t.eventId = row.id ∧ sel t = some target := by
  simp [names]

/-- What holds of the tables apart from the counters. The events come from a set of valid
ones, whose ids tell them apart. -/
structure Shape (valid : Event → Prop) (db : ThreadDb) : Prop where
  ids : (db.events.map EventRow.id).Nodup
  origin : ∀ row ∈ db.events, ∃ e, valid e ∧ e.id = row.id ∧
    eventTimestamp e = some row.createdAt ∧ e.tags = row.tags
  rowIds : (db.threads.map ThreadRow.eventId).Nodup
  owner : ∀ t ∈ db.threads, ∃ row ∈ db.events, row.id = t.eventId ∧ row.createdAt = t.eventCreatedAt
  top : ∀ t ∈ db.threads, t.parentEventId = none → t.rootEventId = none ∧ t.depth = 0
  nested : ∀ t ∈ db.threads, ∀ p, t.parentEventId = some p → ∃ tp ∈ db.threads, tp.eventId = p ∧
    t.rootEventId = some (tp.rootEventId.getD p) ∧ t.depth = tp.depth + 1
  rooted : ∀ t ∈ db.threads, ∀ root, t.rootEventId = some root →
    ∃ tr ∈ db.threads, tr.eventId = root ∧ 0 ≤ tr.eventCreatedAt
  marked : ∀ row ∈ db.events, ∀ markers, (parseThreadMarkers row.tags).resolve = some markers →
    ∃ t ∈ db.threads, t.eventId = row.id ∧ t.parentEventId.isSome ∧
      t.parentEventId = decodeEventId markers.2

/-- The counters are exact. -/
structure Counts (db : ThreadDb) : Prop where
  replies : ∀ t ∈ db.threads, t.replyCount = db.liveReplies t.eventId
  descendants : ∀ t ∈ db.threads, t.descendantCount = db.liveDescendants t.eventId

theorem row_eq_of_id {db : ThreadDb} (h : Shape valid db) (ha : a ∈ db.events) (hb : b ∈ db.events)
    (he : a.id = b.id) : a = b :=
  List.inj_on_of_nodup_map h.ids ha hb he

theorem thread_eq_of_id {db : ThreadDb} (h : Shape valid db) (ha : a ∈ db.threads)
    (hb : b ∈ db.threads) (he : a.eventId = b.eventId) : a = b :=
  List.inj_on_of_nodup_map h.rowIds ha hb he

theorem unmarked (h : Shape valid db) (hr : row ∈ db.events)
    (hno : ∀ t ∈ db.threads, t.eventId ≠ row.id) : (parseThreadMarkers row.tags).resolve = none := by
  cases hm : (parseThreadMarkers row.tags).resolve with
  | none => rfl
  | some markers =>
    obtain ⟨t, ht, he, _⟩ := h.marked row hr markers hm
    exact absurd he (hno t ht)

/-- A row that is named has a thread row itself. -/
theorem exists_named (h : Shape valid db) (hsel : sel = ThreadRow.parentEventId ∨
    sel = ThreadRow.rootEventId) (ht : t ∈ db.threads) (hn : sel t = some target) :
    ∃ t' ∈ db.threads, t'.eventId = target := by
  rcases hsel with rfl | rfl
  · obtain ⟨tp, htp, he, _⟩ := h.nested t ht target hn
    exact ⟨tp, htp, he⟩
  · obtain ⟨tr, htr, he, _⟩ := h.rooted t ht target hn
    exact ⟨tr, htr, he⟩

theorem liveNaming_eq_zero (h : Shape valid db) (hsel : sel = ThreadRow.parentEventId ∨
    sel = ThreadRow.rootEventId) (hno : ∀ t ∈ db.threads, t.eventId ≠ target) :
    db.liveNaming sel target = 0 := by
  rw [liveNaming, List.countP_eq_zero]
  intro row _ hrow
  rw [Bool.and_eq_true, names_iff] at hrow
  obtain ⟨t, ht, _, hn⟩ := hrow.2
  obtain ⟨t', ht', he⟩ := exists_named h hsel ht hn
  exact hno t' ht' he

theorem getEventById_mem {id : EventId} (h : getEventById db id = some ev) :
    ∃ row ∈ db.events, row.id = id ∧ row.deleted = false ∧ rowToStoredEvent row = some ev := by
  obtain ⟨row, hrow, hread⟩ := Option.bind_eq_some_iff.mp h
  have hmem := (List.mem_insertionSort _).mp (List.mem_of_mem_head? hrow)
  obtain ⟨hin, hp⟩ := List.mem_filter.mp hmem
  rw [Bool.and_eq_true, beq_iff_eq, Bool.not_eq_true'] at hp
  exact ⟨row, hin, hp.1, hp.2, hread⟩

theorem getEventById_live (h : Shape valid db) (hr : row ∈ db.events) (hl : row.deleted = false) :
    getEventById db row.id = rowToStoredEvent row := by
  have hmem : row ∈ (db.events.filter fun r => r.id == row.id && !r.deleted).insertionSort
      rowBefore := by
    rw [List.mem_insertionSort, List.mem_filter]
    exact ⟨hr, by simp [hl]⟩
  rw [getEventById]
  cases hh : ((db.events.filter fun r => r.id == row.id && !r.deleted).insertionSort
      rowBefore).head? with
  | none =>
    rw [List.head?_eq_none_iff.mp hh] at hmem
    cases hmem
  | some r =>
    have hr' := (List.mem_insertionSort _).mp (List.mem_of_mem_head? hh)
    obtain ⟨hin, hp⟩ := List.mem_filter.mp hr'
    rw [Bool.and_eq_true, beq_iff_eq] at hp
    rw [row_eq_of_id h hin hr hp.1, Option.bind_some]

theorem eventTimestamp_range (h : eventTimestamp e = some c) :
    DateTime.MIN_SECS ≤ c ∧ c ≤ DateTime.MAX_SECS := by
  rw [eventTimestamp, DateTime.fromTimestamp] at h
  split at h
  · cases h
    assumption
  · cases h

/-- A row that reads back gives its own time. -/
theorem eventTimestamp_of_row (hmax : row.createdAt ≤ DateTime.MAX_SECS)
    (h : rowToStoredEvent row = some ev) :
    eventTimestamp ev.event = some row.createdAt ∧ 0 ≤ row.createdAt ∧ ev.event.tags = row.tags ∧
      ev.channelId = row.channelId := by
  rw [rowToStoredEvent] at h
  split at h
  · rename_i hrange
    cases h
    refine ⟨?_, hrange.1, rfl, rfl⟩
    rw [DateTime.MAX_SECS] at hmax
    have hcast : asI64 (UInt64.ofNat row.createdAt.toNat) = row.createdAt := by
      rw [asI64, UInt64.toNat_ofNat_of_lt' (by simp only [UInt64.size]; omega)]
      split <;> omega
    rw [eventTimestamp, hcast, DateTime.fromTimestamp, if_pos]
    rw [DateTime.MIN_SECS, DateTime.MAX_SECS]
    omega
  · cases h

theorem row_max (h : Shape valid db) (hr : row ∈ db.events) :
    row.createdAt ≤ DateTime.MAX_SECS := by
  obtain ⟨e, _, _, hts, _⟩ := h.origin row hr
  exact (eventTimestamp_range hts).2

/-- The root's time is its own when it is live or as old as the reply's parent. -/
theorem rootTimestamp_eq (h : Shape valid db) (hr : row ∈ db.events) (hpos : 0 ≤ row.createdAt)
    (hkept : row.deleted = false ∨ row.createdAt = parentCreated) :
    db.rootTimestamp row.id parentCreated = row.createdAt := by
  have hmax := row_max h hr
  cases hdel : row.deleted with
  | false =>
    have hread : ∃ ev, rowToStoredEvent row = some ev := by
      rw [rowToStoredEvent, if_pos]
      · exact ⟨_, rfl⟩
      · rw [DateTime.MAX_SECS] at hmax
        omega
    obtain ⟨ev, hev⟩ := hread
    rw [rootTimestamp, getEventById_live h hr hdel, hev]
    dsimp only
    rw [(eventTimestamp_of_row hmax hev).1, Option.getD_some]
  | true =>
    have hpc : row.createdAt = parentCreated := by
      rcases hkept with hl | he
      · rw [hdel] at hl
        cases hl
      · exact he
    rw [rootTimestamp]
    cases hg : db.getEventById row.id with
    | none => exact hpc.symm
    | some ev =>
      obtain ⟨r, hmem, hid, hl, _⟩ := getEventById_mem hg
      rw [row_eq_of_id h hmem hr hid, hdel] at hl
      cases hl

/-- The event that the reply marker of an event names. -/
def replyParent (event : Event) : Option EventId :=
  (parseThreadMarkers event.tags).resolve.bind fun m => decodeEventId m.2

/-- What ingest has resolved for an accepted reply. -/
structure Resolved (db : ThreadDb) (event : Event) (m : ThreadMetadataOwned) (prow : EventRow) :
    Prop where
  parent : replyParent event = some m.parentEventId
  mem : prow ∈ db.events
  parentId : prow.id = m.parentEventId
  readable : 0 ≤ prow.createdAt
  created : m.parentEventCreatedAt = prow.createdAt
  eventId : m.eventId = event.id
  eventCreated : ∀ c, eventTimestamp event = some c → m.eventCreatedAt = c
  ancestry :
    (∃ tp ∈ db.threads, tp.eventId = m.parentEventId ∧
      m.rootEventId = tp.rootEventId.getD m.parentEventId ∧ m.depth = tp.depth + 1 ∧
      m.rootEventCreatedAt = db.rootTimestamp m.rootEventId prow.createdAt) ∨
    ((∀ t ∈ db.threads, t.eventId ≠ m.parentEventId) ∧ m.rootEventId = m.parentEventId ∧
      m.depth = 1)

theorem ancestry_of_ok {parentId : EventId} {parentEvent : StoredEvent} {parentCreated : Int}
    (h : Shape valid db) (hmem : prow ∈ db.events) (hid : prow.id = parentId)
    (htags : parentEvent.event.tags = prow.tags)
    (hanc : db.replyAncestry clientRoot parentId parentEvent parentCreated =
      .ok (root, rootCreated, depth)) :
    (∃ tp ∈ db.threads, tp.eventId = parentId ∧ root = tp.rootEventId.getD parentId ∧
      depth = tp.depth + 1 ∧ rootCreated = db.rootTimestamp root parentCreated) ∨
    ((∀ t ∈ db.threads, t.eventId ≠ parentId) ∧ root = parentId ∧ depth = 1) := by
  rw [replyAncestry] at hanc
  split at hanc
  · rename_i tp hfind
    have htp := List.mem_of_find?_eq_some hfind
    have hpid : tp.eventId = parentId := by
      simpa using List.find?_some hfind
    dsimp only at hanc
    split at hanc
    · cases hanc
    · split at hanc
      · cases hanc
      · cases hanc
        exact .inl ⟨tp, htp, hpid, rfl, rfl, rfl⟩
  · rename_i hfind
    have hno : ∀ t ∈ db.threads, t.eventId ≠ parentId := by
      simpa [getThreadMetadataByEvent] using hfind
    have hun := unmarked h hmem (by rw [hid]; exact hno)
    have hder : db.deriveAncestryFromParentTags parentEvent.event parentId parentCreated =
        (parentId, parentCreated, 1) := by
      simp [deriveAncestryFromParentTags, htags, hun]
    rw [hder] at hanc
    dsimp only at hanc
    split at hanc
    · cases hanc
    · cases hanc
      exact .inr ⟨hno, rfl, rfl⟩

theorem resolved_of_ok (h : Shape valid db)
    (hres : db.resolveNip10ThreadMeta event channelId now = .ok (some m)) :
    ∃ prow, Resolved db event m prow := by
  rw [resolveNip10ThreadMeta] at hres
  split at hres
  · cases hres
  · rename_i rootHex parentHex hmark
    split at hres
    · cases hres
    · rename_i parentId hdec
      split at hres
      · cases hres
      · rename_i parentEvent hget
        obtain ⟨prow, hmem, hid, _, hread⟩ := getEventById_mem hget
        obtain ⟨hts, hpos, htags, _⟩ := eventTimestamp_of_row (row_max h hmem) hread
        split at hres
        · cases hres
        · split at hres
          · cases hres
          · simp only [hts, Option.getD_some] at hres
            split at hres
            · cases hres
            · rename_i clientRoot _
              split at hres
              · cases hres
              · rename_i root rootCreated depth hanc
                cases hres
                refine ⟨prow, ⟨?_, hmem, hid, hpos, rfl, rfl, ?_, ?_⟩⟩
                · rw [replyParent, hmark]
                  exact hdec
                · intro c hc
                  rw [hc]
                  rfl
                · exact ancestry_of_ok h hmem hid htags hanc

/-- The root of the thread that a reply joins is live, or as old as the reply's parent. -/
def RootKept (db : ThreadDb) (event : Event) : Prop :=
  ∀ p, replyParent event = some p → ∀ t ∈ db.threads, t.eventId = p → ∀ root,
    t.rootEventId = some root → ∀ row ∈ db.events, row.id = root → ∀ prow ∈ db.events,
      prow.id = p → row.deleted = false ∨ row.createdAt = prow.createdAt

theorem insertThreadRow_new {threads : List ThreadRow} (h : ∀ u ∈ threads, u.eventId ≠ t.eventId) :
    insertThreadRow threads t = (threads ++ [t], true) := by
  rw [insertThreadRow, if_neg]
  intro hany
  obtain ⟨u, hu, hk⟩ := List.any_eq_true.mp hany
  rw [Bool.and_eq_true, beq_iff_eq, beq_iff_eq] at hk
  exact h u hu hk.2

theorem insertThreadRow_conflict {threads : List ThreadRow} (hu : u ∈ threads)
    (hc : u.eventCreatedAt = t.eventCreatedAt) (he : u.eventId = t.eventId) :
    insertThreadRow threads t = (threads, false) := by
  rw [insertThreadRow, if_pos]
  exact List.any_eq_true.mpr ⟨u, hu, by simp [hc, he]⟩

/-- The thread row of a reply as it is first written. -/
def replyRow (m : ThreadMetadataOwned) : ThreadRow :=
  ⟨m.eventCreatedAt, m.eventId, m.channelId, some m.parentEventId, some m.parentEventCreatedAt,
    some m.rootEventId, some m.rootEventCreatedAt, m.depth, m.broadcast, 0, 0⟩

/-- Count one more reply of the parent and one more descendant of the root. -/
def countReply (m : ThreadMetadataOwned) : List ThreadRow → List ThreadRow :=
  adjust (fun t => if t.eventId = m.parentEventId then t.replyCount + 1 else t.replyCount)
    (fun t => if t.eventId = m.rootEventId then t.descendantCount + 1 else t.descendantCount)

theorem countReply_eq (m : ThreadMetadataOwned) (threads : List ThreadRow) :
    countReply m threads = updateDescendantCount (· + 1) m.rootEventId
      (updateReplyCount (· + 1) m.parentEventId threads) :=
  (updateCounts_eq _ _ _ _ _).symm

theorem owner_eq (h : Shape valid db) (ht : t ∈ db.threads) (hr : row ∈ db.events)
    (he : t.eventId = row.id) : t.eventCreatedAt = row.createdAt := by
  obtain ⟨r, hmem, hid, hc⟩ := h.owner t ht
  rw [← hc, row_eq_of_id h hmem hr (hid.trans he)]

theorem no_thread {id : EventId} (h : Shape valid db) (hnew : ∀ row ∈ db.events, row.id ≠ id) :
    ∀ t ∈ db.threads, t.eventId ≠ id := by
  intro t ht he
  obtain ⟨r, hr, hid, _⟩ := h.owner t ht
  exact hnew r hr (hid.trans he)

theorem Resolved.fresh (hm : Resolved db event m prow) (h : Shape valid db)
    (hnew : ∀ row ∈ db.events, row.id ≠ event.id) : ∀ t ∈ db.threads, t.eventId ≠ m.eventId := by
  rw [hm.eventId]
  exact no_thread h hnew

/-- A parent with a thread row: nothing but the reply's own row is added. -/
theorem insertThreadMetadata_nested (h : Shape valid db) (hm : Resolved db event m prow)
    (hroot : RootKept db event) (hnew : ∀ row ∈ db.events, row.id ≠ event.id)
    (htp : tp ∈ db.threads) (hpid : tp.eventId = m.parentEventId)
    (hreq : m.rootEventId = tp.rootEventId.getD m.parentEventId)
    (hrt : m.rootEventCreatedAt = db.rootTimestamp m.rootEventId prow.createdAt) :
    insertThreadMetadata db.threads m.asParams = countReply m (db.threads ++ [replyRow m]) := by
  have hparent : insertThreadRow (db.threads ++ [replyRow m])
      (stubRow m.parentEventCreatedAt m.parentEventId m.channelId) =
      (db.threads ++ [replyRow m], false) := by
    apply insertThreadRow_conflict (List.mem_append_left _ htp) _ hpid
    exact (owner_eq h htp hm.mem (hpid.trans hm.parentId.symm)).trans hm.created.symm
  have hstub : m.rootEventId ≠ m.parentEventId → insertThreadRow (db.threads ++ [replyRow m])
      (stubRow m.rootEventCreatedAt m.rootEventId m.channelId) =
      (db.threads ++ [replyRow m], false) := by
    intro hne
    have hsome : tp.rootEventId = some m.rootEventId := by
      cases hr : tp.rootEventId with
      | none =>
        rw [hr, Option.getD_none] at hreq
        exact absurd hreq hne
      | some root =>
        rw [hr, Option.getD_some] at hreq
        rw [hreq]
    obtain ⟨tr, htr, hid, hpos⟩ := h.rooted tp htp m.rootEventId hsome
    obtain ⟨row, hrow, hrid, hrc⟩ := h.owner tr htr
    have hkept := hroot m.parentEventId hm.parent tp htp hpid m.rootEventId hsome row hrow
      (hrid.trans hid) prow hm.mem hm.parentId
    apply insertThreadRow_conflict (List.mem_append_left _ htr) _ hid
    have hts := rootTimestamp_eq h hrow (by omega) hkept
    rw [hrid, hid] at hts
    exact hrc.symm.trans (hts.symm.trans hrt.symm)
  have hins : insertThreadRow db.threads (replyRow m) = (db.threads ++ [replyRow m], true) :=
    insertThreadRow_new (hm.fresh h hnew)
  rw [countReply_eq]
  simp only [insertThreadMetadata, ThreadMetadataOwned.asParams, Option.getD_some]
  rw [← replyRow, hins]
  dsimp only
  rw [hparent]
  dsimp only
  split
  · rename_i hne
    rw [hstub hne]
  · rfl

/-- The first reply to a top-level event also writes the parent's row. -/
theorem insertThreadMetadata_first (h : Shape valid db) (hm : Resolved db event m prow)
    (hnew : ∀ row ∈ db.events, row.id ≠ event.id)
    (hno : ∀ t ∈ db.threads, t.eventId ≠ m.parentEventId)
    (hreq : m.rootEventId = m.parentEventId) :
    insertThreadMetadata db.threads m.asParams = countReply m (db.threads ++
      [replyRow m, stubRow prow.createdAt m.parentEventId m.channelId]) := by
  have hins : insertThreadRow db.threads (replyRow m) = (db.threads ++ [replyRow m], true) :=
    insertThreadRow_new (hm.fresh h hnew)
  have hparent : insertThreadRow (db.threads ++ [replyRow m])
      (stubRow prow.createdAt m.parentEventId m.channelId) =
      (db.threads ++ [replyRow m] ++ [stubRow prow.createdAt m.parentEventId m.channelId],
        true) := by
    apply insertThreadRow_new
    intro u hu
    rcases List.mem_append.mp hu with hu | hu
    · exact hno u hu
    · rw [List.mem_singleton.mp hu]
      intro he
      exact hnew prow hm.mem (hm.parentId.trans (he.symm.trans hm.eventId))
  rw [countReply_eq]
  simp only [insertThreadMetadata, ThreadMetadataOwned.asParams, Option.getD_some]
  rw [← replyRow, hins]
  dsimp only
  rw [hm.created, hparent, if_neg (not_not.mpr hreq), List.append_assoc]
  rfl

/-- The rows that a reply adds: its own, and its parent's if there is none. -/
structure Joins (db : ThreadDb) (m : ThreadMetadataOwned) (prow : EventRow)
    (extra : List ThreadRow) : Prop where
  stub : extra = [] ∨ (extra = [stubRow prow.createdAt m.parentEventId m.channelId] ∧
    ∀ t ∈ db.threads, t.eventId ≠ m.parentEventId)
  parent : ∃ tp ∈ db.threads ++ extra, tp.eventId = m.parentEventId ∧
    m.rootEventId = tp.rootEventId.getD m.parentEventId ∧ m.depth = tp.depth + 1

theorem insertThreadMetadata_joins (h : Shape valid db) (hm : Resolved db event m prow)
    (hroot : RootKept db event) (hnew : ∀ row ∈ db.events, row.id ≠ event.id) :
    ∃ extra, Joins db m prow extra ∧ insertThreadMetadata db.threads m.asParams =
      countReply m (db.threads ++ replyRow m :: extra) := by
  rcases hm.ancestry with ⟨tp, htp, hpid, hreq, hdepth, hrt⟩ | ⟨hno, hreq, hdepth⟩
  · refine ⟨[], ⟨.inl rfl, tp, ?_, hpid, hreq, hdepth⟩, ?_⟩
    · exact List.mem_append_left _ htp
    · exact insertThreadMetadata_nested h hm hroot hnew htp hpid hreq hrt
  · refine ⟨[stubRow prow.createdAt m.parentEventId m.channelId], ⟨.inr ⟨rfl, hno⟩,
      stubRow prow.createdAt m.parentEventId m.channelId, ?_, rfl, hreq, hdepth⟩, ?_⟩
    · exact List.mem_append_right _ (List.mem_singleton_self _)
    · exact insertThreadMetadata_first h hm hnew hno hreq

/-- A stored event and the thread rows written with it. -/
def grow (db : ThreadDb) (row : EventRow) (added : List ThreadRow) : ThreadDb :=
  { db with events := db.events ++ [row], threads := db.threads ++ added }

theorem Joins.mem_extra (hj : Joins db m prow extra) (ht : t ∈ extra) :
    t = stubRow prow.createdAt m.parentEventId m.channelId ∧
      ∀ u ∈ db.threads, u.eventId ≠ m.parentEventId := by
  rcases hj.stub with he | ⟨he, hno⟩
  · rw [he] at ht
    cases ht
  · rw [he] at ht
    exact ⟨List.mem_singleton.mp ht, hno⟩

theorem nodup_ids_append {db : ThreadDb} (h : Shape valid db)
    (hnew : ∀ r ∈ db.events, r.id ≠ row.id) :
    ((db.events ++ [row]).map EventRow.id).Nodup := by
  rw [List.map_append, List.nodup_append']
  refine ⟨h.ids, List.nodup_singleton _, ?_⟩
  intro id hid hid'
  obtain ⟨r, hr, rfl⟩ := List.mem_map.mp hid
  exact hnew r hr (List.mem_singleton.mp hid')

theorem Shape.origin_append (h : Shape valid db) (hev : ∃ e, valid e ∧ e.id = row.id ∧
    eventTimestamp e = some row.createdAt ∧ e.tags = row.tags) :
    ∀ r ∈ db.events ++ [row], ∃ e, valid e ∧ e.id = r.id ∧
      eventTimestamp e = some r.createdAt ∧ e.tags = r.tags := by
  intro r hr
  rcases List.mem_append.mp hr with hr | hr
  · exact h.origin r hr
  · rw [List.mem_singleton.mp hr]
    exact hev

theorem Shape.top_level (h : Shape valid db) (hnew : ∀ r ∈ db.events, r.id ≠ row.id)
    (hev : ∃ e, valid e ∧ e.id = row.id ∧ eventTimestamp e = some row.createdAt ∧
      e.tags = row.tags)
    (hun : (parseThreadMarkers row.tags).resolve = none) : Shape valid (db.grow row []) := by
  rw [grow, List.append_nil]
  refine ⟨nodup_ids_append h hnew, h.origin_append hev, h.rowIds, ?_, h.top, h.nested, h.rooted,
    ?_⟩
  · intro t ht
    obtain ⟨r, hr, hid⟩ := h.owner t ht
    exact ⟨r, List.mem_append_left _ hr, hid⟩
  · intro r hr markers hm
    rcases List.mem_append.mp hr with hr | hr
    · exact h.marked r hr markers hm
    · rw [List.mem_singleton.mp hr, hun] at hm
      cases hm

/-- A row of the grown table is an old one, the reply's own or its parent's. -/
theorem Joins.mem_rows (hj : Joins db m prow extra)
    (ht : t ∈ db.threads ++ replyRow m :: extra) :
    t ∈ db.threads ∨ t = replyRow m ∨ t = stubRow prow.createdAt m.parentEventId m.channelId := by
  rcases List.mem_append.mp ht with hin | hin
  · exact .inl hin
  · rcases List.mem_cons.mp hin with he | hin
    · exact .inr (.inl he)
    · exact .inr (.inr (hj.mem_extra hin).1)

/-- The root that a reply gets has a row. -/
theorem Joins.root (hj : Joins db m prow extra) (h : Shape valid db)
    (hm : Resolved db event m prow) :
    ∃ tr ∈ db.threads ++ extra, tr.eventId = m.rootEventId ∧ 0 ≤ tr.eventCreatedAt := by
  obtain ⟨tp, htp, hpid, hreq, _⟩ := hj.parent
  cases htr : tp.rootEventId with
  | none =>
    rw [htr, Option.getD_none] at hreq
    refine ⟨tp, htp, hpid.trans hreq.symm, ?_⟩
    rcases List.mem_append.mp htp with hin | hin
    · rw [owner_eq h hin hm.mem (hpid.trans hm.parentId.symm)]
      exact hm.readable
    · rw [(hj.mem_extra hin).1]
      exact hm.readable
  | some root =>
    rw [htr, Option.getD_some] at hreq
    rw [hreq]
    rcases List.mem_append.mp htp with hold | hstub
    · obtain ⟨tr, hmem, hrest⟩ := h.rooted tp hold root htr
      exact ⟨tr, List.mem_append_left _ hmem, hrest⟩
    · rw [(hj.mem_extra hstub).1] at htr
      cases htr

theorem nodup_rows_joins {db : ThreadDb} (h : Shape valid db) (hj : Joins db m prow extra)
    (hfresh : ∀ t ∈ db.threads, t.eventId ≠ m.eventId) (hne : m.eventId ≠ m.parentEventId) :
    ((db.threads ++ replyRow m :: extra).map ThreadRow.eventId).Nodup := by
  rw [List.map_append, List.nodup_append', List.map_cons, List.nodup_cons]
  refine ⟨h.rowIds, ⟨?_, ?_⟩, ?_⟩
  · intro hin
    obtain ⟨t, ht, he⟩ := List.mem_map.mp hin
    rw [(hj.mem_extra ht).1] at he
    exact hne he.symm
  · rcases hj.stub with he | ⟨he, _⟩
    · rw [he]
      exact List.nodup_nil
    · rw [he]
      exact List.nodup_singleton _
  · intro id hid hid'
    obtain ⟨u, hu, rfl⟩ := List.mem_map.mp hid
    rcases List.mem_cons.mp hid' with he | hin
    · exact hfresh u hu he
    · obtain ⟨t, ht, he⟩ := List.mem_map.mp hin
      obtain ⟨hst, hno⟩ := hj.mem_extra ht
      rw [hst] at he
      exact hno u hu he.symm

theorem Shape.joins (h : Shape valid db) (hm : Resolved db event m prow)
    (hj : Joins db m prow extra) (hid : row.id = event.id) (hcr : m.eventCreatedAt = row.createdAt)
    (htags : row.tags = event.tags) (hnew : ∀ r ∈ db.events, r.id ≠ row.id)
    (hev : ∃ e, valid e ∧ e.id = row.id ∧ eventTimestamp e = some row.createdAt ∧
      e.tags = row.tags) : Shape valid (db.grow row (replyRow m :: extra)) := by
  have hmid : m.eventId = row.id := hm.eventId.trans hid.symm
  have hfresh : ∀ t ∈ db.threads, t.eventId ≠ m.eventId := by
    rw [hmid]
    exact no_thread h hnew
  have hne : m.eventId ≠ m.parentEventId := by
    intro he
    exact hnew prow hm.mem (hm.parentId.trans (he.symm.trans hmid))
  have hwiden : ∀ t ∈ db.threads ++ extra, t ∈ db.threads ++ replyRow m :: extra := by
    intro t ht
    rcases List.mem_append.mp ht with hin | hin
    · exact List.mem_append_left _ hin
    · exact List.mem_append_right _ (List.mem_cons_of_mem _ hin)
  refine ⟨nodup_ids_append h hnew, h.origin_append hev, nodup_rows_joins h hj hfresh hne, ?_, ?_,
    ?_, ?_, ?_⟩
  · intro t ht
    rcases hj.mem_rows ht with hin | rfl | rfl
    · obtain ⟨r, hr, hrid⟩ := h.owner t hin
      exact ⟨r, List.mem_append_left _ hr, hrid⟩
    · exact ⟨row, List.mem_append_right _ (List.mem_singleton_self _), hmid.symm, hcr.symm⟩
    · exact ⟨prow, List.mem_append_left _ hm.mem, hm.parentId, rfl⟩
  · intro t ht hp
    rcases hj.mem_rows ht with hin | rfl | rfl
    · exact h.top t hin hp
    · cases hp
    · exact ⟨rfl, rfl⟩
  · intro t ht p hp
    rcases hj.mem_rows ht with hin | rfl | rfl
    · obtain ⟨tp, htp, hrest⟩ := h.nested t hin p hp
      exact ⟨tp, List.mem_append_left _ htp, hrest⟩
    · obtain ⟨tp, htp, hpid, hreq, hdepth⟩ := hj.parent
      cases hp
      exact ⟨tp, hwiden tp htp, hpid, congrArg some hreq, hdepth⟩
    · cases hp
  · intro t ht root hr
    rcases hj.mem_rows ht with hin | rfl | rfl
    · obtain ⟨tr, htr, hrest⟩ := h.rooted t hin root hr
      exact ⟨tr, List.mem_append_left _ htr, hrest⟩
    · obtain ⟨tr, htr, hrest⟩ := hj.root h hm
      cases hr
      exact ⟨tr, hwiden tr htr, hrest⟩
    · cases hr
  · intro r hr markers hmk
    rcases List.mem_append.mp hr with hr | hr
    · obtain ⟨t, ht, hrest⟩ := h.marked r hr markers hmk
      exact ⟨t, List.mem_append_left _ ht, hrest⟩
    · rw [List.mem_singleton.mp hr] at hmk ⊢
      have hdec := hm.parent
      rw [replyParent, ← htags, hmk] at hdec
      exact ⟨replyRow m, List.mem_append_right _ List.mem_cons_self, hmid, rfl, hdec.symm⟩

theorem mem_adjust {threads : List ThreadRow} (ht : t ∈ adjust f g threads) :
    ∃ u ∈ threads, t = { u with replyCount := f u, descendantCount := g u } := by
  obtain ⟨u, hu, he⟩ := List.mem_map.mp ht
  exact ⟨u, hu, he.symm⟩

theorem adjust_mem {threads : List ThreadRow} (f g : ThreadRow → Nat) (hu : u ∈ threads) :
    { u with replyCount := f u, descendantCount := g u } ∈ adjust f g threads :=
  List.mem_map.mpr ⟨u, hu, rfl⟩

theorem Shape.adjust (h : Shape valid db) (f g : ThreadRow → Nat) :
    Shape valid { db with threads := ThreadDb.adjust f g db.threads } := by
  refine ⟨h.ids, h.origin, ?_, ?_, ?_, ?_, ?_, ?_⟩
  · have hmap : (ThreadDb.adjust f g db.threads).map ThreadRow.eventId =
        db.threads.map ThreadRow.eventId := by
      rw [ThreadDb.adjust, List.map_map]
      rfl
    dsimp only
    rw [hmap]
    exact h.rowIds
  · intro t ht
    obtain ⟨u, hu, rfl⟩ := mem_adjust ht
    exact h.owner u hu
  · intro t ht
    obtain ⟨u, hu, rfl⟩ := mem_adjust ht
    exact h.top u hu
  · intro t ht p hp
    obtain ⟨u, hu, rfl⟩ := mem_adjust ht
    obtain ⟨tp, htp, hrest⟩ := h.nested u hu p hp
    exact ⟨_, adjust_mem f g htp, hrest⟩
  · intro t ht root hr
    obtain ⟨u, hu, rfl⟩ := mem_adjust ht
    obtain ⟨tr, htr, hrest⟩ := h.rooted u hu root hr
    exact ⟨_, adjust_mem f g htr, hrest⟩
  · intro r hr markers hm
    obtain ⟨t, ht, hrest⟩ := h.marked r hr markers hm
    exact ⟨_, adjust_mem f g ht, hrest⟩

theorem liveNaming_adjust (hsel : IsNaming sel) (db : ThreadDb) (f g : ThreadRow → Nat) :
    liveNaming { db with threads := adjust f g db.threads } sel target =
      db.liveNaming sel target := by
  rw [liveNaming, liveNaming]
  congr 1
  funext row
  rw [names_adjust hsel]

/-- A new event counts for what its own row names, and no other event's row changes. -/
theorem liveNaming_grow {db : ThreadDb} (h : Shape valid db)
    (hnew : ∀ r ∈ db.events, r.id ≠ row.id) (hlive : row.deleted = false)
    (hadd : ∀ t ∈ added, t.eventId = row.id ∨ sel t = none) :
    (db.grow row added).liveNaming sel target =
      db.liveNaming sel target + if names added sel target row then 1 else 0 := by
  have hold : ∀ r ∈ db.events, names added sel target r = false := by
    intro r hr
    rw [Bool.eq_false_iff]
    intro hn
    obtain ⟨t, ht, he, hs⟩ := names_iff.mp hn
    rcases hadd t ht with hid | hnone
    · exact hnew r hr (he.symm.trans hid)
    · rw [hnone] at hs
      cases hs
  have hown : names db.threads sel target row = false := by
    rw [Bool.eq_false_iff]
    intro hn
    obtain ⟨t, ht, he, _⟩ := names_iff.mp hn
    exact no_thread h hnew t ht he
  have hpre : db.events.countP (fun r => !r.deleted && names (db.threads ++ added) sel target r) =
      db.liveNaming sel target := by
    apply List.countP_congr
    intro r hr
    rw [names_append, hold r hr, Bool.or_false]
  rw [liveNaming, grow, List.countP_append, hpre, List.countP_singleton, names_append, hown, hlive]
  simp

/-- What the rows that a reply adds name. -/
theorem names_joins (hj : Joins db m prow extra) (hid : m.eventId = row.id)
    (hsel : ∀ c id ch, sel (stubRow c id ch) = none) :
    names (replyRow m :: extra) sel target row = true ↔ sel (replyRow m) = some target := by
  rw [names_iff]
  constructor
  · intro hex
    obtain ⟨t, ht, _, hs⟩ := hex
    rcases List.mem_cons.mp ht with rfl | ht
    · exact hs
    · rw [(hj.mem_extra ht).1, hsel] at hs
      cases hs
  · intro hs
    exact ⟨replyRow m, List.mem_cons_self, hid, hs⟩

theorem liveNaming_joins {db : ThreadDb} (sel : ThreadRow → Option EventId) (target : EventId)
    (h : Shape valid db) (hj : Joins db m prow extra)
    (hnew : ∀ r ∈ db.events, r.id ≠ row.id) (hlive : row.deleted = false)
    (hid : m.eventId = row.id) (hsel : ∀ c id ch, sel (stubRow c id ch) = none) :
    (db.grow row (replyRow m :: extra)).liveNaming sel target =
      db.liveNaming sel target + if sel (replyRow m) = some target then 1 else 0 := by
  rw [liveNaming_grow h hnew hlive]
  · congr 1
    exact if_congr (names_joins hj hid hsel) rfl rfl
  · intro t ht
    rcases List.mem_cons.mp ht with rfl | ht
    · exact .inl hid
    · rw [(hj.mem_extra ht).1]
      exact .inr (hsel _ _ _)

theorem Counts.top_level (h : Shape valid db) (hc : Counts db)
    (hnew : ∀ r ∈ db.events, r.id ≠ row.id) (hlive : row.deleted = false) :
    Counts (db.grow row []) := by
  have hsame : ∀ sel target, (db.grow row []).liveNaming sel target = db.liveNaming sel target := by
    intro sel target
    rw [liveNaming_grow h hnew hlive (by simp)]
    simp [names]
  refine ⟨?_, ?_⟩
  · intro t ht
    rw [grow, List.append_nil] at ht
    exact (hc.replies t ht).trans (hsame _ _).symm
  · intro t ht
    rw [grow, List.append_nil] at ht
    exact (hc.descendants t ht).trans (hsame _ _).symm

/-- Before they are counted, the added rows have no replies and no descendants. -/
theorem counts_before (h : Shape valid db) (hc : Counts db) (hj : Joins db m prow extra)
    (hfresh : ∀ t ∈ db.threads, t.eventId ≠ m.eventId)
    (ht : t ∈ db.threads ++ replyRow m :: extra) :
    t.replyCount = db.liveReplies t.eventId ∧ t.descendantCount = db.liveDescendants t.eventId := by
  rcases List.mem_append.mp ht with hin | hin
  · exact ⟨hc.replies t hin, hc.descendants t hin⟩
  · rcases List.mem_cons.mp hin with rfl | hin
    · exact ⟨(liveNaming_eq_zero h (.inl rfl) hfresh).symm,
        (liveNaming_eq_zero h (.inr rfl) hfresh).symm⟩
    · obtain ⟨hst, hno⟩ := hj.mem_extra hin
      rw [hst]
      exact ⟨(liveNaming_eq_zero h (.inl rfl) hno).symm,
        (liveNaming_eq_zero h (.inr rfl) hno).symm⟩

theorem add_one_if (n : Nat) (a b : EventId) :
    (if a = b then n + 1 else n) = n + if some b = some a then 1 else 0 := by
  by_cases he : a = b
  · rw [if_pos he, if_pos (congrArg some he.symm)]
  · rw [if_neg he, if_neg fun hs => he (Option.some.inj hs).symm, Nat.add_zero]

theorem Counts.joins (h : Shape valid db) (hc : Counts db) (hj : Joins db m prow extra)
    (hnew : ∀ r ∈ db.events, r.id ≠ row.id) (hlive : row.deleted = false)
    (hid : m.eventId = row.id) :
    Counts { db.grow row (replyRow m :: extra) with
      threads := countReply m (db.threads ++ replyRow m :: extra) } := by
  have hfresh : ∀ t ∈ db.threads, t.eventId ≠ m.eventId := by
    rw [hid]
    exact no_thread h hnew
  refine ⟨?_, ?_⟩
  · intro t ht
    obtain ⟨u, hu, rfl⟩ := mem_adjust ht
    have hlife := liveNaming_joins ThreadRow.parentEventId u.eventId h hj hnew hlive hid
      fun _ _ _ => rfl
    refine Eq.trans ?_ ((liveNaming_adjust isNaming_parent _ _ _).trans hlife).symm
    dsimp only
    rw [(counts_before h hc hj hfresh hu).1]
    exact add_one_if _ _ _
  · intro t ht
    obtain ⟨u, hu, rfl⟩ := mem_adjust ht
    have hlife := liveNaming_joins ThreadRow.rootEventId u.eventId h hj hnew hlive hid
      fun _ _ _ => rfl
    refine Eq.trans ?_ ((liveNaming_adjust isNaming_root _ _ _).trans hlife).symm
    dsimp only
    rw [(counts_before h hc hj hfresh hu).2]
    exact add_one_if _ _ _

/-- The event table after a deletion. -/
def hide (db : ThreadDb) (id : EventId) : ThreadDb :=
  { db with events := db.events.map fun row =>
      if row.id = id then { row with deleted := true } else row }

theorem Shape.hide (h : Shape valid db) (id : EventId) : Shape valid (db.hide id) := by
  have hkeep : ∀ row : EventRow, ∃ d,
      (if row.id = id then { row with deleted := true } else row) = { row with deleted := d } := by
    intro row
    by_cases he : row.id = id
    · exact ⟨true, if_pos he⟩
    · exact ⟨row.deleted, if_neg he⟩
  have hid : ∀ row : EventRow,
      (if row.id = id then { row with deleted := true } else row).id = row.id := by
    intro row
    obtain ⟨d, hd⟩ := hkeep row
    rw [hd]
  refine ⟨?_, ?_, h.rowIds, ?_, h.top, h.nested, h.rooted, ?_⟩
  · have hmap : (db.hide id).events.map EventRow.id = db.events.map EventRow.id := by
      rw [ThreadDb.hide, List.map_map]
      exact List.map_congr_left fun row _ => hid row
    rw [hmap]
    exact h.ids
  · intro r hr
    obtain ⟨row, hrow, rfl⟩ := List.mem_map.mp hr
    obtain ⟨d, hd⟩ := hkeep row
    rw [hd]
    exact h.origin row hrow
  · intro t ht
    obtain ⟨row, hrow, hrest⟩ := h.owner t ht
    obtain ⟨d, hd⟩ := hkeep row
    refine ⟨_, List.mem_map.mpr ⟨row, hrow, rfl⟩, ?_⟩
    rw [hd]
    exact hrest
  · intro r hr
    obtain ⟨row, hrow, rfl⟩ := List.mem_map.mp hr
    obtain ⟨d, hd⟩ := hkeep row
    rw [hd]
    exact h.marked row hrow

/-- A deleted event no longer counts for what its row names. -/
theorem liveNaming_hide {db : ThreadDb} (sel : ThreadRow → Option EventId) (target : EventId)
    (h : Shape valid db) (hr : row ∈ db.events) (hlive : row.deleted = false) :
    (db.hide row.id).liveNaming sel target + (if names db.threads sel target row then 1 else 0) =
      db.liveNaming sel target := by
  obtain ⟨before, after, hsplit⟩ := List.append_of_mem hr
  have hids := h.ids
  rw [hsplit, List.map_append, List.map_cons, List.nodup_append', List.nodup_cons] at hids
  obtain ⟨_, ⟨hafter, _⟩, hbefore⟩ := hids
  have hother : ∀ l : List EventRow, (∀ r ∈ l, r.id ≠ row.id) →
      (l.map fun r => if r.id = row.id then { r with deleted := true } else r) = l := by
    intro l hl
    rw [List.map_congr_left fun r hr => if_neg (hl r hr)]
    exact List.map_id' l
  have hb := hother before fun r hmem he =>
    hbefore (List.mem_map.mpr ⟨r, hmem, he⟩) List.mem_cons_self
  have ha := hother after fun r hmem he => hafter (List.mem_map.mpr ⟨r, hmem, he⟩)
  rw [liveNaming, liveNaming, hide]
  dsimp only
  rw [hsplit, List.map_append, List.map_cons, hb, ha, if_pos rfl, List.countP_append,
    List.countP_append, List.countP_cons, List.countP_cons, hlive]
  have hnames : names db.threads sel target { row with deleted := true } =
      names db.threads sel target row := rfl
  simp only [Bool.not_true, Bool.false_and, Bool.not_false, Bool.true_and]
  rw [if_neg Bool.false_ne_true]
  omega

/-- What a row of the thread table names is what its event names. -/
theorem names_of_row {db : ThreadDb} (h : Shape valid db) (ht : t ∈ db.threads)
    (he : t.eventId = row.id) : names db.threads sel target row = true ↔ sel t = some target := by
  rw [names_iff]
  constructor
  · intro hex
    obtain ⟨u, hu, hid, hs⟩ := hex
    rw [← thread_eq_of_id h hu ht (hid.trans he.symm)]
    exact hs
  · intro hs
    exact ⟨t, ht, he, hs⟩

theorem names_of_no_row {threads : List ThreadRow} (hno : ∀ t ∈ threads, t.eventId ≠ row.id) :
    names threads sel target row = false := by
  rw [Bool.eq_false_iff]
  intro hn
  obtain ⟨t, ht, he, _⟩ := names_iff.mp hn
  exact hno t ht he

/-- Deleting an event that names nothing leaves every count as it is. -/
theorem Counts.hide_quiet (h : Shape valid db) (hc : Counts db) (hr : row ∈ db.events)
    (hlive : row.deleted = false)
    (hquiet : ∀ target, names db.threads ThreadRow.parentEventId target row = false ∧
      names db.threads ThreadRow.rootEventId target row = false) :
    Counts (db.hide row.id) := by
  refine ⟨?_, ?_⟩
  · intro t ht
    have hlife := liveNaming_hide ThreadRow.parentEventId t.eventId h hr hlive
    rw [(hquiet t.eventId).1, if_neg Bool.false_ne_true, Nat.add_zero] at hlife
    exact (hc.replies t ht).trans hlife.symm
  · intro t ht
    have hlife := liveNaming_hide ThreadRow.rootEventId t.eventId h hr hlive
    rw [(hquiet t.eventId).2, if_neg Bool.false_ne_true, Nat.add_zero] at hlife
    exact (hc.descendants t ht).trans hlife.symm

theorem sub_one_if {n k : Nat} {a b : EventId}
    (h : n + (if some b = some a then 1 else 0) = k) : (if a = b then k - 1 else k) = n := by
  by_cases he : a = b
  · rw [if_pos (congrArg some he.symm)] at h
    rw [if_pos he]
    omega
  · rw [if_neg fun hs => he (Option.some.inj hs).symm] at h
    rw [if_neg he]
    omega

/-- Take a deleted reply off its parent's replies and its root's descendants. -/
def uncountReply (p root : EventId) : List ThreadRow → List ThreadRow :=
  adjust (fun t => if t.eventId = p then t.replyCount - 1 else t.replyCount)
    (fun t => if t.eventId = root then t.descendantCount - 1 else t.descendantCount)

theorem Counts.hide_reply (h : Shape valid db) (hc : Counts db) (hr : row ∈ db.events)
    (hlive : row.deleted = false) (ht : t ∈ db.threads) (hid : t.eventId = row.id)
    (hp : t.parentEventId = some p) (hroot : t.rootEventId = some root) :
    Counts { db.hide row.id with threads := uncountReply p root db.threads } := by
  refine ⟨?_, ?_⟩
  · intro t' ht'
    obtain ⟨u, hu, rfl⟩ := mem_adjust ht'
    have hlife := liveNaming_hide ThreadRow.parentEventId u.eventId h hr hlive
    rw [if_congr (names_of_row h ht hid) rfl rfl, hp] at hlife
    have hcount := hlife.trans (hc.replies u hu).symm
    exact (sub_one_if hcount).trans (liveNaming_adjust isNaming_parent _ _ _).symm
  · intro t' ht'
    obtain ⟨u, hu, rfl⟩ := mem_adjust ht'
    have hlife := liveNaming_hide ThreadRow.rootEventId u.eventId h hr hlive
    rw [if_congr (names_of_row h ht hid) rfl rfl, hroot] at hlife
    have hcount := hlife.trans (hc.descendants u hu).symm
    exact (sub_one_if hcount).trans (liveNaming_adjust isNaming_root _ _ _).symm

/-- A deletion keeps the shape and the counts. -/
theorem step_delete (h : Shape valid db) (hc : Counts db) (id : EventId) :
    Shape valid (db.step (.delete id)) ∧ Counts (db.step (.delete id)) := by
  dsimp only [step, softDeleteEventAndUpdateThread]
  split
  · rename_i hany
    obtain ⟨row, hr, hp⟩ := List.any_eq_true.mp hany
    rw [Bool.and_eq_true, beq_iff_eq, Bool.not_eq_true'] at hp
    obtain ⟨rfl, hlive⟩ := hp
    cases hfind : db.getThreadMetadataByEvent row.id with
    | none =>
      have hno : ∀ t ∈ db.threads, t.eventId ≠ row.id := by
        simpa [getThreadMetadataByEvent] using hfind
      exact ⟨h.hide row.id, hc.hide_quiet h hr hlive fun _ =>
        ⟨names_of_no_row hno, names_of_no_row hno⟩⟩
    | some t =>
      have ht := List.mem_of_find?_eq_some hfind
      have hid : t.eventId = row.id := by
        simpa using List.find?_some hfind
      dsimp only [Option.bind_some]
      cases hpar : t.parentEventId with
      | none =>
        refine ⟨h.hide row.id, hc.hide_quiet h hr hlive ?_⟩
        intro target
        rw [Bool.eq_false_iff, Bool.eq_false_iff, Ne, Ne, names_of_row h ht hid,
          names_of_row h ht hid, hpar, (h.top t ht hpar).1]
        exact ⟨nofun, nofun⟩
      | some p =>
        obtain ⟨tp, _, _, hroot, _⟩ := h.nested t ht p hpar
        rw [hroot]
        dsimp only
        rw [updateCounts_eq]
        exact ⟨(h.hide row.id).adjust _ _, hc.hide_reply h hr hlive ht hid hpar hroot⟩
  · exact ⟨h, hc⟩

/-- What an operation has to meet for the counters to stay exact. -/
def StepMeets (db : ThreadDb) : ThreadOp → Prop
  | .submit event channelId now =>
    (∀ row ∈ db.events, row.id ≠ event.id) →
    (∃ m, db.resolveNip10ThreadMeta event channelId now = .ok (some m)) → RootKept db event
  | .delete _ => True

theorem unmarked_of_none {db : ThreadDb} {event : Event}
    (hres : db.resolveNip10ThreadMeta event channelId now = .ok none) :
    (parseThreadMarkers event.tags).resolve = none := by
  cases hm : (parseThreadMarkers event.tags).resolve with
  | none => rfl
  | some markers =>
    rw [resolveNip10ThreadMeta, hm] at hres
    dsimp only at hres
    repeat' split at hres
    all_goals cases hres

/-- An insertion either changes nothing, or stores a new event with its thread rows. -/
theorem insert_cases {valid : Event → Prop} {threadMeta : Option ThreadMetadataParams}
    (h : Shape valid db)
    (hinj : ∀ e e', valid e → valid e' → e.id = e'.id → e = e') (hv : valid event)
    (hins : db.insertEventWithThreadMetadata event (some channelId) threadMeta = .ok (db', b)) :
    db' = db ∨ ((∀ row ∈ db.events, row.id ≠ event.id) ∧ ∃ createdAt,
      eventTimestamp event = some createdAt ∧
      db' = { db with
        events := db.events ++ [eventRow db.community event createdAt (some channelId)]
        threads := threadMeta.elim db.threads (insertThreadMetadata db.threads) }) := by
  rw [insertEventWithThreadMetadata.eq_def] at hins
  split at hins
  · cases hins
  · split at hins
    · cases hins
    · split at hins
      · cases hins
      · rename_i createdAt hts
        split at hins
        · cases hins
          exact .inl rfl
        · rename_i hnone
          cases hins
          refine .inr ⟨?_, createdAt, hts, ?_⟩
          · intro row hrow he
            obtain ⟨e, hve, hid, hcr, _⟩ := h.origin row hrow
            rw [hinj e event hve hv (hid.trans he), hts] at hcr
            apply hnone
            exact List.any_eq_true.mpr ⟨row, hrow, by simp [he, Option.some.inj hcr]⟩
          · cases threadMeta <;> rfl

/-- A submission keeps the shape and the counts. -/
theorem step_submit {valid : Event → Prop} (h : Shape valid db) (hc : Counts db)
    (hinj : ∀ e e', valid e → valid e' → e.id = e'.id → e = e') (hv : valid event)
    (hmeet : StepMeets db (.submit event channelId now)) :
    Shape valid (db.step (.submit event channelId now)) ∧
      Counts (db.step (.submit event channelId now)) := by
  rw [step]
  split
  · exact ⟨h, hc⟩
  · rename_i threadMeta hres
    split
    · exact ⟨h, hc⟩
    · rename_i db' b hins
      rcases insert_cases h hinj hv hins with rfl | ⟨hnew, createdAt, hts, rfl⟩
      · exact ⟨h, hc⟩
      · have hev : ∃ e, valid e ∧ e.id = event.id ∧ eventTimestamp e = some createdAt ∧
            e.tags = event.tags := ⟨event, hv, rfl, hts, rfl⟩
        cases threadMeta with
        | none =>
          have hshape : Shape valid (db.grow (eventRow db.community event createdAt
              (some channelId)) []) := h.top_level hnew hev (unmarked_of_none hres)
          have hcounts : Counts (db.grow (eventRow db.community event createdAt
              (some channelId)) []) := hc.top_level h hnew rfl
          rw [grow, List.append_nil] at hshape hcounts
          exact ⟨hshape, hcounts⟩
        | some m =>
          obtain ⟨prow, hm⟩ := resolved_of_ok h hres
          obtain ⟨extra, hj, hthreads⟩ :=
            insertThreadMetadata_joins h hm (hmeet hnew ⟨m, hres⟩) hnew
          dsimp only [Option.map_some, Option.elim_some]
          rw [hthreads]
          exact ⟨(h.joins hm hj rfl (hm.eventCreated createdAt hts) rfl hnew hev).adjust _ _,
            hc.joins h hj hnew rfl hm.eventId⟩

/-- The events that a run submits. -/
def submitted (ops : List ThreadOp) : List Event :=
  ops.filterMap fun
    | .submit event _ _ => some event
    | .delete _ => none

/-- An event id is a collision-free hash of the event. -/
def IdsTell (ops : List ThreadOp) : Prop :=
  ∀ e ∈ submitted ops, ∀ e' ∈ submitted ops, e.id = e'.id → e = e'

def Meets : ThreadDb → List ThreadOp → Prop
  | _, [] => True
  | db, op :: ops => StepMeets db op ∧ Meets (db.step op) ops

/-- Thread rows and counters are exact. An event without a row has the counts zero. -/
structure Exact (db : ThreadDb) : Prop where
  single : (db.threads.map ThreadRow.eventId).Nodup
  own : ∀ row ∈ db.events, ∀ t ∈ db.threads, t.eventId = row.id → t.eventCreatedAt = row.createdAt
  replies : ∀ t ∈ db.threads, t.replyCount = db.liveReplies t.eventId
  descendants : ∀ t ∈ db.threads, t.descendantCount = db.liveDescendants t.eventId
  absent : ∀ id, (∀ t ∈ db.threads, t.eventId ≠ id) →
    db.liveReplies id = 0 ∧ db.liveDescendants id = 0
  reply : ∀ row ∈ db.events, ∀ markers, (parseThreadMarkers row.tags).resolve = some markers →
    ∃ t ∈ db.threads, t.eventId = row.id ∧ t.parentEventId.isSome ∧
      t.parentEventId = decodeEventId markers.2
  ancestry : ∀ t ∈ db.threads, ∀ p, t.parentEventId = some p → ∃ tp ∈ db.threads,
    tp.eventId = p ∧ t.rootEventId = some (tp.rootEventId.getD p) ∧ t.depth = tp.depth + 1

theorem exact_of_shape (h : Shape valid db) (hc : Counts db) : Exact db where
  single := h.rowIds
  own _ hr _ ht he := owner_eq h ht hr he
  replies := hc.replies
  descendants := hc.descendants
  absent _ hno := ⟨liveNaming_eq_zero h (.inl rfl) hno, liveNaming_eq_zero h (.inr rfl) hno⟩
  reply := h.marked
  ancestry := h.nested

theorem shape_empty (valid : Event → Prop) (community : CommunityId) :
    Shape valid (empty community) :=
  ⟨List.nodup_nil, nofun, List.nodup_nil, nofun, nofun, nofun, nofun, nofun⟩

theorem counts_empty (community : CommunityId) : Counts (empty community) :=
  ⟨nofun, nofun⟩

theorem foldl_keeps {valid : Event → Prop}
    (hinj : ∀ e e', valid e → valid e' → e.id = e'.id → e = e') (ops : List ThreadOp)
    (hv : ∀ e ∈ submitted ops, valid e) (db : ThreadDb) (h : Shape valid db) (hc : Counts db)
    (hmeets : Meets db ops) : Shape valid (ops.foldl step db) ∧ Counts (ops.foldl step db) := by
  induction ops generalizing db with
  | nil => exact ⟨h, hc⟩
  | cons op ops ih =>
    obtain ⟨hstep, hrest⟩ := hmeets
    cases op with
    | submit event channelId now =>
      have hkeep := step_submit h hc hinj (hv event List.mem_cons_self) hstep
      exact ih (fun e he => hv e (List.mem_cons_of_mem _ he)) _ hkeep.1 hkeep.2 hrest
    | delete id =>
      have hkeep := step_delete h hc id
      exact ih hv _ hkeep.1 hkeep.2 hrest

/-- Rows and counters are exact in every run whose replies find their root live, or deleted but
as old as their parent. -/
theorem run_exact (community : CommunityId) (ops : List ThreadOp) (hids : IdsTell ops)
    (hmeets : Meets (empty community) ops) : Exact (run community ops) := by
  have hinj : ∀ e e', e ∈ submitted ops → e' ∈ submitted ops → e.id = e'.id → e = e' :=
    fun e e' he he' => hids e he e' he'
  obtain ⟨h, hc⟩ := foldl_keeps hinj ops (fun _ he => he) (empty community)
    (shape_empty _ community) (counts_empty community) hmeets
  exact exact_of_shape h hc

namespace ThreadExample

def home : CommunityId := ⟨HexId.ofNat 32 1⟩

def channel : Uuid := HexId.ofNat 32 10

/-- A chat message, with its root and parent if it is a reply. -/
def message (id : Nat) (createdAt : UInt64) (ancestry : Option (Nat × Nat)) : Event where
  id := HexId.ofNat 64 id
  pubkey := HexId.ofNat 64 7
  createdAt := createdAt
  kind := 9
  tags :=
    match ancestry with
    | some (root, parent) =>
      [⟨"e", [String.ofList (HexId.ofNat 64 root : EventId).toChars, "", "root"]⟩,
        ⟨"e", [String.ofList (HexId.ofNat 64 parent : EventId).toChars, "", "reply"]⟩]
    | none => []

def thread : List ThreadOp :=
  [.submit (message 1 1000 none) channel 5000,
    .submit (message 2 2000 (some (1, 1))) channel 5000]

def nestedReply : ThreadOp :=
  .submit (message 3 3000 (some (1, 2))) channel 5000

/-- A nested reply that arrives after its root was deleted. -/
def orphanedRun : List ThreadOp :=
  thread ++ [.delete (HexId.ofNat 64 1), nestedReply]

/-- The root is deleted last. -/
def keptRun : List ThreadOp :=
  thread ++ [nestedReply, .delete (HexId.ofNat 64 1), .delete (HexId.ofNat 64 3)]

end ThreadExample

open ThreadExample in
/-- The deleted root gets a second row, under the time of the reply's parent. -/
theorem run_second_root_row :
    IdsTell orphanedRun ∧ ¬Exact (run home orphanedRun) ∧
      (run home orphanedRun).threads.map (fun t => (t.eventId, t.eventCreatedAt)) =
        [(HexId.ofNat 64 2, 2000), (HexId.ofNat 64 1, 1000), (HexId.ofNat 64 3, 3000),
          (HexId.ofNat 64 1, 2000)] := by
  refine ⟨by unfold IdsTell; decide +kernel, ?_, by decide +kernel⟩
  intro h
  exact absurd h.single (by decide +kernel)

theorem rootKept_of_live (h : ∀ row ∈ db.events, row.deleted = false) : RootKept db event :=
  fun _ _ _ _ _ _ _ row hr _ _ _ _ => .inl (h row hr)

open ThreadExample in
theorem run_exact_root_deleted_last :
    Exact (run home keptRun) ∧
      (run home keptRun).threads.map (fun t => (t.eventId, t.replyCount, t.descendantCount)) =
        [(HexId.ofNat 64 2, 0, 0), (HexId.ofNat 64 1, 1, 1), (HexId.ofNat 64 3, 0, 0)] := by
  refine ⟨run_exact home keptRun (by unfold IdsTell; decide +kernel) ?_, by decide +kernel⟩
  refine ⟨fun _ _ => ?_, fun _ _ => ?_, fun _ _ => ?_, trivial, trivial, trivial⟩
  · exact rootKept_of_live (by decide +kernel)
  · exact rootKept_of_live (by decide +kernel)
  · exact rootKept_of_live (by decide +kernel)

end ThreadDb

end Buzz
