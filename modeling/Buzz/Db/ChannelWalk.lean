import Buzz.Db.ChannelWindow

namespace Buzz.Paging
set_option autoImplicit true

/-- The place of a row in a listing: later rows first, then by id. -/
abbrev RowKey := Lex (Intᵒᵈ × Bytea)

def rowKey (e : EventRow T) : RowKey :=
  toLex (OrderDual.toDual e.createdAt, e.id)

def cursorKey (c : Cursor) : RowKey :=
  toLex (OrderDual.toDual c.1, c.2)

def keyCursor (k : RowKey) : Cursor :=
  (OrderDual.ofDual (ofLex k).1, (ofLex k).2)

theorem map_cursorKey_keyCursor (k : Option RowKey) : (k.map keyCursor).map cursorKey = k := by
  cases k with
  | none => rfl
  | some k => rfl

theorem map_keyCursor_cursorKey (c : Option Cursor) : (c.map cursorKey).map keyCursor = c := by
  cases c with
  | none => rfl
  | some c => rfl

/-- The order of a listing, `(created_at DESC, id ASC)`, strictly. -/
def Before (a b : EventRow T) : Prop :=
  b.createdAt < a.createdAt ∨ a.createdAt = b.createdAt ∧ a.id < b.id

theorem rowKey_lt_iff (a b : EventRow T) : rowKey a < rowKey b ↔ Before a b := by
  rw [rowKey, rowKey, Prod.Lex.toLex_lt_toLex]
  rfl

theorem rowKey_le_iff (a b : EventRow T) : rowKey a ≤ rowKey b ↔ orderBy a b := by
  rw [rowKey, rowKey, Prod.Lex.toLex_le_toLex]
  rfl

theorem cursorClause_iff (cursor : Option Cursor) (e : EventRow T) :
    cursorClause cursor e = true ↔ Keyset.After rowKey (cursor.map cursorKey) e := by
  cases cursor with
  | none => exact ⟨fun _ => Keyset.After.none e, fun _ => rfl⟩
  | some c =>
    rw [Option.map_some, Keyset.After.some_iff, cursorKey, rowKey, Prod.Lex.toLex_lt_toLex]
    simp only [cursorClause, Bool.or_eq_true, Bool.and_eq_true, decide_eq_true_eq, beq_iff_eq]
    constructor
    · intro h
      exact h.imp id fun h => ⟨congrArg OrderDual.toDual h.1.symm, h.2⟩
    · intro h
      exact h.imp id fun h => ⟨(congrArg OrderDual.ofDual h.1).symm, h.2⟩

/-- The rows of the channel that qualify at a moment. -/
def listed (q : Query) (store : Store T) : List (EventRow T) :=
  store.events.filter (qualifies store q)

theorem listed_keyed (q : Query) (store : Store T) : Keyset.Keyed rowKey (listed q store) := by
  have hkeys := store.events_key
  rw [List.Nodup, List.pairwise_map] at hkeys
  rw [Keyset.Keyed, List.Nodup, List.pairwise_map]
  have hsub := hkeys.sublist (List.filter_sublist (p := qualifies store q))
  apply hsub.imp_of_mem
  intro a b ha hb hne heq
  have hcommunity : ∀ e ∈ store.events.filter (qualifies store q),
      e.communityId = q.communityId := by
    intro e he
    have hq := (List.mem_filter.mp he).2
    simp only [qualifies, Bool.and_eq_true, beq_iff_eq] at hq
    exact hq.1.1.1.1
  have hpair : (OrderDual.toDual a.createdAt, a.id) = (OrderDual.toDual b.createdAt, b.id) := heq
  rw [Prod.mk.injEq] at hpair
  have hcreated : a.createdAt = b.createdAt := congrArg OrderDual.ofDual hpair.1
  apply hne
  rw [hcommunity a ha, hcommunity b hb, hcreated, hpair.2]

/-- The page of rows that a window is made of. -/
def page (q : Query) (store : Store T) (cursor : Option Cursor) :
    Keyset.Page (EventRow T) RowKey :=
  Keyset.fetch rowKey q.limit.toNat (cursor.map cursorKey) (listed q store)

/-- The query is one keyset scan of the rows that qualify. -/
theorem fetchAll_eq (store : Store T) (q : Query) (cursor : Option Cursor) :
    fetchAll store q cursor =
      ((Keyset.scan rowKey (cursor.map cursorKey) (listed q store)).take
        (q.limit.toNat + 1)).map fun e => ⟨e, store.threadOf e⟩ := by
  have hfilter : (store.events.filter fun e => qualifies store q e && cursorClause cursor e) =
      (listed q store).filter fun e => Keyset.After rowKey (cursor.map cursorKey) e := by
    rw [listed, List.filter_filter]
    apply List.filter_congr
    intro e _
    rw [Bool.and_comm]
    congr 1
    rw [Bool.eq_iff_iff, decide_eq_true_eq, cursorClause_iff]
  have horder : (orderBy : EventRow T → EventRow T → Prop) = fun a b => rowKey a ≤ rowKey b := by
    funext a b
    exact propext (rowKey_le_iff a b).symm
  have hsort : ∀ l : List (EventRow T),
      l.insertionSort orderBy = l.insertionSort fun a b => rowKey a ≤ rowKey b := by
    intro l
    congr!
  rw [fetchAll, hfilter, hsort]
  rfl

theorem getChannelWindow_eq (decoder : Decoder T J E) (store : Store T) (q : Query)
    (cursor : Option Cursor) :
    getChannelWindow decoder store q cursor =
      (reconstruct decoder ((page q store cursor).rows.map fun e => ⟨e, store.threadOf e⟩)).map
        fun rows =>
          ⟨fillParticipants decoder (participantsByRoot decoder store q.communityId rows) rows,
            (page q store cursor).hasMore,
            (page q store cursor).next.map keyCursor⟩ := by
  have hmore : decide (q.limit.toNat < (fetchAll store q cursor).length) =
      (page q store cursor).hasMore := by
    rw [fetchAll_eq, List.length_map, List.length_take, page, Keyset.fetch]
    dsimp only
    apply decide_eq_decide.mpr
    omega
  have hkept : (fetchAll store q cursor).take q.limit.toNat =
      (page q store cursor).rows.map fun e => ⟨e, store.threadOf e⟩ := by
    rw [fetchAll_eq, ← List.map_take, List.take_take, Nat.min_eq_left (Nat.le_succ _)]
    rfl
  have hnext : (if (page q store cursor).hasMore = true then
        ((page q store cursor).rows.map fun e => (⟨e, store.threadOf e⟩ : DbRow T)).getLast?.map
          fun row => (row.event.createdAt, row.event.id)
      else none) =
      (page q store cursor).next.map keyCursor := by
    rw [List.getLast?_map, Option.map_map, page, Keyset.fetch]
    simp only [decide_eq_true_eq]
    split
    · rw [Option.map_map]
      rfl
    · rfl
  rw [getChannelWindow, hmore, hkept, hnext]
  cases reconstruct decoder ((page q store cursor).rows.map fun e => ⟨e, store.threadOf e⟩) with
  | error e => rfl
  | ok rows => rfl

/-- A step of a walk: the tables at that moment, the cursor it came with, the window it got. -/
structure WindowStep (T E : Type) where
  store : Store T
  cursor : Option Cursor
  window : ChannelWindow E

/-- Window after window over tables that change in between, until `has_more` is false. -/
def walk (decoder : Decoder T J E) (q : Query) :
    Option Cursor → List (Store T) → Except DbError (List (WindowStep T E))
  | _, [] => .ok []
  | cursor, store :: history => do
    let window ← getChannelWindow decoder store q cursor
    if window.hasMore then
      let rest ← walk decoder q window.nextCursor history
      return ⟨store, cursor, window⟩ :: rest
    else return [⟨store, cursor, window⟩]

def Ended (steps : List (WindowStep T E)) : Prop :=
  ∃ step, steps.getLast? = some step ∧ step.window.hasMore = false

/-- The window has one row for each of these events, and nothing else. -/
def MadeOf (decoder : Decoder T J E) (rows : List (EventRow T)) (window : ChannelWindow E) : Prop :=
  List.Forall₂ (fun e se => rowToStoredEvent decoder e = .ok (some se)) rows
    (window.rows.map (·.storedEvent))

/-- A walk that shows every row once: `shown` are the rows of the tables its windows are made of. -/
structure Visits (decoder : Decoder T J E) (q : Query) (steps : List (WindowStep T E))
    (shown : List (List (EventRow T))) : Prop where
  made : List.Forall₂ (fun rows step => MadeOf decoder rows step.window ∧
    ∀ e ∈ rows, e ∈ listed q step.store) shown steps
  ordered : shown.flatten.Pairwise Before
  once : (shown.flatten.map fun e => (e.createdAt, e.id)).Nodup
  all : Ended steps → ∀ e, (∀ step ∈ steps, e ∈ listed q step.store) →
    (∃ se, rowToStoredEvent decoder e = .ok (some se)) → e ∈ shown.flatten
  hasMore : ∀ step ∈ steps, step.window.hasMore = true ↔
    ∃ e ∈ listed q step.store, cursorClause step.cursor e = true ∧
      ∀ x ∈ (page q step.store step.cursor).rows, Before x e
  nextCursor : ∀ step ∈ steps, step.window.nextCursor.isSome = step.window.hasMore
  onward : ∀ step ∈ steps, ∀ next, step.window.nextCursor = some next →
    ∀ c, step.cursor = some c → cursorKey c < cursorKey next

/-- The walk over the rows of the tables, before any row is read. -/
def rowWalk (q : Query) (cursor : Option Cursor) (history : List (Store T)) :
    List (Keyset.Step (EventRow T) RowKey) :=
  Keyset.walk rowKey q.limit.toNat (cursor.map cursorKey) (history.map (listed q))

/-- How a step shows in the walk over the rows. -/
structure Shows (decoder : Decoder T J E) (q : Query) (step : WindowStep T E)
    (raw : Keyset.Step (EventRow T) RowKey) : Prop where
  rows : raw.rows = listed q step.store
  cursor : raw.cursor = step.cursor.map cursorKey
  hasMore : raw.page.hasMore = step.window.hasMore
  next : raw.page.next = step.window.nextCursor.map cursorKey
  genuine : raw.page = page q step.store step.cursor
  made : ∃ events : List (EventRow T), events.Sublist raw.page.rows ∧
    MadeOf decoder events step.window ∧
    ∀ e ∈ raw.page.rows, (∃ se, rowToStoredEvent decoder e = .ok (some se)) → e ∈ events

section Walk

variable {decoder : Decoder T J E} {q : Query} {cursor : Option Cursor} {store : Store T}

theorem getChannelWindow_ok {window : ChannelWindow E}
    (h : getChannelWindow decoder store q cursor = .ok window) :
    Shows decoder q ⟨store, cursor, window⟩
      ⟨listed q store, cursor.map cursorKey, page q store cursor⟩ := by
  rw [getChannelWindow_eq] at h
  obtain ⟨rows, hrows, hwindow⟩ := ok_of_map h
  obtain ⟨events, hsub, hmade, hall⟩ := reconstruct_ok decoder hrows
  have hevents : ((page q store cursor).rows.map fun e => (⟨e, store.threadOf e⟩ : DbRow T)).map
      (·.event) = (page q store cursor).rows := by
    rw [List.map_map]
    exact List.map_id _
  rw [hevents] at hsub
  subst hwindow
  constructor
  case rows => rfl
  case cursor => rfl
  case hasMore => rfl
  case next => exact (map_cursorKey_keyCursor _).symm
  case genuine => rfl
  case made =>
    refine ⟨events, hsub, ?_, ?_⟩
    · rw [MadeOf, fillParticipants_storedEvent, List.forall₂_map_right_iff]
      exact hmade
    · intro e he ⟨se, hse⟩
      exact hall ⟨e, store.threadOf e⟩ (List.mem_map_of_mem he) se hse

theorem getChannelWindow_isOk_iff :
    (∃ window, getChannelWindow decoder store q cursor = .ok window) ↔
      ∀ e ∈ (page q store cursor).rows, Readable decoder e := by
  have hreads := reconstruct_isOk_iff decoder
    ((page q store cursor).rows.map fun e => ⟨e, store.threadOf e⟩)
  rw [List.forall_mem_map] at hreads
  rw [← hreads, getChannelWindow_eq]
  constructor
  · intro ⟨window, h⟩
    obtain ⟨rows, hrows, -⟩ := ok_of_map h
    exact ⟨rows, hrows⟩
  · intro ⟨rows, hrows⟩
    rw [hrows]
    exact ⟨_, rfl⟩

theorem rowWalk_cons (q : Query) (cursor : Option Cursor) (store : Store T)
    (history : List (Store T)) :
    rowWalk q cursor (store :: history) =
      ⟨listed q store, cursor.map cursorKey, page q store cursor⟩ ::
        if (page q store cursor).hasMore then
          rowWalk q ((page q store cursor).next.map keyCursor) history
        else [] := by
  rw [rowWalk, List.map_cons, Keyset.walk_cons, rowWalk, map_cursorKey_keyCursor]
  rfl

/-- A step of the walk takes its way on from the page of rows alone. -/
theorem walk_cons_ok {window : ChannelWindow E} (history : List (Store T))
    (h : getChannelWindow decoder store q cursor = .ok window) :
    walk decoder q cursor (store :: history) =
      if (page q store cursor).hasMore then
        (walk decoder q ((page q store cursor).next.map keyCursor) history).map
          fun rest => ⟨store, cursor, window⟩ :: rest
      else .ok [⟨store, cursor, window⟩] := by
  have hshows := getChannelWindow_ok h
  have hmore : (page q store cursor).hasMore = window.hasMore := hshows.hasMore
  have hkeys : (page q store cursor).next = window.nextCursor.map cursorKey := hshows.next
  rw [hmore, hkeys, map_keyCursor_cursorKey]
  simp only [walk, h, bind, Except.bind]
  by_cases hw : window.hasMore = true
  · rw [if_pos hw, if_pos hw]
    cases walk decoder q window.nextCursor history with
    | error e => rfl
    | ok rest => rfl
  · rw [if_neg hw, if_neg hw]
    rfl

theorem walk_shows {history : List (Store T)} {steps : List (WindowStep T E)}
    (h : walk decoder q cursor history = .ok steps) :
    List.Forall₂ (Shows decoder q) steps (rowWalk q cursor history) := by
  induction history generalizing cursor steps with
  | nil =>
    cases h
    exact List.Forall₂.nil
  | cons store history ih =>
    obtain ⟨window, hwindow, -⟩ := ok_of_bind h
    have hshows := getChannelWindow_ok hwindow
    rw [walk_cons_ok history hwindow] at h
    rw [rowWalk_cons]
    by_cases hmore : (page q store cursor).hasMore = true
    · rw [if_pos hmore] at h ⊢
      obtain ⟨rest, hrest, h⟩ := ok_of_map h
      subst h
      exact List.Forall₂.cons hshows (ih hrest)
    · rw [if_neg hmore] at h ⊢
      cases h
      exact List.Forall₂.cons hshows List.Forall₂.nil

theorem walk_isOk_iff (history : List (Store T)) :
    (∃ steps, walk decoder q cursor history = .ok steps) ↔
      ∀ raw ∈ rowWalk q cursor history, ∀ e ∈ raw.page.rows, Readable decoder e := by
  induction history generalizing cursor with
  | nil => exact ⟨fun _ raw hraw => (nomatch hraw), fun _ => ⟨[], rfl⟩⟩
  | cons store history ih =>
    rw [rowWalk_cons, List.forall_mem_cons]
    change _ ↔ (∀ e ∈ (page q store cursor).rows, Readable decoder e) ∧ _
    rw [← getChannelWindow_isOk_iff]
    constructor
    · intro ⟨steps, h⟩
      obtain ⟨window, hwindow, -⟩ := ok_of_bind h
      refine ⟨⟨window, hwindow⟩, ?_⟩
      rw [walk_cons_ok history hwindow] at h
      by_cases hmore : (page q store cursor).hasMore = true
      · rw [if_pos hmore] at h ⊢
        obtain ⟨rest, hrest, -⟩ := ok_of_map h
        exact ih.mp ⟨rest, hrest⟩
      · rw [if_neg hmore]
        intro raw hraw
        cases hraw
    · intro ⟨⟨window, hwindow⟩, hrest⟩
      rw [walk_cons_ok history hwindow]
      by_cases hmore : (page q store cursor).hasMore = true
      · rw [if_pos hmore] at hrest ⊢
        obtain ⟨rest, h⟩ := ih.mpr hrest
        rw [h]
        exact ⟨_, rfl⟩
      · rw [if_neg hmore]
        exact ⟨_, rfl⟩

end Walk

section Shown

variable {decoder : Decoder T J E} {q : Query} {steps : List (WindowStep T E)}
  {raws : List (Keyset.Step (EventRow T) RowKey)}

theorem exists_raw (h : List.Forall₂ (Shows decoder q) steps raws) :
    ∀ step ∈ steps, ∃ raw ∈ raws, Shows decoder q step raw := by
  induction h with
  | nil =>
    intro step hstep
    cases hstep
  | @cons step raw steps raws hshows _ ih =>
    intro step' hstep
    cases List.mem_cons.mp hstep with
    | inl heq => exact ⟨raw, List.mem_cons_self, heq ▸ hshows⟩
    | inr hstep =>
      obtain ⟨raw', hraw, hshows'⟩ := ih step' hstep
      exact ⟨raw', List.mem_cons_of_mem raw hraw, hshows'⟩

theorem exists_step (h : List.Forall₂ (Shows decoder q) steps raws) :
    ∀ raw ∈ raws, ∃ step ∈ steps, Shows decoder q step raw := by
  induction h with
  | nil =>
    intro raw hraw
    cases hraw
  | @cons step raw steps raws hshows _ ih =>
    intro raw' hraw
    cases List.mem_cons.mp hraw with
    | inl heq => exact ⟨step, List.mem_cons_self, heq ▸ hshows⟩
    | inr hraw =>
      obtain ⟨step', hstep, hshows'⟩ := ih raw' hraw
      exact ⟨step', List.mem_cons_of_mem step hstep, hshows'⟩

/-- The walk ends when the walk over the rows does. -/
theorem ended_raw (h : List.Forall₂ (Shows decoder q) steps raws) (hended : Ended steps) :
    Keyset.Ended raws := by
  obtain ⟨step, hstep, hmore⟩ := hended
  rw [← List.head?_reverse] at hstep
  have hrev := List.forall₂_reverse_iff.mpr h
  cases hs : steps.reverse with
  | nil =>
    rw [hs] at hstep
    cases hstep
  | cons last before =>
    rw [hs, List.head?_cons] at hstep
    cases hstep
    rw [hs, List.forall₂_cons_left_iff] at hrev
    obtain ⟨raw, raws', hshows, -, hraws⟩ := hrev
    refine ⟨raw, ?_, ?_⟩
    · rw [← List.head?_reverse, hraws, List.head?_cons]
    · rw [hshows.hasMore, hmore]

/-- The rows shown are rows of the walk, in their order, and all that are events. -/
theorem exists_shown (h : List.Forall₂ (Shows decoder q) steps raws) :
    ∃ shown : List (List (EventRow T)),
      List.Forall₂ (fun rows step => MadeOf decoder rows step.window ∧
        ∀ e ∈ rows, e ∈ listed q step.store) shown steps ∧
      shown.flatten.Sublist (Keyset.listed raws) ∧
      ∀ e ∈ Keyset.listed raws, (∃ se, rowToStoredEvent decoder e = .ok (some se)) →
        e ∈ shown.flatten := by
  induction h with
  | nil => exact ⟨[], List.Forall₂.nil, List.nil_sublist _, fun e he => (nomatch he)⟩
  | @cons step raw steps raws hshows _ ih =>
    obtain ⟨shown, hmade, hsub, hall⟩ := ih
    obtain ⟨events, hevents, hwindow, hread⟩ := hshows.made
    have hlisted : ∀ e ∈ events, e ∈ listed q step.store := by
      intro e he
      have hpage := hevents.subset he
      rw [hshows.genuine] at hpage
      exact (Keyset.mem_of_mem_fetch hpage).1
    refine ⟨events :: shown, List.Forall₂.cons ⟨hwindow, hlisted⟩ hmade, ?_, ?_⟩
    · rw [List.flatten_cons, Keyset.listed, List.flatMap_cons]
      exact hevents.append hsub
    · intro e he hse
      rw [Keyset.listed, List.flatMap_cons, List.mem_append] at he
      rw [List.flatten_cons, List.mem_append]
      exact he.imp (fun he => hread e he hse) fun he => hall e he hse

end Shown

theorem walk_visits {decoder : Decoder T J E} {q : Query} (hlimit : 1 ≤ q.limit.toNat)
    {history : List (Store T)} {steps : List (WindowStep T E)}
    (h : walk decoder q none history = .ok steps) :
    ∃ shown, Visits decoder q steps shown := by
  have hshows := walk_shows h
  have hkeyed : ∀ rows ∈ history.map (listed q), Keyset.Keyed rowKey rows := by
    rw [List.forall_mem_map]
    exact fun store _ => listed_keyed q store
  have hpair : (Keyset.listed (rowWalk q none history)).Pairwise fun a b => rowKey a < rowKey b :=
    (Keyset.walk_pairwise hkeyed hlimit).2
  obtain ⟨shown, hmade, hsub, hall⟩ := exists_shown hshows
  have hordered : shown.flatten.Pairwise Before :=
    (hpair.sublist hsub).imp fun h => (rowKey_lt_iff _ _).mp h
  refine ⟨shown, ?_⟩
  constructor
  case made => exact hmade
  case ordered => exact hordered
  case once =>
    rw [List.Nodup, List.pairwise_map]
    apply hordered.imp
    intro a b hbefore heq
    rw [Prod.mk.injEq] at heq
    rw [← rowKey_lt_iff, rowKey, rowKey, heq.1, heq.2] at hbefore
    exact lt_irrefl _ hbefore
  case all =>
    intro hended e hthere hse
    refine hall e ?_ hse
    apply Keyset.walk_complete hkeyed hlimit (ended_raw hshows hended) (Keyset.After.none e)
    intro raw hraw
    obtain ⟨step, hstep, hs⟩ := exists_step hshows raw hraw
    rw [hs.rows]
    exact hthere step hstep
  case hasMore =>
    intro step hstep
    obtain ⟨raw, -, hs⟩ := exists_raw hshows step hstep
    rw [← hs.hasMore, hs.genuine, page, Keyset.hasMore_iff (listed_keyed q step.store)]
    simp only [← cursorClause_iff, rowKey_lt_iff]
  case nextCursor =>
    intro step hstep
    obtain ⟨raw, hraw, hs⟩ := exists_raw hshows step hstep
    have hsome : raw.page.next.isSome = step.window.nextCursor.isSome := by
      rw [hs.next, Option.isSome_map]
    rw [← hsome, ← hs.hasMore]
    cases hmore : raw.page.hasMore with
    | false =>
      rw [(Keyset.walk_page hraw).1] at hmore ⊢
      rw [Keyset.next_of_not_hasMore hmore]
      rfl
    | true =>
      obtain ⟨c, hc, -⟩ := Keyset.next_after hkeyed hlimit hraw hmore
      rw [hc]
      rfl
  case onward =>
    intro step hstep next hnext c hcursor
    obtain ⟨raw, hraw, hs⟩ := exists_raw hshows step hstep
    have hraw_next : raw.page.next = some (cursorKey next) := by
      rw [hs.next, hnext]
      rfl
    have hraw_cursor : raw.cursor = some (cursorKey c) := by
      rw [hs.cursor, hcursor]
      rfl
    cases hmore : raw.page.hasMore with
    | false =>
      rw [(Keyset.walk_page hraw).1] at hmore hraw_next
      rw [Keyset.next_of_not_hasMore hmore] at hraw_next
      cases hraw_next
    | true =>
      obtain ⟨c', hc', hlt⟩ := Keyset.next_after hkeyed hlimit hraw hmore
      rw [hraw_next] at hc'
      cases hc'
      exact hlt _ hraw_cursor

/-- A walk shows every row once exactly when each row on its pages has tags that decode and a
kind in the range of `u16`. -/
theorem walk_visits_iff (decoder : Decoder T J E) (q : Query) (hlimit : 1 ≤ q.limit.toNat)
    (history : List (Store T)) :
    (∃ steps shown, walk decoder q none history = .ok steps ∧ Visits decoder q steps shown) ↔
      ∀ raw ∈ rowWalk q none history, ∀ e ∈ raw.page.rows, Readable decoder e := by
  rw [← walk_isOk_iff]
  constructor
  · intro ⟨steps, shown, hwalk, hvisits⟩
    exact ⟨steps, hwalk⟩
  · intro ⟨steps, hwalk⟩
    obtain ⟨shown, hvisits⟩ := walk_visits hlimit hwalk
    exact ⟨steps, shown, hwalk, hvisits⟩

/-- The bytes of a string of hexadecimal digits. -/
def hexDecode (s : String) : Bytea :=
  let rec pairs : List (Fin 16) → Bytea
    | a :: b :: rest => Fin.ofNat 256 (16 * a.val + b.val) :: pairs rest
    | _ => []
  pairs ((Hex.decodeChars s.toList).getD [])

/-- Tags as they are stored, and events whose id, key and signature have the right sizes. -/
def plainDecoder : Decoder (List (List String)) (List (List String))
    (EventJson (List (List String))) where
  tags := .ok
  fromValue json :=
    if json.id.length = 64 ∧ json.pubkey.length = 64 ∧ json.sig.length = 128 then some json else none
  idBytes json := hexDecode json.id

def generalQuery : Query where
  communityId := ⟨HexId.ofNat 32 1⟩
  channelId := HexId.ofNat 32 2
  limit := 1
  kindFilter := none

/-- A message of the channel at a second. -/
def message (id : Fin 256) (second kind : Int) : EventRow (List (List String)) where
  communityId := generalQuery.communityId
  id := List.replicate 32 id
  pubkey := List.replicate 32 7
  createdAt := second * 1000000
  kind := kind
  tags := []
  content := "hi"
  sig := List.replicate 64 0
  receivedAt := second * 1000000
  channelId := some generalQuery.channelId
  deletedAt := none

def twoMessages : Store (List (List String)) where
  events := [message 1 100 9, message 2 100 9]
  threads := []
  events_key := by decide
  threads_key := by decide

/-- A store with a row whose kind no event has. -/
def corruptKind : Store (List (List String)) where
  events := [message 1 100 70000]
  threads := []
  events_key := by decide
  threads_key := by decide

theorem walk_visits_twoMessages :
    ∃ steps shown, walk plainDecoder generalQuery none [twoMessages, twoMessages] = .ok steps ∧
      Visits plainDecoder generalQuery steps shown := by
  apply (walk_visits_iff plainDecoder generalQuery (by decide) [twoMessages, twoMessages]).mpr
  intro raw hraw e he
  obtain ⟨hpage, hrows⟩ := Keyset.walk_page hraw
  rw [hpage] at he
  have hlisted := (Keyset.mem_of_mem_fetch he).1
  have hevent : e ∈ twoMessages.events := by
    simp only [List.map_cons, List.map_nil, List.mem_cons, List.not_mem_nil, or_false,
      or_self] at hrows
    rw [hrows] at hlisted
    exact List.mem_of_mem_filter hlisted
  refine ⟨⟨e.tags, rfl⟩, ?_⟩
  have hkind : ∀ e ∈ twoMessages.events, 0 ≤ e.kind ∧ e.kind < 65536 := by decide
  exact hkind e hevent

theorem corrupt_kind_fails_walk : ¬ ∃ steps shown,
    walk plainDecoder generalQuery none [corruptKind] = .ok steps ∧
      Visits plainDecoder generalQuery steps shown := by
  intro ⟨steps, shown, hwalk, _⟩
  have hfails : getChannelWindow plainDecoder corruptKind generalQuery none =
      .error (.invalidData "kind out of u16 range: 70000") := by rfl
  rw [walk, hfails] at hwalk
  cases hwalk

end Buzz.Paging
