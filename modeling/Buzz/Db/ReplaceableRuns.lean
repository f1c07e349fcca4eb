import Buzz.Db.Replaceable

namespace Buzz.Replaceable
set_option autoImplicit true

/-- The ingest lets an event in at a time of the server's clock. -/
def TimestampAccepted (event : Event) : Prop :=
  ∃ now : Int, MAX_TIMESTAMP_DRIFT_SECS ≤ now ∧ now ≤ 8210266876799 - MAX_TIMESTAMP_DRIFT_SECS ∧
    |createdAtSecs event - now| ≤ MAX_TIMESTAMP_DRIFT_SECS

theorem toInt_toInt64_of_nonneg {t : UInt64} (h : 0 ≤ t.toInt64.toInt) :
    t.toInt64.toInt = t.toNat := by
  have hcond : t.toInt64.toInt = if 2 * t.toNat < 2 ^ 64 then (t.toNat : Int)
      else t.toNat - (2 ^ 64 : Nat) := BitVec.toInt_eq_toNat_cond t.toInt64.toBitVec
  have hlt := t.toNat_lt
  rw [hcond] at h ⊢
  split at h
  · rename_i hsmall
    rw [if_pos hsmall]
  · omega

theorem createdAtSecs_of_accepted (h : TimestampAccepted event) :
    createdAtSecs event = event.createdAt.toNat ∧ validTimestamp (createdAtSecs event) = true := by
  obtain ⟨now, hlow, hhigh, hdrift⟩ := h
  rw [abs_le] at hdrift
  refine ⟨toInt_toInt64_of_nonneg ?_, ?_⟩
  · have hnonneg : 0 ≤ createdAtSecs event := by omega
    exact hnonneg
  · rw [MAX_TIMESTAMP_DRIFT_SECS] at *
    rw [validTimestamp, Bool.and_eq_true, decide_eq_true_iff, decide_eq_true_iff]
    omega

/-- The rank by the timestamp as it was signed. -/
theorem rank_le_iff (he : TimestampAccepted e) (hf : TimestampAccepted f) :
    (headOf f).rank ≤ (headOf e).rank ↔
      f.createdAt < e.createdAt ∨ (f.createdAt = e.createdAt ∧ e.id.nibbles ≤ f.id.nibbles) := by
  rw [Head.rank, Head.rank, Prod.Lex.toLex_le_toLex, headOf, headOf]
  dsimp only
  rw [(createdAtSecs_of_accepted he).1, (createdAtSecs_of_accepted hf).1, UInt64.lt_iff_toNat_lt,
    ← UInt64.toNat_inj, Nat.cast_lt, Nat.cast_inj, OrderDual.toDual_le_toDual]

theorem rank_lt_iff (he : TimestampAccepted e) (hf : TimestampAccepted f) :
    (headOf f).rank < (headOf e).rank ↔
      f.createdAt < e.createdAt ∨ (f.createdAt = e.createdAt ∧ e.id.nibbles < f.id.nibbles) := by
  rw [Head.rank, Head.rank, Prod.Lex.toLex_lt_toLex, headOf, headOf]
  dsimp only
  rw [(createdAtSecs_of_accepted he).1, (createdAtSecs_of_accepted hf).1, UInt64.lt_iff_toNat_lt,
    ← UInt64.toNat_inj, Nat.cast_lt, Nat.cast_inj, OrderDual.toDual_lt_toDual]

namespace Store

variable {s : Store}

theorem foldl_newest_isSome {rows : List Row} (best : Head) :
    (rows.foldl newest (some best)).isSome := by
  induction rows generalizing best with
  | nil => rfl
  | cons row rows ih =>
    rw [List.foldl_cons, newest]
    split
    · exact ih best
    · exact ih _

theorem liveRows_of_existing_none (h : s.existing = none) : s.liveRows = [] := by
  rw [existing] at h
  cases hlive : s.liveRows with
  | nil => rfl
  | cons row rows =>
    rw [hlive, List.foldl_cons] at h
    have hsome := @foldl_newest_isSome rows (headOf row.event)
    have hfirst : newest none row = some (headOf row.event) := rfl
    rw [hfirst] at h
    rw [h] at hsome
    cases hsome

theorem existing_of_live (h : s.liveRows = [row]) : s.existing = some (headOf row.event) := by
  rw [existing, h]
  rfl

/-- What is left for the incoming event: no live row, and no row that was not there. -/
theorem removeExisting_spec (c : Coordinate) (event : Event) (s : Store) :
    (s.removeExisting c event).liveRows = [] ∧
      (s.removeExisting c event).watermark = s.watermark ∧
      ∀ row ∈ (s.removeExisting c event).rows, ∃ old ∈ s.rows, row.event = old.event := by
  rw [removeExisting]
  split
  · rename_i hnone
    exact ⟨liveRows_of_existing_none hnone, rfl, fun row hrow => ⟨row, hrow, rfl⟩⟩
  · split
    · refine ⟨?_, rfl, fun row hrow => ⟨row, (List.mem_filter.mp hrow).1, rfl⟩⟩
      rw [liveRows, hardDelete, List.filter_filter, List.filter_eq_nil_iff]
      intro row _ h
      rw [Bool.and_eq_true, Bool.not_eq_true'] at h
      exact Bool.false_ne_true (h.1.symm.trans h.2)
    · refine ⟨?_, rfl, ?_⟩
      · rw [liveRows, softDelete, List.filter_map, List.map_eq_nil_iff, List.filter_eq_nil_iff]
        intro row _ h
        cases h
      · intro row hrow
        obtain ⟨old, hold, rfl⟩ := List.mem_map.mp hrow
        exact ⟨old, (List.mem_filter.mp hold).1, rfl⟩

/-- A row that nothing is in the way of is inserted. -/
theorem insertEvent_ok {event : Event} (channelId : Option Uuid)
    (hrows : ∀ row ∈ s.rows, headOf row.event ≠ headOf event)
    (hwatermark : ∀ w ∈ s.watermark, w.rank < (headOf event).rank) : ∃ w,
      (w = s.watermark ∨ w = some (headOf event)) ∧
      insertEvent c ⟨event, channelId, false⟩ s =
        .ok (some ⟨s.rows ++ [⟨event, channelId, false⟩], w, s.mentions⟩) := by
  have hfree : (s.rows.any fun old => headOf old.event = headOf event) = false := by
    rw [List.any_eq_false]
    intro row hrow h
    exact hrows row hrow (of_decide_eq_true h)
  rw [insertEvent]
  split
  · split
    · refine ⟨_, .inr rfl, ?_⟩
      rw [insertRow, hfree]
      rfl
    · rename_i w hw
      have hnot := (dominatedBy_eq_false_iff (headOf event) w).mpr (hwatermark w hw)
      refine ⟨_, .inr rfl, ?_⟩
      dsimp only
      rw [hnot, insertRow, hfree]
      rfl
  · refine ⟨_, .inl rfl, ?_⟩
    rw [insertRow, hfree]
    rfl

theorem writeWatermark_eq (c : Coordinate) (event : Event) (s : Store) :
    (s.writeWatermark c event).rows = s.rows ∧
      ((s.writeWatermark c event).watermark = s.watermark ∨
        (s.writeWatermark c event).watermark = some (headOf event)) := by
  rw [writeWatermark]
  split
  · exact ⟨rfl, .inr rfl⟩
  · exact ⟨rfl, .inl rfl⟩

/-- The new head after a replacement. -/
theorem replaceHead_ok {event : Event} (c : Coordinate) (channelId : Option Uuid)
    (hrows : ∀ row ∈ s.rows, headOf row.event ≠ headOf event)
    (hwatermark : ∀ w ∈ s.watermark, w.rank < (headOf event).rank) : ∃ s',
      s.replaceHead c event channelId = .ok (s', .inserted) ∧
      s'.liveRows = [⟨event, channelId, false⟩] ∧
      (s'.watermark = s.watermark ∨ s'.watermark = some (headOf event)) ∧
      ∀ row ∈ s'.rows, row.event = event ∨ ∃ old ∈ s.rows, row.event = old.event := by
  obtain ⟨hlive, hw, hold⟩ := removeExisting_spec c event s
  have hrows' : ∀ row ∈ (s.removeExisting c event).rows, headOf row.event ≠ headOf event := by
    intro row hrow
    obtain ⟨old, hmem, heq⟩ := hold row hrow
    rw [heq]
    exact hrows old hmem
  obtain ⟨w, hcases, hinsert⟩ := insertEvent_ok (c := c) channelId hrows' (by rwa [hw])
  have hreplace : s.replaceHead c event channelId = .ok (insertMentions event channelId
      (writeWatermark c event ⟨(s.removeExisting c event).rows ++ [⟨event, channelId, false⟩], w,
        (s.removeExisting c event).mentions⟩), .inserted) := by
    rw [replaceHead, hinsert]
  obtain ⟨hwritten, hwatermark'⟩ := writeWatermark_eq c event
    ⟨(s.removeExisting c event).rows ++ [⟨event, channelId, false⟩], w,
      (s.removeExisting c event).mentions⟩
  refine ⟨_, hreplace, ?_, ?_, ?_⟩
  · rw [liveRows, insertMentions]
    dsimp only
    rw [hwritten, List.filter_append]
    exact congrArg (· ++ [_]) hlive
  · rw [insertMentions]
    rcases hwatermark' with h | h
    · rw [hw] at hcases
      dsimp only at h ⊢
      rw [h]
      exact hcases
    · exact .inr h
  · intro row hrow
    rw [insertMentions] at hrow
    dsimp only at hrow
    rw [hwritten] at hrow
    rcases List.mem_append.mp hrow with hrow | hrow
    · exact .inr (hold row hrow)
    · rw [List.mem_singleton.mp hrow]
      exact .inl rfl

end Store

/-- The state after the given events were submitted: one live row, of the greatest of them. -/
structure Settled (submitted : List Event) (s : Store) : Prop where
  live : s.liveRows.map Row.event = (submitted.argmax fun e => (headOf e).rank).toList
  rows : ∀ row ∈ s.rows, row.event ∈ submitted
  watermark : ∀ w ∈ s.watermark, ∃ e ∈ submitted, headOf e = w

namespace Settled

variable {s : Store} {submitted : List Event}

theorem empty : Settled [] .empty where
  live := rfl
  rows _ h := by cases h
  watermark _ h := by cases h

theorem existing_eq (h : Settled submitted s) :
    s.existing = (submitted.argmax fun e => (headOf e).rank).map headOf := by
  have hlive := h.live
  cases hbest : submitted.argmax fun e => (headOf e).rank with
  | none =>
    rw [hbest] at hlive
    rw [Store.existing, List.map_eq_nil_iff.mp hlive]
    rfl
  | some best =>
    rw [hbest] at hlive
    obtain ⟨row, hrow, hevent⟩ := List.map_eq_singleton_iff.mp hlive
    rw [Store.existing_of_live hrow, hevent]
    rfl

/-- An event that the head dominates changes nothing. -/
theorem refused (h : Settled submitted s) {event best : Event} (c : Coordinate)
    (channelId : Option Uuid) (hvalid : validTimestamp (createdAtSecs event) = true)
    (hbest : submitted.argmax (fun e => (headOf e).rank) = some best)
    (hle : (headOf event).rank ≤ (headOf best).rank) :
    ∃ status, s.replaceParameterizedEvent c event channelId .unconditional = .ok (s, status) ∧
      Settled (submitted ++ [event]) s := by
  have hexisting := h.existing_eq
  rw [hbest, Option.map_some] at hexisting
  have hsettled : Settled (submitted ++ [event]) s := by
    refine ⟨?_, fun row hrow => List.mem_append_left _ (h.rows row hrow), ?_⟩
    · rw [h.live, List.argmax_concat, hbest]
      dsimp only
      rw [if_neg (not_lt.mpr hle)]
    · intro w hw
      obtain ⟨e, he, heq⟩ := h.watermark w hw
      exact ⟨e, List.mem_append_left _ he, heq⟩
  have hdominated := (dominatedBy_iff (headOf event) (headOf best)).mpr hle
  rw [Store.replaceParameterizedEvent, hvalid, Bool.not_true, if_neg Bool.false_ne_true]
  split
  · exact ⟨_, rfl, hsettled⟩
  · rw [if_neg (by decide), Store.revisionRefusal]
    dsimp only
    rw [hexisting, Option.any_some, hdominated, Bool.true_or, if_pos rfl]
    exact ⟨_, rfl, hsettled⟩

/-- An event above all before it becomes the head. -/
theorem accepted (h : Settled submitted s) {event : Event} (c : Coordinate)
    (channelId : Option Uuid) (hvalid : validTimestamp (createdAtSecs event) = true)
    (hids : ∀ e ∈ submitted, e.id = event.id → e = event)
    (habove : ∀ e ∈ submitted, (headOf e).rank < (headOf event).rank) :
    ∃ s' status, s.replaceParameterizedEvent c event channelId .unconditional = .ok (s', status) ∧
      Settled (submitted ++ [event]) s' := by
  have hnew : ∀ e ∈ submitted, e.id ≠ event.id := by
    intro e he hid
    have hlt := habove e he
    rw [hids e he hid] at hlt
    exact lt_irrefl _ hlt
  have hhead : ∀ head ∈ s.existing, ∃ e ∈ submitted, headOf e = head := by
    intro head hhead
    rw [h.existing_eq] at hhead
    obtain ⟨e, he, heq⟩ := Option.map_eq_some_iff.mp hhead
    exact ⟨e, List.argmax_mem he, heq⟩
  have hread : ∀ w ∈ s.readWatermark c event, ∃ e ∈ submitted, headOf e = w := by
    intro w hw
    rw [Store.readWatermark] at hw
    split at hw
    · exact h.watermark w hw
    · cases hw
  have hother : ∀ {known : Option Head}, (∀ k ∈ known, ∃ e ∈ submitted, headOf e = k) →
      known.any (·.id = event.id) = false ∧ known.any (dominatedBy (headOf event)) = false := by
    intro known hknown
    cases known with
    | none => exact ⟨rfl, rfl⟩
    | some k =>
      obtain ⟨e, he, rfl⟩ := hknown k rfl
      exact ⟨decide_eq_false (hnew e he), (dominatedBy_eq_false_iff _ _).mpr (habove e he)⟩
  have hrows : ∀ row ∈ s.rows, headOf row.event ≠ headOf event := by
    intro row hrow heq
    exact hnew row.event (h.rows row hrow) (congrArg Head.id heq)
  have hwatermark : ∀ w ∈ s.watermark, w.rank < (headOf event).rank := by
    intro w hw
    obtain ⟨e, he, rfl⟩ := h.watermark w hw
    exact habove e he
  obtain ⟨s', hreplace, hlive, hw, hrows'⟩ := Store.replaceHead_ok c channelId hrows hwatermark
  refine ⟨s', .inserted, ?_, ?_, ?_, ?_⟩
  · rw [Store.replaceParameterizedEvent, hvalid, Bool.not_true, if_neg Bool.false_ne_true,
      (hother hhead).1, (hother hread).1, Bool.or_false, if_neg Bool.false_ne_true,
      if_neg (by decide), Store.revisionRefusal]
    dsimp only
    rw [(hother hhead).2, (hother hread).2, Bool.or_false, if_neg Bool.false_ne_true]
    exact hreplace
  · rw [hlive, List.argmax_concat]
    cases hbest : submitted.argmax fun e => (headOf e).rank with
    | none => rfl
    | some best =>
      dsimp only
      rw [if_pos (habove best (List.argmax_mem hbest))]
      rfl
  · intro row hrow
    rcases hrows' row hrow with heq | ⟨old, hold, heq⟩
    · rw [heq]
      exact List.mem_append_right _ List.mem_cons_self
    · rw [heq]
      exact List.mem_append_left _ (h.rows old hold)
  · intro w hmem
    rcases hw with hw | hw
    · rw [hw] at hmem
      obtain ⟨e, he, heq⟩ := h.watermark w hmem
      exact ⟨e, List.mem_append_left _ he, heq⟩
    · rw [hw] at hmem
      exact ⟨event, List.mem_append_right _ List.mem_cons_self, Option.some.inj hmem⟩

theorem step (h : Settled submitted s) {event : Event} (c : Coordinate) (channelId : Option Uuid)
    (hvalid : validTimestamp (createdAtSecs event) = true)
    (hids : ∀ e ∈ submitted, e.id = event.id → e = event) :
    ∃ s' status, s.replaceParameterizedEvent c event channelId .unconditional = .ok (s', status) ∧
      Settled (submitted ++ [event]) s' := by
  cases hbest : submitted.argmax fun e => (headOf e).rank with
  | none =>
    apply h.accepted c channelId hvalid hids
    rw [List.argmax_eq_none.mp hbest]
    intro e he
    cases he
  | some best =>
    rcases le_or_gt (headOf event).rank (headOf best).rank with hle | hlt
    · obtain ⟨status, hcall, hsettled⟩ := h.refused c channelId hvalid hbest hle
      exact ⟨s, status, hcall, hsettled⟩
    · apply h.accepted c channelId hvalid hids
      intro e he
      exact lt_of_le_of_lt (List.le_of_mem_argmax (f := fun e => (headOf e).rank) he hbest) hlt

end Settled

/-- Submit events to the coordinate, one after the other. -/
def submitAll (c : Coordinate) (submissions : List (Event × Option Uuid)) : Except DbError Store :=
  submissions.foldlM (fun s submission =>
    (s.replaceParameterizedEvent c submission.1 submission.2 .unconditional).map Prod.fst) .empty

/-- The id of an event is the hash of what it says. -/
def IdsDetermine (submitted : List Event) : Prop :=
  ∀ e ∈ submitted, ∀ f ∈ submitted, e.id = f.id → e = f

/-- The latest of the submitted events, and of those at the same second the one of least id. -/
def IsHead (submitted : List Event) (e : Event) : Prop :=
  e ∈ submitted ∧ ∀ f ∈ submitted,
    f.createdAt < e.createdAt ∨ (f.createdAt = e.createdAt ∧ e.id.nibbles ≤ f.id.nibbles)

theorem IsHead.unique (haccepted : ∀ e ∈ submitted, TimestampAccepted e)
    (hids : IdsDetermine submitted) (he : IsHead submitted e) (hf : IsHead submitted f) : e = f := by
  have hle := (rank_le_iff (haccepted e he.1) (haccepted f hf.1)).mpr (he.2 f hf.1)
  have hge := (rank_le_iff (haccepted f hf.1) (haccepted e he.1)).mpr (hf.2 e he.1)
  have hhead := rank_injective (le_antisymm hge hle)
  exact hids e he.1 f hf.1 (congrArg Head.id hhead)

/-- Submissions in any order, repeated or not, leave the head of all of them. -/
theorem submitAll_settled (c : Coordinate) (submissions : List (Event × Option Uuid))
    (haccepted : ∀ e ∈ submissions.map Prod.fst, TimestampAccepted e)
    (hids : IdsDetermine (submissions.map Prod.fst)) :
    ∃ s, submitAll c submissions = .ok s ∧ Settled (submissions.map Prod.fst) s := by
  induction submissions using List.reverseRecOn with
  | nil => exact ⟨.empty, rfl, .empty⟩
  | append_singleton submissions submission ih =>
    rw [List.map_append, List.map_singleton] at haccepted hids ⊢
    obtain ⟨s, hall, hsettled⟩ := ih (fun e he => haccepted e (List.mem_append_left _ he))
      (fun e he f hf => hids e (List.mem_append_left _ he) f (List.mem_append_left _ hf))
    have hvalid := (createdAtSecs_of_accepted
      (haccepted submission.1 (List.mem_append_right _ List.mem_cons_self))).2
    obtain ⟨s', status, hcall, hsettled'⟩ := hsettled.step c submission.2 hvalid fun e he =>
      hids e (List.mem_append_left _ he) submission.1 (List.mem_append_right _ List.mem_cons_self)
    refine ⟨s', ?_, hsettled'⟩
    rw [submitAll] at hall ⊢
    rw [List.foldlM_append, hall]
    exact congrArg (fun r : Except DbError (Store × ParameterizedReplaceStatus) =>
      (r.map Prod.fst >>= pure)) hcall

/-- The live rows are the one of the head. -/
theorem Settled.live_iff {s : Store} (h : Settled submitted s)
    (haccepted : ∀ e ∈ submitted, TimestampAccepted e) (hids : IdsDetermine submitted) (e : Event) :
    s.liveRows.map Row.event = [e] ↔ IsHead submitted e := by
  have hhead : ∀ best, submitted.argmax (fun e => (headOf e).rank) = some best →
      IsHead submitted best := by
    intro best hbest
    have hmem := List.argmax_mem hbest
    refine ⟨hmem, fun f hf => ?_⟩
    rw [← rank_le_iff (haccepted best hmem) (haccepted f hf)]
    exact List.le_of_mem_argmax (f := fun e => (headOf e).rank) hf hbest
  rw [h.live]
  cases hbest : submitted.argmax fun e => (headOf e).rank with
  | none =>
    rw [List.argmax_eq_none.mp hbest]
    constructor
    · intro hnil
      cases hnil
    · intro he
      cases he.1
  | some best =>
    constructor
    · intro heq
      rw [← List.head_eq_of_cons_eq heq]
      exact hhead best hbest
    · intro he
      rw [(hhead best hbest).unique haccepted hids he]
      rfl

/-- The head depends only on what was submitted. -/
theorem Settled.live_congr {s s' : Store} (h : Settled submitted s) (h' : Settled others s')
    (haccepted : ∀ e ∈ others, TimestampAccepted e) (hids : IdsDetermine others)
    (hsame : ∀ e, e ∈ others ↔ e ∈ submitted) :
    s'.liveRows.map Row.event = s.liveRows.map Row.event := by
  rcases hlive : s.liveRows.map Row.event with _ | ⟨e, rest⟩
  · rw [h.live, Option.toList_eq_nil_iff, List.argmax_eq_none] at hlive
    have hnil : others = [] := by
      rw [List.eq_nil_iff_forall_not_mem]
      intro e he
      rw [hsame, hlive] at he
      cases he
    rw [h'.live, hnil]
    rfl
  · have hone := h.live
    rw [hlive] at hone
    cases hbest : submitted.argmax fun e => (headOf e).rank with
    | none =>
      rw [hbest] at hone
      cases hone
    | some best =>
      rw [hbest] at hone
      cases hone
      have hmem := List.argmax_mem hbest
      rw [h'.live_iff haccepted hids]
      refine ⟨(hsame e).mpr hmem, fun f hf => ?_⟩
      rw [← rank_le_iff (haccepted e ((hsame e).mpr hmem)) (haccepted f hf)]
      exact List.le_of_mem_argmax (f := fun e => (headOf e).rank) ((hsame f).mp hf) hbest

/-- A write, or a deletion of live rows by another path. -/
inductive Op where
  | submit (event : Event) (channelId : Option Uuid)
      (precondition : ParameterizedReplacePrecondition)
  | delete

/-- A coordinate, and the events that were inserted into it so far. -/
structure History where
  store : Store
  inserted : List Event

/-- Rows are marked or gone; the watermark stays. -/
structure Deletion (s s' : Store) : Prop where
  watermark : s'.watermark = s.watermark
  rows : ∀ row ∈ s'.rows, ∃ old ∈ s.rows, row.event = old.event ∧ (old.deleted → row.deleted)

inductive Step (c : Coordinate) (s : History) : Op → History → Prop where
  | inserted (h : s.store.replaceParameterizedEvent c event channelId precondition =
      .ok (store, .inserted)) :
      Step c s (.submit event channelId precondition) ⟨store, s.inserted ++ [event]⟩
  | refused (h : s.store.replaceParameterizedEvent c event channelId precondition =
      .ok (store, status)) (hstatus : status ≠ .inserted) :
      Step c s (.submit event channelId precondition) ⟨store, s.inserted⟩
  | failed (h : s.store.replaceParameterizedEvent c event channelId precondition = .error error) :
      Step c s (.submit event channelId precondition) s
  | deleted (h : Deletion s.store store) : Step c s .delete ⟨store, s.inserted⟩

/-- What was inserted into a NIP-RS coordinate goes up, to the watermark. -/
structure Advancing (s : History) : Prop where
  accepted : ∀ f ∈ s.inserted, TimestampAccepted f
  watermark : ∀ f ∈ s.inserted, ∃ w, s.store.watermark = some w ∧ (headOf f).rank ≤ w.rank
  inserted : s.inserted.Pairwise fun f e => (headOf f).rank < (headOf e).rank

/-- The writes are of the NIP-RS shape, and were let in. -/
def AllNipRs (c : Coordinate) (ops : List Op) : Prop :=
  ∀ event channelId precondition, .submit event channelId precondition ∈ ops →
    isNipRs c event = true ∧ TimestampAccepted event

theorem Advancing.step {s : History} (h : Advancing s) (hstep : Step c s op s')
    (hnip : AllNipRs c [op]) : Advancing s' := by
  cases hstep with
  | @inserted event channelId precondition store hcall =>
    obtain ⟨hshape, haccepted⟩ := hnip event channelId precondition List.mem_cons_self
    obtain ⟨_, habove, hreplace⟩ := Store.of_inserted hcall
    have hbelow : ∀ f ∈ s.inserted, (headOf f).rank < (headOf event).rank := by
      intro f hf
      obtain ⟨w, hw, hle⟩ := h.watermark f hf
      exact lt_of_le_of_lt hle (habove hshape w hw)
    refine ⟨?_, ?_, ?_⟩
    · intro f hf
      rcases List.mem_append.mp hf with hf | hf
      · exact h.accepted f hf
      · rw [List.mem_singleton.mp hf]
        exact haccepted
    · intro f hf
      refine ⟨_, Store.watermark_of_replaceHead hshape hreplace, ?_⟩
      rcases List.mem_append.mp hf with hf | hf
      · exact (hbelow f hf).le
      · rw [List.mem_singleton.mp hf]
    · rw [List.pairwise_append]
      refine ⟨h.inserted, List.pairwise_singleton _ _, ?_⟩
      intro f hf e he
      rw [List.mem_singleton.mp he]
      exact hbelow f hf
  | refused hcall hstatus =>
    rw [Store.eq_of_not_inserted hcall hstatus]
    exact h
  | failed => exact h
  | deleted hdeletion =>
    refine ⟨h.accepted, ?_, h.inserted⟩
    rw [hdeletion.watermark]
    exact h.watermark

theorem Advancing.run (h : Run (Step c) ⟨.empty, []⟩ ops s) (hnip : AllNipRs c ops) :
    Advancing s := by
  induction h with
  | nil => exact ⟨(fun _ h => by cases h), (fun _ h => by cases h), List.Pairwise.nil⟩
  | snoc _ hstep ih =>
    have hbefore := ih fun event channelId precondition hmem =>
      hnip event channelId precondition (List.mem_append_left _ hmem)
    exact hbefore.step hstep fun event channelId precondition hmem =>
      hnip event channelId precondition (List.mem_append_right _ hmem)

/-- A coordinate converges to the head of what was submitted, whatever the order; a call that does
not insert changes nothing; and in a NIP-RS coordinate each inserted event dominates all that were
inserted before it, whatever was deleted in between. -/
theorem parameterized_replace_converges (c : Coordinate) :
    (∀ submissions : List (Event × Option Uuid),
      (∀ e ∈ submissions.map Prod.fst, TimestampAccepted e) →
      IdsDetermine (submissions.map Prod.fst) → ∃ s, submitAll c submissions = .ok s ∧
        s.liveRows.length ≤ 1 ∧
        (∀ e, s.liveRows.map Row.event = [e] ↔ IsHead (submissions.map Prod.fst) e) ∧
        ∀ others : List (Event × Option Uuid),
          (∀ e, e ∈ others.map Prod.fst ↔ e ∈ submissions.map Prod.fst) → ∃ s',
            submitAll c others = .ok s' ∧ s'.liveRows.map Row.event = s.liveRows.map Row.event) ∧
    (∀ (s s' : Store) event channelId precondition status,
      s.replaceParameterizedEvent c event channelId precondition = .ok (s', status) →
      status ≠ .inserted → s' = s) ∧
    ∀ ops s, Run (Step c) ⟨.empty, []⟩ ops s → AllNipRs c ops →
      s.inserted.Pairwise fun f e => f.createdAt < e.createdAt ∨
        (f.createdAt = e.createdAt ∧ e.id.nibbles < f.id.nibbles) := by
  refine ⟨?_, fun _ _ _ _ _ _ => Store.eq_of_not_inserted, ?_⟩
  · intro submissions haccepted hids
    obtain ⟨s, hall, hsettled⟩ := submitAll_settled c submissions haccepted hids
    refine ⟨s, hall, ?_, hsettled.live_iff haccepted hids, ?_⟩
    · rw [← List.length_map Row.event, hsettled.live]
      exact Option.length_toList_le
    · intro others hsame
      have haccepted' : ∀ e ∈ others.map Prod.fst, TimestampAccepted e :=
        fun e he => haccepted e ((hsame e).mp he)
      have hids' : IdsDetermine (others.map Prod.fst) :=
        fun e he f hf => hids e ((hsame e).mp he) f ((hsame f).mp hf)
      obtain ⟨s', hall', hsettled'⟩ := submitAll_settled c others haccepted' hids'
      exact ⟨s', hall', hsettled.live_congr hsettled' haccepted' hids' hsame⟩
  · intro ops s hrun hnip
    have hadvancing := Advancing.run hrun hnip
    apply hadvancing.inserted.imp_of_mem
    intro f e hf he hlt
    exact (rank_lt_iff (hadvancing.accepted e he) (hadvancing.accepted f hf)).mp hlt

def coordinate : Coordinate :=
  ⟨⟨HexId.ofNat 32 1⟩, 30023, HexId.ofNat 64 7, "notes"⟩

def article (d : Fin 16) : Event :=
  ⟨⟨d :: List.replicate 63 0, rfl⟩, HexId.ofNat 64 7, 1000, 30023, [⟨"d", ["notes"]⟩]⟩

theorem article_accepted (d : Fin 16) : TimestampAccepted (article d) := by
  have hsecs : createdAtSecs (article d) = 1000 := by
    show (1000 : UInt64).toInt64.toInt = 1000
    decide
  refine ⟨1000, by decide, by decide, ?_⟩
  rw [hsecs]
  decide

/-- Of two events at the same second, the one of the lower id, also when it comes first. -/
theorem parameterized_replace_converges_tie : ∃ s,
    submitAll coordinate [(article 1, none), (article 2, none)] = .ok s ∧
      s.liveRows.map Row.event = [article 1] := by
  have haccepted : ∀ e ∈ [article 1, article 2], TimestampAccepted e := by
    intro e he
    rcases List.mem_pair.mp he with rfl | rfl
    · exact article_accepted 1
    · exact article_accepted 2
  have hids : IdsDetermine [article 1, article 2] := by
    intro e he f hf hid
    have hnibbles := congrArg (fun id => id.nibbles.head?) hid
    rcases List.mem_pair.mp he with rfl | rfl
    · rcases List.mem_pair.mp hf with rfl | rfl
      · rfl
      · cases hnibbles
    · rcases List.mem_pair.mp hf with rfl | rfl
      · cases hnibbles
      · rfl
  obtain ⟨s, hall, _, hhead, _⟩ := (parameterized_replace_converges coordinate).1
    [(article 1, none), (article 2, none)] haccepted hids
  refine ⟨s, hall, (hhead _).mpr ⟨List.mem_cons_self, ?_⟩⟩
  intro f hf
  rcases List.mem_pair.mp hf with rfl | rfl
  · exact .inr ⟨rfl, le_refl _⟩
  · exact .inr ⟨rfl, by decide⟩

end Buzz.Replaceable
