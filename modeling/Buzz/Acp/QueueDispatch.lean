import Buzz.Acp.QueueLoss

namespace Buzz
set_option autoImplicit true

/-- How often an event occurs. -/
def occurrences (id : EventId) (events : Multiset QueuedEvent) : Nat :=
  events.countP fun qe => qe.event.id = id

theorem occurrences_add (id : EventId) (m n : Multiset QueuedEvent) :
    occurrences id (m + n) = occurrences id m + occurrences id n :=
  Multiset.countP_add _ m n

theorem occurrences_pos {id : EventId} {m : Multiset QueuedEvent} :
    0 < occurrences id m ↔ ∃ qe ∈ m, qe.event.id = id :=
  Multiset.countP_pos

/-- An operation with what it answered. -/
abbrev Call := QueueOp × Outcome

def Holds (id : EventId) (b : Option FlushBatch) : Prop :=
  ∃ qe ∈ batchContents b, qe.event.id = id

/-- How often the calls accepted an event, gave it out and were handed it. -/
def pushed (id : EventId) (calls : List Call) : Nat :=
  (calls.map fun call => occurrences id call.2.taken).sum

def flushedOut (id : EventId) (calls : List Call) : Nat :=
  (calls.map fun call => occurrences id (batchContents call.2.flushed)).sum

def handedBack (id : EventId) (calls : List Call) : Nat :=
  (calls.map fun call => occurrences id (batchContents call.1.handed)).sum

/-- The event is accepted once at most, and handed back only as often as it was given out. -/
def OwnedOnce (id : EventId) (calls : List Call) : Prop :=
  pushed id calls ≤ 1 ∧ ∀ before, before <+: calls → handedBack id before ≤ flushedOut id before

theorem sum_map_append (f : Call → Nat) (l l' : List Call) :
    ((l ++ l').map f).sum = (l.map f).sum + (l'.map f).sum := by
  rw [List.map_append, List.sum_append]

namespace EventQueue

/-- A run of the queue, with its calls in order. -/
inductive Run : EventQueue → List Call → EventQueue → Prop where
  | nil : Run q [] q
  | cons (hstep : Step q op out q') (hrun : Run q' calls q'') : Run q ((op, out) :: calls) q''

variable {q q' q'' : EventQueue}

theorem Run.split (h : Run q (before ++ after) q'') :
    ∃ q', Run q before q' ∧ Run q' after q'' := by
  induction before generalizing q with
  | nil => exact ⟨q, .nil, h⟩
  | cons call before ih =>
    cases h with
    | cons hstep hrun =>
      obtain ⟨q', hbefore, hafter⟩ := ih hrun
      exact ⟨q', .cons hstep hbefore, hafter⟩

theorem Run.append (h : Run q before q') (h' : Run q' after q'') : Run q (before ++ after) q'' := by
  induction h with
  | nil => exact h'
  | cons hstep _ ih => exact .cons hstep (ih h')

theorem Step.keyed (h : q.Keyed) (hstep : q.Step op out q') : q'.Keyed := by
  obtain ⟨q₁, hr, happly⟩ := hstep
  have hq' := (h.reordered hr).apply op
  rw [happly] at hq'
  exact hq'

theorem Run.keyed (h : q.Keyed) (hrun : Run q calls q') : q'.Keyed := by
  induction hrun with
  | nil => exact h
  | cons hstep _ ih => exact ih (hstep.keyed h)

theorem Step.stored (h : q.Keyed) (hstep : q.Step op out q') :
    q'.stored + batchContents out.flushed + q.discarded op out =
      q.stored + out.taken + batchContents op.handed := by
  obtain ⟨q₁, hr, happly⟩ := hstep
  have hstored := stored_apply (h.reordered hr) op
  rw [happly, hr.stored, hr.discarded] at hstored
  exact hstored

/-- An event is stored or given out only as often as it was pushed or handed back. -/
theorem Run.occurrences_le (id : EventId) (h : q.Keyed) (hrun : Run q calls q') :
    occurrences id q'.stored + flushedOut id calls ≤
      occurrences id q.stored + pushed id calls + handedBack id calls := by
  induction hrun with
  | nil => exact Nat.le_refl _
  | @cons q op out q' calls q'' hstep _ ih =>
    have hrest := ih (hstep.keyed h)
    have hcall := congrArg (occurrences id) (hstep.stored h)
    simp only [occurrences_add] at hcall
    simp only [flushedOut, pushed, handedBack, List.map_cons, List.sum_cons] at hrest ⊢
    omega

theorem keyed_new (mode : DedupMode) : (new mode).Keyed := by
  refine ⟨?_, ?_⟩
  · intro c qe hqe
    cases hqe
  · intro c qe hqe
    cases hqe

/-- A call that gives out a batch is a flush. -/
theorem Step.flush_of_some (hstep : q.Step op out q') (hb : out.flushed = some b) :
    ∃ now, op = .flushNext now := by
  obtain ⟨q₁, _, happly⟩ := hstep
  by_contra hno
  rw [not_exists] at hno
  have hnone := q₁.apply_flushed op hno
  rw [happly, hb] at hnone
  cases hnone

theorem Step.flush_of_holds {id : EventId} (hstep : q.Step op out q') (hb : Holds id out.flushed) :
    op.handed = none ∧ 0 < occurrences id (batchContents out.flushed) := by
  refine ⟨?_, occurrences_pos.mpr hb⟩
  cases hflushed : out.flushed with
  | none =>
    rw [hflushed] at hb
    obtain ⟨qe, hqe, _⟩ := hb
    exact absurd hqe (Multiset.notMem_zero qe)
  | some b =>
    obtain ⟨now, rfl⟩ := hstep.flush_of_some hflushed
    rfl

/-- Between two flushes that give an event out it is handed back. -/
theorem Run.handed_between {id : EventId} {pre mid post : List Call} {x y : Call}
    (hrun : Run (new mode) (pre ++ x :: (mid ++ y :: post)) q)
    (hown : OwnedOnce id (pre ++ x :: (mid ++ y :: post))) (hx : Holds id x.2.flushed)
    (hy : Holds id y.2.flushed) : ∃ z ∈ mid, Holds id z.1.handed := by
  by_contra hno
  obtain ⟨q₁, hpre, hrest⟩ := hrun.split
  obtain ⟨opx, outx⟩ := x
  obtain ⟨opy, outy⟩ := y
  cases hrest with
  | cons hstepx hrest =>
    obtain ⟨q₃, hmid, hrest⟩ := hrest.split
    cases hrest with
    | cons hstepy _ =>
      have hkeyed := hpre.keyed (keyed_new mode)
      have hle := hpre.occurrences_le id (keyed_new mode)
      have hcallx := congrArg (occurrences id) (hstepx.stored hkeyed)
      have hlemid := hmid.occurrences_le id (hstepx.keyed hkeyed)
      have hcally := congrArg (occurrences id) (hstepy.stored (hmid.keyed (hstepx.keyed hkeyed)))
      obtain ⟨hbackx, hposx⟩ := hstepx.flush_of_holds hx
      obtain ⟨hbacky, hposy⟩ := hstepy.flush_of_holds hy
      have hnone : handedBack id mid = 0 := by
        apply List.sum_eq_zero
        intro n hn
        obtain ⟨z, hz, rfl⟩ := List.mem_map.mp hn
        by_contra hne
        exact hno ⟨z, hz, occurrences_pos.mp (Nat.pos_of_ne_zero hne)⟩
      have hone := hown.1
      have hback := hown.2 pre (List.prefix_append _ _)
      rw [hbackx] at hcallx
      rw [hbacky] at hcally
      have hzero : occurrences id (batchContents none) = 0 := rfl
      have hempty : occurrences id (new mode).stored = 0 := rfl
      simp only [occurrences_add] at hcallx hcally
      simp only [pushed, sum_map_append, List.map_cons, List.sum_cons] at hone
      simp only [pushed, flushedOut, handedBack] at hle hlemid hback hnone
      omega

theorem removed_pos {id : EventId} {c : Uuid}
    (hin : ∃ qe, (qe ∈ q.entry c ∨ qe ∈ (q.withheldNativeSteer.lookup c).getD []) ∧
      qe.event.id = id) : 0 < occurrences id (q.removed c id.toHex) := by
  obtain ⟨qe, hmem, hid⟩ := hin
  have hhas : hasId id.toHex qe = true := by
    rw [hasId, hid]
    exact beq_self_eq_true _
  apply occurrences_pos.mpr
  refine ⟨qe, ?_, hid⟩
  rw [removed, Multiset.mem_add]
  rcases hmem with hqueued | hwithheld
  · exact .inr (Multiset.mem_coe.mpr (List.mem_filter.mpr ⟨hqueued, hhas⟩))
  · exact .inl (Multiset.mem_coe.mpr (List.mem_filter.mpr ⟨hwithheld, hhas⟩))

/-- Once an event is taken out of its queue no flush gives it out. -/
theorem Run.removed_for_good {id : EventId} {pre post : List Call} {c : Uuid}
    (hpre : Run (new mode) pre q) (hstep : q.Step (.removeEvent c id.toHex) out q')
    (hpost : Run q' post q'')
    (hown : OwnedOnce id (pre ++ (.removeEvent c id.toHex, out) :: post))
    (hin : ∃ qe, (qe ∈ q.entry c ∨ qe ∈ (q.withheldNativeSteer.lookup c).getD []) ∧
      qe.event.id = id) : ∀ y ∈ post, ¬Holds id y.2.flushed := by
  intro y hy hholds
  obtain ⟨mid, rest, rfl⟩ := List.append_of_mem hy
  obtain ⟨q₁, hmid, hrest⟩ := hpost.split
  obtain ⟨opy, outy⟩ := y
  cases hrest with
  | cons hstepy _ =>
    have hkeyed := hpre.keyed (keyed_new mode)
    have hle := hpre.occurrences_le id (keyed_new mode)
    have hremove := congrArg (occurrences id) (hstep.stored hkeyed)
    have hlemid := hmid.occurrences_le id (hstep.keyed hkeyed)
    have hcally := congrArg (occurrences id) (hstepy.stored (hmid.keyed (hstep.keyed hkeyed)))
    obtain ⟨hbacky, hposy⟩ := hstepy.flush_of_holds hholds
    have hone := hown.1
    have hback := hown.2 (pre ++ (.removeEvent c id.toHex, out) :: mid)
      ⟨(opy, outy) :: rest, by rw [List.append_assoc, List.cons_append]⟩
    have hgone := removed_pos hin
    have hzero : occurrences id (batchContents none) = 0 := rfl
    have hempty : occurrences id (new mode).stored = 0 := rfl
    rw [hbacky] at hcally
    simp only [discarded, occurrences_add] at hremove
    simp only [occurrences_add] at hcally
    simp only [pushed, sum_map_append, List.map_cons, List.sum_cons] at hone
    simp only [flushedOut, handedBack, sum_map_append, List.map_cons, List.sum_cons] at hback
    simp only [pushed, flushedOut, handedBack] at hle hlemid
    change _ = _ + _ + occurrences id (batchContents none) at hremove
    change _ + (occurrences id (batchContents none) + _) ≤ _ at hback
    omega

theorem mem_expireChannels (ids : List Uuid) (c : Uuid) :
    c ∈ (q.expireChannels ids).1.inFlightChannels ↔ c ∈ q.inFlightChannels ∧ c ∉ ids := by
  induction ids generalizing q with
  | nil => simp [expireChannels]
  | cons id ids ih =>
    have hone : (q.expireChannel id).1.inFlightChannels = q.inFlightChannels.erase id := by
      rw [expireChannel, recoverWithheldForExpiredChannel]
      split
      · rfl
      · rfl
    have hcons : c ∈ (q.expireChannels (id :: ids)).1.inFlightChannels ↔
        c ∈ ((q.expireChannel id).1.expireChannels ids).1.inFlightChannels := Iff.rfl
    rw [hcons, ih, hone, Finset.mem_erase, List.mem_cons, not_or]
    exact ⟨fun h => ⟨h.1.2, h.1.1, h.2⟩, fun h => ⟨⟨h.2.1, h.1⟩, h.2.2⟩⟩

theorem minByKey_mem {l : List α} (h : minByKey key l = some a) : a ∈ l := by
  induction l generalizing a with
  | nil => cases h
  | cons b l ih =>
    rw [minByKey] at h
    split at h
    · cases h
      exact List.mem_cons_self
    · rename_i d hd
      split at h
      · cases h
        exact List.mem_cons_self
      · cases h
        exact List.mem_cons_of_mem _ (ih hd)

/-- The channel of a flushed batch was not in flight when it was picked. -/
theorem flushReady_channel (h : (q.flushReady now).2 = some b) :
    b.channelId ∉ q.inFlightChannels := by
  rw [flushReady] at h
  split at h
  · rename_i id hid
    cases h
    obtain ⟨⟨c, age⟩, hmin, rfl⟩ := Option.map_eq_some_iff.mp hid
    obtain ⟨⟨d, queue⟩, _, hcand⟩ := List.mem_filterMap.mp (minByKey_mem hmin)
    cases queue with
    | nil => cases hcand
    | cons qe queue =>
      dsimp only at hcand
      split at hcand
      · rename_i hready
        cases hcand
        rw [isReady, Bool.and_eq_true, decide_eq_true_eq] at hready
        exact hready.1
      · cases hcand
  · split at h
    · rename_i id hid
      cases h
      rw [cancelledChannel] at hid
      have hfree := List.find?_some hid
      exact of_decide_eq_true hfree
    · cases h

/-- A channel in flight is flushed only by a call that finds its deadline passed. -/
theorem Step.flush_in_flight (hstep : q.Step (.flushNext now) out q') (hb : out.flushed = some b)
    (hin : b.channelId ∈ q.inFlightChannels) :
    ∃ deadline, q.inFlightDeadlines.lookup b.channelId = some deadline ∧ deadline ≤ now := by
  obtain ⟨q₁, hr, happly⟩ := hstep
  have hflushed : ((q₁.expireInFlight now).1.flushReady now).2 = some b := by
    have hout : out = (q₁.apply (.flushNext now)).2 := by rw [happly]
    rw [hout] at hb
    exact hb
  have hfree := flushReady_channel hflushed
  rw [expireInFlight, mem_expireChannels, hr.inFlightChannels, not_and, not_not] at hfree
  obtain ⟨⟨c, deadline⟩, hentry, hc⟩ := List.mem_map.mp (hfree hin)
  rw [List.mem_filter, decide_eq_true_eq] at hentry
  have hlookup : q₁.inFlightDeadlines.lookup c = some deadline := AList.mem_lookup_iff.mpr hentry.1
  have hc' : c = b.channelId := hc
  rw [← AList.perm_lookup hr.inFlightDeadlines] at hlookup
  exact ⟨deadline, hc' ▸ hlookup, hentry.2⟩

/-- In every run an event that is owned once is given out once between two hand-backs and never
after its removal, and a channel in flight is flushed only past its deadline. -/
theorem dispatched_once (mode : DedupMode) (id : EventId) :
    (∀ pre x mid y post q, Run (new mode) (pre ++ x :: (mid ++ y :: post)) q →
      OwnedOnce id (pre ++ x :: (mid ++ y :: post)) →
      Holds id x.2.flushed → Holds id y.2.flushed → ∃ z ∈ mid, Holds id z.1.handed) ∧
    (∀ pre c out post q q' q'', Run (new mode) pre q →
      q.Step (.removeEvent c id.toHex) out q' → Run q' post q'' →
      OwnedOnce id (pre ++ (.removeEvent c id.toHex, out) :: post) →
      (∃ qe, (qe ∈ q.entry c ∨ qe ∈ (q.withheldNativeSteer.lookup c).getD []) ∧
        qe.event.id = id) → ∀ y ∈ post, ¬Holds id y.2.flushed) ∧
    ∀ calls q now out q' b, Run (new mode) calls q → q.Step (.flushNext now) out q' →
      out.flushed = some b → b.channelId ∈ q.inFlightChannels →
      ∃ deadline, q.inFlightDeadlines.lookup b.channelId = some deadline ∧ deadline ≤ now :=
  ⟨fun _ _ _ _ _ _ hrun hown hx hy => hrun.handed_between hown hx hy,
    fun _ _ _ _ _ _ _ hpre hstep hpost hown hin => hpre.removed_for_good hstep hpost hown hin,
    fun _ _ _ _ _ _ _ hstep hb hin => hstep.flush_in_flight hb hin⟩

/-- The calls of a queue whose tables keep their order. -/
def calls (q : EventQueue) : List QueueOp → List Call
  | [] => []
  | op :: ops => (op, (q.apply op).2) :: (q.apply op).1.calls ops

def after (q : EventQueue) : List QueueOp → EventQueue
  | [] => q
  | op :: ops => (q.apply op).1.after ops

theorem run_calls (q : EventQueue) (ops : List QueueOp) : Run q (q.calls ops) (q.after ops) := by
  induction ops generalizing q with
  | nil => exact .nil
  | cons op ops ih => exact .cons ⟨q, .refl _, rfl⟩ (ih _)

namespace DispatchExample

open Session.LossExample

/-- A second message comes in during the turn, which then runs past its deadline. -/
def late : EventQueue :=
  (new .queue).after [.push (message 1), .flushNext 10, .push (message 2)]

def overdue : Instant := 10 + fromSecs DEFAULT_IN_FLIGHT_DEADLINE_SECS

def second : FlushBatch := ⟨channel, [(message 2).toBatch], [], none⟩

/-- The batch of the first message goes back twice, once throttled and once as cancelled. -/
def twiceBack : List QueueOp :=
  [.push (message 1), .flushNext 10, .requeue 20 fromSecs first, .requeueAsCancelled first .steer,
    .markComplete 20 channel]

def backTwice : EventQueue := (new .queue).after twiceBack

def again : EventQueue :=
  (backTwice.apply (.flushNext 21)).1.after [.markComplete 22 channel]

theorem late_overdue :
    channel ∈ late.inFlightChannels ∧ (late.apply (.flushNext overdue)).2.flushed = some second := by
  decide +kernel

theorem given_out_twice :
    0 < occurrences (message 1).event.id
        (batchContents (backTwice.apply (.flushNext 21)).2.flushed) ∧
      0 < occurrences (message 1).event.id
        (batchContents (again.apply (.flushNext overdue)).2.flushed) := by
  decide +kernel

end DispatchExample

open Session.LossExample DispatchExample

/-- A flush past the deadline gives out a batch for a channel in flight, and a batch that goes
back twice is given out twice. -/
theorem dispatched_twice :
    (∃ calls q out q', Run (new .queue) calls q ∧ channel ∈ q.inFlightChannels ∧
      q.Step (.flushNext overdue) out q' ∧ out.flushed = some second) ∧
    ∃ pre x mid y q, Run (new .queue) (pre ++ x :: (mid ++ [y])) q ∧
      pushed (message 1).event.id (pre ++ x :: (mid ++ [y])) = 1 ∧
      Holds (message 1).event.id x.2.flushed ∧ Holds (message 1).event.id y.2.flushed ∧
      ∀ z ∈ mid, z.1.handed = none := by
  have hlate : late.Step (.flushNext overdue) (late.apply (.flushNext overdue)).2
      (late.apply (.flushNext overdue)).1 := ⟨late, .refl _, rfl⟩
  refine ⟨⟨_, late, _, _, run_calls _ _, late_overdue.1, hlate, late_overdue.2⟩, ?_⟩
  have hmid : Run (backTwice.apply (.flushNext 21)).1
      ((backTwice.apply (.flushNext 21)).1.calls [.markComplete 22 channel]) again := run_calls _ _
  have hx : backTwice.Step (.flushNext 21) (backTwice.apply (.flushNext 21)).2
      (backTwice.apply (.flushNext 21)).1 := ⟨backTwice, .refl _, rfl⟩
  have hy : again.Step (.flushNext overdue) (again.apply (.flushNext overdue)).2
      (again.apply (.flushNext overdue)).1 := ⟨again, .refl _, rfl⟩
  have hback : Run (new .queue) ((new .queue).calls twiceBack) backTwice := run_calls _ _
  have hrun := hback.append (.cons hx (hmid.append (.cons hy .nil)))
  refine ⟨_, _, _, _, _, hrun, ?_, occurrences_pos.mp given_out_twice.1,
    occurrences_pos.mp given_out_twice.2, ?_⟩
  · decide +kernel
  · intro z hz
    rw [List.mem_singleton.mp hz]
    rfl

/-- The late turn's deadline has passed when its channel is flushed again. -/
theorem dispatched_once_late :
    ∃ deadline, late.inFlightDeadlines.lookup channel = some deadline ∧ deadline ≤ overdue := by
  have hrun : Run (new .queue)
      ((new .queue).calls [.push (message 1), .flushNext 10, .push (message 2)]) late :=
    run_calls _ _
  have hstep : late.Step (.flushNext overdue) (late.apply (.flushNext overdue)).2
      (late.apply (.flushNext overdue)).1 := ⟨late, .refl _, rfl⟩
  exact (dispatched_once .queue (message 1).event.id).2.2 _ _ _ _ _ second hrun hstep
    late_overdue.2 late_overdue.1

end EventQueue

end Buzz
