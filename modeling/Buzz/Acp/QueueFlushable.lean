import Buzz.Acp.QueueTables

namespace Buzz
set_option autoImplicit true

namespace EventQueue
variable {q q' q₁ q₂ : EventQueue}

/-- The answer of `has_flushable_work` on the tables as they are, without an expiry. -/
def flushableNow (q : EventQueue) (now : Instant) : Bool :=
  q.queues.entries.any (fun e => !e.2.isEmpty && q.isReady now e.1) ||
    q.cancelledBatches.keys.any fun id => decide (id ∉ q.inFlightChannels)

theorem Reordered.symm (h : Reordered q q') : Reordered q' q :=
  ⟨h.queues.symm, h.inFlightChannels.symm, h.inFlightDeadlines.symm, h.inFlightBatchSizes.symm,
    h.retryAfter.symm, h.retryCounts.symm, h.dedupMode.symm, h.cancelledBatches.symm,
    h.cancelReasons.symm, h.withheldNativeSteer.symm, h.inFlightDeadline.symm⟩

theorem Reordered.trans (h : Reordered q q₁) (h' : Reordered q₁ q₂) : Reordered q q₂ :=
  ⟨h.queues.trans h'.queues, h'.inFlightChannels.trans h.inFlightChannels,
    h.inFlightDeadlines.trans h'.inFlightDeadlines,
    h.inFlightBatchSizes.trans h'.inFlightBatchSizes, h.retryAfter.trans h'.retryAfter,
    h.retryCounts.trans h'.retryCounts, h'.dedupMode.trans h.dedupMode,
    h.cancelledBatches.trans h'.cancelledBatches, h.cancelReasons.trans h'.cancelReasons,
    h.withheldNativeSteer.trans h'.withheldNativeSteer,
    h'.inFlightDeadline.trans h.inFlightDeadline⟩

theorem Reordered.isReady (h : Reordered q q') (now : Instant) (c : Uuid) :
    q'.isReady now c = q.isReady now c := by
  rw [EventQueue.isReady, EventQueue.isReady, h.inFlightChannels, AList.perm_lookup h.retryAfter]

theorem Reordered.entry (h : Reordered q q') (c : Uuid) : q'.entry c = q.entry c := by
  rw [EventQueue.entry, EventQueue.entry, AList.perm_lookup h.queues]

theorem Reordered.flushableNow (h : Reordered q q') (now : Instant) :
    q'.flushableNow now = q.flushableNow now := by
  have hready : (fun e : Sigma fun _ : Uuid => List QueuedEvent =>
      !e.2.isEmpty && q'.isReady now e.1) = fun e => !e.2.isEmpty && q.isReady now e.1 := by
    funext e
    rw [h.isReady]
  have hkeys : q.cancelledBatches.keys.Perm q'.cancelledBatches.keys :=
    h.cancelledBatches.map Sigma.fst
  rw [EventQueue.flushableNow, EventQueue.flushableNow, hready, h.inFlightChannels,
    h.queues.any_eq, hkeys.any_eq]

/-- The queues after the withheld events of a channel went back to them. -/
def recoveredQueues (q : EventQueue) (c : Uuid) : Table Uuid (List QueuedEvent) :=
  match q.withheldNativeSteer.lookup c with
  | none => q.queues
  | some entries => q.queues.insert c (capQueue (entries ++ q.entry c)).1

theorem expireChannel_eq (q : EventQueue) (c : Uuid) :
    (q.expireChannel c).1 =
      { q with
        inFlightBatchSizes := q.inFlightBatchSizes.erase c
        inFlightChannels := q.inFlightChannels.erase c
        inFlightDeadlines := q.inFlightDeadlines.erase c
        withheldNativeSteer := q.withheldNativeSteer.erase c
        queues := q.recoveredQueues c } := by
  rw [expireChannel, recoverWithheldForExpiredChannel, recoveredQueues]
  dsimp only
  cases hw : q.withheldNativeSteer.lookup c with
  | none =>
    dsimp only
    rw [Table.erase_of_lookup_eq_none hw]
  | some entries => rfl

theorem Reordered.expireChannel (h : Reordered q q') (c : Uuid) :
    Reordered (q.expireChannel c).1 (q'.expireChannel c).1 := by
  have hqueues : (q.recoveredQueues c).entries.Perm (q'.recoveredQueues c).entries := by
    rw [recoveredQueues, recoveredQueues, ← AList.perm_lookup h.withheldNativeSteer, h.entry]
    split
    · exact h.queues
    · exact AList.perm_insert h.queues
  rw [expireChannel_eq, expireChannel_eq]
  refine ⟨hqueues, ?_, AList.perm_erase h.inFlightDeadlines, AList.perm_erase h.inFlightBatchSizes,
    h.retryAfter, h.retryCounts, h.dedupMode, h.cancelledBatches, h.cancelReasons,
    AList.perm_erase h.withheldNativeSteer, h.inFlightDeadline⟩
  exact congrArg (Finset.erase · c) h.inFlightChannels

theorem lookup_recoveredQueues (q : EventQueue) (hne : d ≠ c) :
    (q.recoveredQueues c).lookup d = q.queues.lookup d := by
  rw [recoveredQueues]
  split
  · rfl
  · exact AList.lookup_insert_ne hne

/-- What an expired channel gets back does not depend on a channel that expired before it. -/
theorem recoveredQueues_expireChannel (q : EventQueue) (hne : d ≠ c) :
    (q.expireChannel c).1.recoveredQueues d =
      match q.withheldNativeSteer.lookup d with
      | none => q.recoveredQueues c
      | some entries => (q.recoveredQueues c).insert d (capQueue (entries ++ q.entry d)).1 := by
  rw [expireChannel_eq, recoveredQueues, entry, entry]
  dsimp only
  rw [AList.lookup_erase_ne hne, lookup_recoveredQueues q hne]

theorem recoveredQueues_comm (q : EventQueue) (hne : c ≠ d) :
    ((q.expireChannel c).1.recoveredQueues d).entries.Perm
      ((q.expireChannel d).1.recoveredQueues c).entries := by
  rw [recoveredQueues_expireChannel q hne.symm, recoveredQueues_expireChannel q hne,
    recoveredQueues, recoveredQueues]
  cases q.withheldNativeSteer.lookup c with
  | none => cases q.withheldNativeSteer.lookup d <;> exact .refl _
  | some es =>
    cases q.withheldNativeSteer.lookup d with
    | none => exact .refl _
    | some es' => exact AList.insert_insert_of_ne _ hne

/-- Two channels expire in either order. -/
theorem expireChannel_comm (q : EventQueue) (c d : Uuid) :
    Reordered ((q.expireChannel c).1.expireChannel d).1
      ((q.expireChannel d).1.expireChannel c).1 := by
  by_cases hne : c = d
  · subst hne
    exact .refl _
  · have hqueues := recoveredQueues_comm q hne
    rw [expireChannel_eq (q.expireChannel c).1 d, expireChannel_eq (q.expireChannel d).1 c]
    rw [expireChannel_eq q c, expireChannel_eq q d] at hqueues ⊢
    refine ⟨hqueues, Finset.erase_right_comm, ?_, ?_, .refl _, .refl _, rfl, .refl _, .refl _, ?_,
      rfl⟩
    · exact .of_eq (congrArg AList.entries (AList.erase_erase c d _))
    · exact .of_eq (congrArg AList.entries (AList.erase_erase c d _))
    · exact .of_eq (congrArg AList.entries (AList.erase_erase c d _))

theorem Reordered.expireChannels (h : Reordered q q') (ids : List Uuid) :
    Reordered (q.expireChannels ids).1 (q'.expireChannels ids).1 := by
  induction ids generalizing q q' with
  | nil => exact h
  | cons c ids ih => exact ih (h.expireChannel c)

/-- The channels expire in any order. -/
theorem expireChannels_perm (q : EventQueue) (hids : ids.Perm ids') :
    Reordered (q.expireChannels ids).1 (q.expireChannels ids').1 := by
  induction hids generalizing q with
  | nil => exact .refl q
  | cons c _ ih => exact ih (q.expireChannel c).1
  | swap c d ids => exact (q.expireChannel_comm d c).expireChannels ids
  | trans _ _ ih ih' => exact (ih q).trans (ih' q)

theorem Reordered.expireInFlight (h : Reordered q q') (now : Instant) :
    Reordered (q.expireInFlight now).1 (q'.expireInFlight now).1 := by
  have hexpired : (q.expired now).Perm (q'.expired now) := (h.inFlightDeadlines.filter _).map _
  exact (q.expireChannels_perm hexpired).trans (h.expireChannels _)

/-- The answer of `has_flushable_work` is about the tables that the expiry leaves. -/
theorem hasFlushableWork_eq (q : EventQueue) (now : Instant) :
    (q.hasFlushableWork now).2.2 = (q.expireInFlight now).1.flushableNow now :=
  rfl

theorem minByKey_eq_none {key : α → Nat} {l : List α} : minByKey key l = none ↔ l = [] := by
  cases l with
  | nil => exact ⟨fun _ => rfl, fun _ => rfl⟩
  | cons a l =>
    rw [minByKey]
    split
    · exact ⟨nofun, nofun⟩
    · split <;> exact ⟨nofun, nofun⟩

theorem oldestChannel_eq_none (now : Instant) :
    q.oldestChannel now = none ↔
      q.queues.entries.any (fun e => !e.2.isEmpty && q.isReady now e.1) = false := by
  rw [oldestChannel, Option.map_eq_none_iff, minByKey_eq_none, candidates,
    List.filterMap_eq_nil_iff, List.any_eq_false]
  apply forall₂_congr
  intro e _
  cases e.2 with
  | nil => simp
  | cons qe l => simp

theorem cancelledChannel_eq_none :
    q.cancelledChannel = none ↔
      q.cancelledBatches.keys.any (fun id => decide (id ∉ q.inFlightChannels)) = false := by
  rw [cancelledChannel, List.find?_eq_none, List.any_eq_false]

/-- There is a batch to flush exactly if the tables say so. -/
theorem flushReady_isSome (q : EventQueue) (now : Instant) :
    (q.flushReady now).2.isSome = q.flushableNow now := by
  rw [flushReady, flushableNow]
  cases hqueued : q.oldestChannel now with
  | some id =>
    have hany := (oldestChannel_eq_none now).not.mp (Option.ne_none_iff_exists'.mpr ⟨id, hqueued⟩)
    rw [Bool.not_eq_false] at hany
    rw [hany]
    rfl
  | none =>
    rw [(oldestChannel_eq_none now).mp hqueued, Bool.false_or]
    cases hcancelled : q.cancelledChannel with
    | some id =>
      have hany := cancelledChannel_eq_none.not.mp (Option.ne_none_iff_exists'.mpr ⟨id, hcancelled⟩)
      rw [Bool.not_eq_false] at hany
      rw [hany]
      rfl
    | none =>
      rw [cancelledChannel_eq_none.mp hcancelled]
      rfl

theorem isReady_notMem (h : q.isReady now c = true) : c ∉ q.inFlightChannels := by
  rw [isReady, Bool.and_eq_true] at h
  exact of_decide_eq_true h.1

/-- What can be flushed is undispatched. -/
theorem hasUndispatchedWork_of_flushableNow (h : q.flushableNow now = true) :
    q.hasUndispatchedWork = true := by
  rw [flushableNow, Bool.or_eq_true] at h
  rw [hasUndispatchedWork, Bool.or_eq_true, Bool.or_eq_true]
  apply Or.inl
  apply h.imp _ id
  intro hqueued
  rw [List.any_eq_true] at hqueued ⊢
  obtain ⟨e, he, hready⟩ := hqueued
  rw [Bool.and_eq_true] at hready
  refine ⟨e, he, ?_⟩
  rw [hready.1, Bool.true_and, decide_eq_true_eq]
  exact isReady_notMem hready.2

/-- On the same tables at the same time, whatever the order of iteration, the question finds work
exactly if the flush gives out a batch. Both leave the same tables after the expiry. What can be
flushed without an expiry is undispatched. -/
theorem flushable_iff_flushed (q q₁ q₂ : EventQueue) (now : Instant) (h₁ : q.Reordered q₁)
    (h₂ : q.Reordered q₂) :
    ((q₁.hasFlushableWork now).2.2 = true ↔ (q₂.flushNext now).2.2.isSome = true) ∧
    (q₁.hasFlushableWork now).1.Reordered (q₂.expireInFlight now).1 ∧
    q₂.flushNext now = (((q₂.expireInFlight now).1.flushReady now).1, (q₂.expireInFlight now).2,
      ((q₂.expireInFlight now).1.flushReady now).2) ∧
    (q₁.flushableNow now = true → q₂.hasUndispatchedWork = true) ∧
    (q₁.expired now = [] → (q₁.hasFlushableWork now).2.2 = q₁.flushableNow now) := by
  have h := h₁.symm.trans h₂
  have hexpired := h.expireInFlight now
  refine ⟨?_, hexpired, rfl, ?_, ?_⟩
  · rw [hasFlushableWork_eq, ← hexpired.flushableNow, ← flushReady_isSome]
    rfl
  · intro hnow
    apply hasUndispatchedWork_of_flushableNow
    exact (h.flushableNow now).trans hnow
  · intro hnone
    rw [hasFlushableWork_eq, expireInFlight, hnone, expireChannels]

open Session.LossExample

/-- A queue with one message has work, and its flush gives it out. -/
theorem flushable_iff_flushed_message :
    (one.hasFlushableWork 10).2.2 = true ∧ (one.flushNext 10).2.2.isSome = true ∧
      one.hasUndispatchedWork = true := by
  obtain ⟨hiff, _, _, hundispatched, _⟩ := flushable_iff_flushed one one one 10 (.refl _) (.refl _)
  have hflushed : (one.flushNext 10).2.2.isSome = true := by decide +kernel
  exact ⟨hiff.mpr hflushed, hflushed, hundispatched (by decide +kernel)⟩

end EventQueue

end Buzz
