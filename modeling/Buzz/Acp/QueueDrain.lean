import Buzz.Acp.QueueTables

namespace Buzz
set_option autoImplicit true

namespace EventQueue

variable {q q' : EventQueue} {c d : Uuid}

def cancelledEvents (q : EventQueue) (channelId : Uuid) : List BatchEvent :=
  (q.cancelledBatches.lookup channelId).getD []

def withheldEvents (q : EventQueue) (channelId : Uuid) : List QueuedEvent :=
  (q.withheldNativeSteer.lookup channelId).getD []

/-- The ids of the events of a channel in the three tables. -/
def heldIds (q : EventQueue) (channelId : Uuid) : Multiset String :=
  ((q.entry channelId).map fun qe => qe.event.id.toHex : List String) +
    ((q.cancelledEvents channelId).map fun be => be.event.id.toHex : List String) +
    ((q.withheldEvents channelId).map fun qe => qe.event.id.toHex : List String)

/-- What a queue knows of a channel is the same. -/
structure SameChannel (q q' : EventQueue) (channelId : Uuid) : Prop where
  queues : q'.queues.lookup channelId = q.queues.lookup channelId
  retryAfter : q'.retryAfter.lookup channelId = q.retryAfter.lookup channelId
  retryCounts : q'.retryCounts.lookup channelId = q.retryCounts.lookup channelId
  cancelledBatches : q'.cancelledBatches.lookup channelId = q.cancelledBatches.lookup channelId
  cancelReasons : q'.cancelReasons.lookup channelId = q.cancelReasons.lookup channelId
  withheldNativeSteer :
    q'.withheldNativeSteer.lookup channelId = q.withheldNativeSteer.lookup channelId

/-- The bookkeeping of what is in flight is the same. -/
structure SameFlight (q q' : EventQueue) : Prop where
  channels : q'.inFlightChannels = q.inFlightChannels
  deadlines : q'.inFlightDeadlines = q.inFlightDeadlines
  batchSizes : q'.inFlightBatchSizes = q.inFlightBatchSizes
  deadline : q'.inFlightDeadline = q.inFlightDeadline

theorem sameChannel_drainChannel (q : EventQueue) (h : d ≠ c) :
    SameChannel q (q.drainChannel c).1 d :=
  ⟨AList.lookup_erase_ne h, AList.lookup_erase_ne h, AList.lookup_erase_ne h,
    AList.lookup_erase_ne h, AList.lookup_erase_ne h, AList.lookup_erase_ne h⟩

theorem sameFlight_drainChannel (q : EventQueue) (c : Uuid) : SameFlight q (q.drainChannel c).1 :=
  ⟨rfl, rfl, rfl, rfl⟩

theorem heldIds_drainChannel (q : EventQueue) (c : Uuid) : (q.drainChannel c).1.heldIds c = 0 := by
  have hentry : (q.drainChannel c).1.entry c = [] := by
    change ((q.queues.erase c).lookup c).getD [] = []
    rw [AList.lookup_erase, Option.getD_none]
  have hcancelled : (q.drainChannel c).1.cancelledEvents c = [] := by
    change ((q.cancelledBatches.erase c).lookup c).getD [] = []
    rw [AList.lookup_erase, Option.getD_none]
  have hwithheld : (q.drainChannel c).1.withheldEvents c = [] := by
    change ((q.withheldNativeSteer.erase c).lookup c).getD [] = []
    rw [AList.lookup_erase, Option.getD_none]
  rw [heldIds, hentry, hcancelled, hwithheld]
  rfl

/-- The drain reports what it discards, leaves nothing of the channel and touches nothing else. -/
structure DrainReported (q : EventQueue) (channelId : Uuid) : Prop where
  reported : ((q.drainChannel channelId).2 : Multiset String) = q.heldIds channelId
  gone : (q.drainChannel channelId).1.heldIds channelId = 0
  others : ∀ d, d ≠ channelId → SameChannel q (q.drainChannel channelId).1 d
  flight : SameFlight q (q.drainChannel channelId).1

/-- The drain of a channel reports everything exactly if the channel has no cancelled events and
none that wait for a native steer. -/
theorem drainReported_iff (q : EventQueue) (channelId : Uuid) :
    DrainReported q channelId ↔
      q.cancelledEvents channelId = [] ∧ q.withheldEvents channelId = [] := by
  have hids : ((q.drainChannel channelId).2 : Multiset String) =
      ((q.entry channelId).map fun qe => qe.event.id.toHex : List String) := rfl
  constructor
  · intro h
    have hreported := h.reported
    rw [hids, heldIds, add_assoc, left_eq_add, add_eq_zero, Multiset.coe_eq_zero,
      Multiset.coe_eq_zero, List.map_eq_nil_iff, List.map_eq_nil_iff] at hreported
    exact hreported
  · rintro ⟨hcancelled, hwithheld⟩
    refine ⟨?_, q.heldIds_drainChannel channelId, fun d hd => q.sameChannel_drainChannel hd,
      q.sameFlight_drainChannel channelId⟩
    rw [hids, heldIds, hcancelled, hwithheld, List.map_nil, List.map_nil, Multiset.coe_nil,
      add_zero, add_zero]

open Session.LossExample

/-- The events of an interrupted turn are discarded without a word. -/
theorem drain_forgets_cancelled :
    ¬∀ (mode : DedupMode) (ops : List QueueOp) (q : EventQueue) (channelId : Uuid),
      Reaches mode ops q → DrainReported q channelId := by
  intro h
  have hone : Reaches .queue _ one := Reaches.new.apply (.push (message 1))
  have hcancelled : Reaches .queue _ ((one.flushNext 10).1.requeueAsCancelled first .steer) :=
    (hone.apply (.flushNext 10)).apply (.requeueAsCancelled first .steer)
  have hinterrupted : Reaches .queue _ interrupted := hcancelled.apply (.markComplete 20 channel)
  have hreported := (h .queue _ interrupted channel hinterrupted).reported
  revert hreported
  decide +kernel

end EventQueue

end Buzz
