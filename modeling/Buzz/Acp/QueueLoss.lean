import Buzz.Acp.QueueLedger

namespace Buzz
set_option autoImplicit true

/-- Events are meant to go: their channel or they themselves are taken out of the queue. -/
def QueueOp.takesOut : QueueOp → Bool
  | .drainChannel _ => true
  | .removeEvent _ _ => true
  | _ => false

/-- A batch that goes back to its queue has no cancelled events. -/
def EventQueue.KeepsCancelled (q : EventQueue) : QueueOp → Prop
  | .requeue _ _ b => b.cancelledEvents = [] ∨ MAX_RETRIES < q.attempt b.channelId
  | .requeuePreserveTimestamps b => b.cancelledEvents = []
  | _ => True

def Outcome.taken (out : Outcome) : Multiset QueuedEvent :=
  out.accepted.elim 0 ({·})

/-- The events that the cap evicts and those of a dead-lettered batch. -/
def Outcome.given (out : Outcome) : Multiset QueuedEvent :=
  (out.dropped : List QueuedEvent) + batchContents out.deadLettered

theorem EventQueue.discarded_eq_given {q : EventQueue} {op : QueueOp} (out : Outcome)
    (hop : op.takesOut = false) (hkeep : q.KeepsCancelled op) : q.discarded op out = out.given := by
  cases op with
  | drainChannel c => cases hop
  | removeEvent c eventId => cases hop
  | requeue now jittered b =>
    rw [discarded, Outcome.given]
    split
    · rw [add_zero]
    · rename_i hretry
      have hnil : b.cancelledEvents = [] := hkeep.resolve_right hretry
      rw [hnil, onChannel_nil, add_zero]
  | requeuePreserveTimestamps b =>
    have hnil : b.cancelledEvents = [] := hkeep
    rw [discarded, Outcome.given, hnil, onChannel_nil, add_zero]
  | _ => exact add_zero _

namespace Session

/-- A run of operations that take nothing out and lose no cancelled events. -/
inductive KeepingRun : Session → List Outcome → Session → Prop where
  | nil : KeepingRun s [] s
  | cons {s t u : Session} {op : QueueOp} {out : Outcome} (hop : op.takesOut = false) (hkeep : s.queue.KeepsCancelled op) (hstep : s.Step op out t)
    (hrun : KeepingRun t outs u) : KeepingRun s (out :: outs) u

theorem Reachable.apply (h : Reachable dedupMode s) (op : QueueOp)
    (hl : LedgerStep s.queue (s.queue.apply op).2 op s.ledger l) :
    Reachable dedupMode ⟨(s.queue.apply op).1, l⟩ :=
  h.step ⟨s.queue, .refl _, rfl, hl⟩

namespace LossExample

def channel : Uuid := HexId.ofNat 32 10

def message (id : Nat) : QueuedEvent :=
  ⟨channel, ⟨HexId.ofNat 64 id, HexId.ofNat 64 1, 1000, 9, []⟩, id, "mention", false⟩

def first : FlushBatch := ⟨channel, [(message 1).toBatch], [], none⟩

/-- The second message steers the work on the first one. -/
def merged : FlushBatch := ⟨channel, [(message 2).toBatch], [(message 1).toBatch], some .steer⟩

def one : EventQueue := ((EventQueue.new .queue).push (message 1)).1

def interrupted : EventQueue :=
  ((one.flushNext 10).1.requeueAsCancelled first .steer).markComplete 20 channel

def two : EventQueue := (interrupted.push (message 2)).1

/-- The merged batch is out when the pool turns out to be exhausted. -/
def exhausted : Session := ⟨(two.flushNext 30).1, [⟨merged, .inFlight⟩]⟩

def requeued : Session := ⟨(exhausted.queue.requeuePreserveTimestamps merged).1, []⟩

theorem flush_first : (one.flushNext 10).2.2 = some first := by
  decide +kernel

theorem flush_merged : (two.flushNext 30).2.2 = some merged := by
  decide +kernel

theorem reachable_exhausted : Reachable .queue exhausted := by
  have hone : Reachable .queue ⟨one, []⟩ :=
    Reachable.new.apply (.push (message 1)) (.keep rfl nofun nofun nofun)
  have hfirst : Reachable .queue ⟨(one.flushNext 10).1, [⟨first, .inFlight⟩]⟩ :=
    hone.apply (.flushNext 10) (.flushed flush_first)
  have hcancelled : Reachable .queue ⟨(one.flushNext 10).1.requeueAsCancelled first .steer, []⟩ :=
    hfirst.apply (.requeueAsCancelled first .steer) (.handBack [] ⟨first, .inFlight⟩ [] rfl)
  have hinterrupted : Reachable .queue ⟨interrupted, []⟩ :=
    hcancelled.apply (.markComplete 20 channel) .complete
  have htwo : Reachable .queue ⟨two, []⟩ :=
    hinterrupted.apply (.push (message 2)) (.keep rfl nofun nofun nofun)
  exact htwo.apply (.flushNext 30) (.flushed flush_merged)

theorem step_requeued :
    exhausted.Step (.requeuePreserveTimestamps merged) (.dropping []) requeued := by
  refine ⟨exhausted.queue, .refl _, ?_, .handBack [] ⟨merged, .inFlight⟩ [] rfl⟩
  have hdropped : (exhausted.queue.requeuePreserveTimestamps merged).2 = [] := by decide +kernel
  rw [EventQueue.apply, hdropped]
  rfl

end LossExample

open LossExample

end Session

end Buzz
