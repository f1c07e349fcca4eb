import Buzz.Agent.Types
import Buzz.Lib.Table

namespace Buzz.Acp
set_option autoImplicit true
open Agent (PricingIdentity foldPricingIdentity)

/-- The payload of a `usage_update`: the counts of its session so far. -/
structure UsageUpdatePayload where
  accumulatedInputTokens : Option UInt64
  accumulatedOutputTokens : Option UInt64
  accumulatedCachedInputTokens : Option UInt64
  accumulatedCacheWriteTokens : Option UInt64
  accumulatedCost : Option Float
  accumulatedTotalTokens : Option UInt64
  model : Option String
  pricingIdentity : Option PricingIdentity

/-- What the next turn of a session is measured from. -/
structure SessionState where
  publishedSeq : UInt64
  lastInput : Option UInt64
  lastOutput : Option UInt64
  lastCost : Option Float
  lastTotal : Option UInt64
  lastCachedInput : Option UInt64
  lastCacheWrite : Option UInt64
  inputEverPoisoned : Bool
  outputEverPoisoned : Bool

namespace SessionState

/-- A session with no baseline. -/
def unknown : SessionState :=
  ⟨0, none, none, none, none, none, none, false, false⟩

/-- A session that has used nothing yet. -/
def zero : SessionState :=
  ⟨0, some 0, some 0, some 0, some 0, some 0, some 0, false, false⟩

/-- What was seen missing stays on record. -/
def latch (inputAbsent outputAbsent : Bool) (s : SessionState) : SessionState :=
  { s with
    inputEverPoisoned := s.inputEverPoisoned || inputAbsent
    outputEverPoisoned := s.outputEverPoisoned || outputAbsent }

def poisoned (s : SessionState) : Bool :=
  s.inputEverPoisoned || s.outputEverPoisoned

end SessionState

/-- What is published for a turn. -/
structure TurnUsage where
  sessionId : String
  turnSeq : UInt64
  deltaReliable : Bool
  turnInputTokens : Option UInt64
  turnOutputTokens : Option UInt64
  turnTotalTokens : Option UInt64
  turnCostUsd : Option Float
  turnCacheReadTokens : Option UInt64
  turnCacheWriteTokens : Option UInt64
  cumulativeInputTokens : Option UInt64
  cumulativeOutputTokens : Option UInt64
  cumulativeTotalTokens : Option UInt64
  cumulativeCostUsd : Option Float
  cumulativeCacheReadTokens : Option UInt64
  cumulativeCacheWriteTokens : Option UInt64
  model : Option String
  pricingIdentity : Option PricingIdentity

structure UsageTracker where
  sessions : Table String SessionState
  inFlightSession : Option String
  pending : Option TurnUsage
  pendingIdentity : Option (Option PricingIdentity)
  inputAbsenceObserved : Bool
  outputAbsenceObserved : Bool

/-- The part of a record that its baseline and its reliability decide. -/
structure TurnDelta where
  deltaReliable : Bool
  turnInput : Option UInt64
  turnOutput : Option UInt64
  turnCost : Option Float
  turnSeq : UInt64

def TurnDelta.unreliable (seq : UInt64) : TurnDelta :=
  ⟨false, none, none, none, seq⟩

/-- The cost since the baseline, and whether it lets the record be reliable. -/
def costDelta (current last : Option Float) : Option Float × Bool :=
  match current, last with
  | some c, some p => if p ≤ c then (some (c - p), true) else (none, false)
  | _, _ => (none, true)

def turnDelta (prev : Option SessionState) (inputAbsenceObserved outputAbsenceObserved : Bool)
    (payload : UsageUpdatePayload) : TurnDelta :=
  match prev with
  | none => .unreliable 1
  | some prev =>
    let seq := prev.publishedSeq + 1
    let inputPoisoned := prev.inputEverPoisoned || inputAbsenceObserved ||
      payload.accumulatedInputTokens.isNone
    let outputPoisoned := prev.outputEverPoisoned || outputAbsenceObserved ||
      payload.accumulatedOutputTokens.isNone
    if inputPoisoned || outputPoisoned then .unreliable seq
    else
      match payload.accumulatedInputTokens, payload.accumulatedOutputTokens, prev.lastInput,
        prev.lastOutput with
      | some ci, some co, some lastInput, some lastOutput =>
        if ci < lastInput ∨ co < lastOutput then .unreliable seq
        else
          match costDelta payload.accumulatedCost prev.lastCost with
          | (cost, true) => ⟨true, some (ci - lastInput), some (co - lastOutput), cost, seq⟩
          | (_, false) => .unreliable seq
      | _, _, _, _ => .unreliable seq

/-- The delta of one field: a field that is missing or goes back has none. -/
def fieldDelta (current last : Option UInt64) : Option UInt64 :=
  match current, last with
  | some cur, some p => if p ≤ cur then some (cur - p) else none
  | _, _ => none

namespace UsageTracker

def default : UsageTracker :=
  ⟨∅, none, none, none, false, false⟩

def entry (sessionId : String) (t : UsageTracker) : Option SessionState :=
  t.sessions.lookup sessionId

/-- Latch what was missing, with an entry for it where there is none. -/
def latchSession (sessionId : String) (inputAbsent outputAbsent : Bool) (t : UsageTracker) :
    UsageTracker :=
  { t with
    sessions := t.sessions.insert sessionId
      (((t.entry sessionId).getD .unknown).latch inputAbsent outputAbsent) }

/-- What the turn before has seen missing goes to its session. -/
def flush (t : UsageTracker) : UsageTracker :=
  if t.inputAbsenceObserved || t.outputAbsenceObserved then
    match t.inFlightSession with
    | some prevSession =>
      t.latchSession prevSession t.inputAbsenceObserved t.outputAbsenceObserved
    | none => t
  else t

def beginTurn (sessionId : String) (t : UsageTracker) : UsageTracker :=
  { t.flush with
    inFlightSession := some sessionId
    pending := none
    pendingIdentity := none
    inputAbsenceObserved := false
    outputAbsenceObserved := false }

/-- A notification of the turn in flight. -/
def recordInFlight (sessionId : String) (payload : UsageUpdatePayload) (t : UsageTracker) :
    UsageTracker :=
  let t := { t with
    inputAbsenceObserved := t.inputAbsenceObserved || payload.accumulatedInputTokens.isNone
    outputAbsenceObserved := t.outputAbsenceObserved || payload.accumulatedOutputTokens.isNone }
  let prev := t.entry sessionId
  let delta := turnDelta prev t.inputAbsenceObserved t.outputAbsenceObserved payload
  { t with
    pendingIdentity := foldPricingIdentity t.pendingIdentity payload.pricingIdentity
    pending := some
      { sessionId
        turnSeq := delta.turnSeq
        deltaReliable := delta.deltaReliable
        turnInputTokens := delta.turnInput
        turnOutputTokens := delta.turnOutput
        turnTotalTokens := prev.bind fun prev =>
          fieldDelta payload.accumulatedTotalTokens prev.lastTotal
        turnCostUsd := delta.turnCost
        turnCacheReadTokens := prev.bind fun prev =>
          fieldDelta payload.accumulatedCachedInputTokens prev.lastCachedInput
        turnCacheWriteTokens := prev.bind fun prev =>
          fieldDelta payload.accumulatedCacheWriteTokens prev.lastCacheWrite
        cumulativeInputTokens := payload.accumulatedInputTokens
        cumulativeOutputTokens := payload.accumulatedOutputTokens
        cumulativeTotalTokens := payload.accumulatedTotalTokens
        cumulativeCostUsd := payload.accumulatedCost
        cumulativeCacheReadTokens := payload.accumulatedCachedInputTokens
        cumulativeCacheWriteTokens := payload.accumulatedCacheWriteTokens
        model := payload.model
        -- the folded identity is written when the record is taken
        pricingIdentity := none } }

/-- What the delta of a notification decides of the pending record. -/
theorem pending_recordInFlight {delta : TurnDelta} (t : UsageTracker)
    (h : turnDelta (t.entry sessionId)
      (t.inputAbsenceObserved || payload.accumulatedInputTokens.isNone)
      (t.outputAbsenceObserved || payload.accumulatedOutputTokens.isNone) payload = delta) :
    ∃ record, (t.recordInFlight sessionId payload).pending = some record ∧
      record.turnSeq = delta.turnSeq ∧ record.deltaReliable = delta.deltaReliable ∧
      record.turnInputTokens = delta.turnInput ∧ record.turnOutputTokens = delta.turnOutput ∧
      record.turnCostUsd = delta.turnCost ∧
      record.cumulativeInputTokens = payload.accumulatedInputTokens ∧
      record.cumulativeOutputTokens = payload.accumulatedOutputTokens := by
  subst h
  exact ⟨_, rfl, rfl, rfl, rfl, rfl, rfl, rfl, rfl⟩

/-- A notification while no turn is in flight becomes the baseline. -/
def recordIdle (sessionId : String) (payload : UsageUpdatePayload) (t : UsageTracker) :
    UsageTracker :=
  let existing := (t.entry sessionId).getD .unknown
  { t with
    sessions := t.sessions.insert sessionId
      { publishedSeq := existing.publishedSeq
        lastInput := payload.accumulatedInputTokens
        lastOutput := payload.accumulatedOutputTokens
        lastCost := payload.accumulatedCost
        lastTotal := payload.accumulatedTotalTokens
        lastCachedInput := payload.accumulatedCachedInputTokens
        lastCacheWrite := payload.accumulatedCacheWriteTokens
        inputEverPoisoned := existing.inputEverPoisoned || payload.accumulatedInputTokens.isNone
        outputEverPoisoned :=
          existing.outputEverPoisoned || payload.accumulatedOutputTokens.isNone } }

/-- A notification while another session's turn is in flight: only what it lacks counts. -/
def recordOther (sessionId : String) (payload : UsageUpdatePayload) (t : UsageTracker) :
    UsageTracker :=
  let inputAbsent := payload.accumulatedInputTokens.isNone
  let outputAbsent := payload.accumulatedOutputTokens.isNone
  if inputAbsent || outputAbsent then t.latchSession sessionId inputAbsent outputAbsent else t

def record (sessionId : String) (payload : UsageUpdatePayload) (t : UsageTracker) : UsageTracker :=
  if t.inFlightSession = some sessionId then t.recordInFlight sessionId payload
  else if t.inFlightSession = none then t.recordIdle sessionId payload
  else t.recordOther sessionId payload

def seedZeroBaseline (sessionId : String) (t : UsageTracker) : UsageTracker :=
  match t.entry sessionId with
  | some _ => t
  | none => { t with sessions := t.sessions.insert sessionId .zero }

/-- The record of the turn in flight, which becomes the baseline. -/
def take (t : UsageTracker) : Option TurnUsage × UsageTracker :=
  let ended : UsageTracker := ⟨t.sessions, none, none, none, false, false⟩
  match t.pending with
  | none => (none, ended)
  | some pending =>
    let record := { pending with pricingIdentity := t.pendingIdentity.bind id }
    let existing := (t.entry record.sessionId).getD .unknown
    (some record,
      { ended with
        sessions := t.sessions.insert record.sessionId
          { publishedSeq := record.turnSeq
            lastInput := record.cumulativeInputTokens
            lastOutput := record.cumulativeOutputTokens
            lastCost := record.cumulativeCostUsd
            lastTotal := record.cumulativeTotalTokens
            lastCachedInput := record.cumulativeCacheReadTokens
            lastCacheWrite := record.cumulativeCacheWriteTokens
            inputEverPoisoned := existing.inputEverPoisoned || t.inputAbsenceObserved ||
              record.cumulativeInputTokens.isNone
            outputEverPoisoned := existing.outputEverPoisoned || t.outputAbsenceObserved ||
              record.cumulativeOutputTokens.isNone } })

end UsageTracker

/-- What `buzz-acp` asks of its tracker. -/
inductive UsageCall where
  | beginTurn (sessionId : String)
  | record (sessionId : String) (payload : UsageUpdatePayload)
  | seedZeroBaseline (sessionId : String)
  | take

namespace UsageTracker

def apply (call : UsageCall) (t : UsageTracker) : UsageTracker :=
  match call with
  | .beginTurn sessionId => t.beginTurn sessionId
  | .record sessionId payload => t.record sessionId payload
  | .seedZeroBaseline sessionId => t.seedZeroBaseline sessionId
  | .take => t.take.2

/-- The tracker after some calls. -/
def after (calls : List UsageCall) : UsageTracker :=
  calls.foldl (fun t call => t.apply call) default

theorem after_snoc (calls : List UsageCall) (call : UsageCall) :
    after (calls ++ [call]) = (after calls).apply call := by
  rw [after, List.foldl_append]
  rfl

/-- What holds at first and is kept by each call holds after any calls. -/
theorem after_induction {Inv : List UsageCall → UsageTracker → Prop} (hinit : Inv [] default)
    (hstep : ∀ calls call t, Inv calls t → Inv (calls ++ [call]) (t.apply call))
    (calls : List UsageCall) : Inv calls (after calls) := by
  induction calls using List.reverseRecOn with
  | nil => exact hinit
  | append_singleton calls call ih =>
    rw [after_snoc]
    exact hstep calls call _ ih

theorem entry_insert (sessionId other : String) (state : SessionState) (t : UsageTracker) :
    ({ t with sessions := t.sessions.insert sessionId state } : UsageTracker).entry other =
      if other = sessionId then some state else t.entry other := by
  rw [entry, entry]
  split
  · rename_i h
    rw [h]
    exact AList.lookup_insert _
  · rename_i h
    exact AList.lookup_insert_ne h

theorem entry_latchSession (sessionId other : String) (inputAbsent outputAbsent : Bool)
    (t : UsageTracker) : (t.latchSession sessionId inputAbsent outputAbsent).entry other =
      if other = sessionId then
        some (((t.entry sessionId).getD .unknown).latch inputAbsent outputAbsent)
      else t.entry other :=
  entry_insert sessionId other _ t

end UsageTracker

end Buzz.Acp
