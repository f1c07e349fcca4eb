import Buzz.Acp.UsagePoison

namespace Buzz.Acp
set_option autoImplicit true
open Agent (PricingIdentity foldPricingIdentity)

/-- What a payload says of input, output and cost. -/
structure PayloadView where
  input : Option UInt64
  output : Option UInt64
  cost : Option Float

def UsageUpdatePayload.view (payload : UsageUpdatePayload) : PayloadView :=
  ⟨payload.accumulatedInputTokens, payload.accumulatedOutputTokens, payload.accumulatedCost⟩

structure StateView where
  publishedSeq : UInt64
  lastInput : Option UInt64
  lastOutput : Option UInt64
  lastCost : Option Float
  inputEverPoisoned : Bool
  outputEverPoisoned : Bool

def SessionState.view (s : SessionState) : StateView :=
  ⟨s.publishedSeq, s.lastInput, s.lastOutput, s.lastCost, s.inputEverPoisoned,
    s.outputEverPoisoned⟩

structure RecordView where
  sessionId : String
  turnSeq : UInt64
  deltaReliable : Bool
  turnInputTokens : Option UInt64
  turnOutputTokens : Option UInt64
  turnCostUsd : Option Float
  cumulativeInputTokens : Option UInt64
  cumulativeOutputTokens : Option UInt64
  cumulativeCostUsd : Option Float

def TurnUsage.view (record : TurnUsage) : RecordView :=
  ⟨record.sessionId, record.turnSeq, record.deltaReliable, record.turnInputTokens,
    record.turnOutputTokens, record.turnCostUsd, record.cumulativeInputTokens,
    record.cumulativeOutputTokens, record.cumulativeCostUsd⟩

/-- Two calls that differ at most in totals, cache counts, model and pricing identity. -/
inductive SameCall : UsageCall → UsageCall → Prop
  | beginTurn (sessionId : String) : SameCall (.beginTurn sessionId) (.beginTurn sessionId)
  | record (sessionId : String) (h : payload.view = payload'.view) :
      SameCall (.record sessionId payload) (.record sessionId payload')
  | seedZeroBaseline (sessionId : String) :
      SameCall (.seedZeroBaseline sessionId) (.seedZeroBaseline sessionId)
  | take : SameCall .take .take

namespace UsageTracker

/-- What a call returns: only `take` returns a record. -/
def output (call : UsageCall) (t : UsageTracker) : Option TurnUsage :=
  match call with
  | .take => t.take.1
  | _ => none

/-- What the calls of a run return, one by one. -/
def outputs (t : UsageTracker) : List UsageCall → List (Option TurnUsage)
  | [] => []
  | call :: calls => t.output call :: (t.apply call).outputs calls

/-- Two trackers that differ at most in what the other fields left behind. -/
structure Same (t t' : UsageTracker) : Prop where
  entry : ∀ sessionId, (t.entry sessionId).map SessionState.view =
    (t'.entry sessionId).map SessionState.view
  inFlightSession : t.inFlightSession = t'.inFlightSession
  pending : t.pending.map TurnUsage.view = t'.pending.map TurnUsage.view
  inputAbsenceObserved : t.inputAbsenceObserved = t'.inputAbsenceObserved
  outputAbsenceObserved : t.outputAbsenceObserved = t'.outputAbsenceObserved

end UsageTracker

variable {payload payload' : UsageUpdatePayload} {s s' : SessionState}
  {prev prev' : Option SessionState} {t t' : UsageTracker} {sessionId : String}

theorem getD_view (h : prev.map SessionState.view = prev'.map SessionState.view) :
    (prev.getD .unknown).view = (prev'.getD .unknown).view := by
  cases prev with
  | none =>
    cases prev' with
    | none => rfl
    | some s' => cases h
  | some s =>
    cases prev' with
    | none => cases h
    | some s' => exact Option.some.inj h

theorem latch_view (h : s.view = s'.view) (inputAbsent outputAbsent : Bool) :
    (s.latch inputAbsent outputAbsent).view = (s'.latch inputAbsent outputAbsent).view := by
  cases s
  cases s'
  simp only [SessionState.view, StateView.mk.injEq] at h
  obtain ⟨rfl, rfl, rfl, rfl, rfl, rfl⟩ := h
  rfl

/-- The delta and its reliability come from input, output and cost alone. -/
theorem turnDelta_view (hprev : prev.map SessionState.view = prev'.map SessionState.view)
    (hpayload : payload.view = payload'.view) (inputAbsent outputAbsent : Bool) :
    turnDelta prev inputAbsent outputAbsent payload =
      turnDelta prev' inputAbsent outputAbsent payload' := by
  cases payload
  cases payload'
  simp only [UsageUpdatePayload.view, PayloadView.mk.injEq] at hpayload
  obtain ⟨rfl, rfl, rfl⟩ := hpayload
  cases prev with
  | none =>
    cases prev' with
    | none => rfl
    | some s' => cases hprev
  | some s =>
    cases prev' with
    | none => cases hprev
    | some s' =>
      cases s
      cases s'
      simp only [Option.map_some, Option.some.injEq, SessionState.view, StateView.mk.injEq] at hprev
      obtain ⟨rfl, rfl, rfl, rfl, rfl, rfl⟩ := hprev
      rfl

namespace UsageTracker

/-- What of the pending record the delta and the payload's own counts decide. -/
def pendingView (sessionId : String) (delta : TurnDelta) (payload : PayloadView) : RecordView :=
  ⟨sessionId, delta.turnSeq, delta.deltaReliable, delta.turnInput, delta.turnOutput,
    delta.turnCost, payload.input, payload.output, payload.cost⟩

theorem view_recordInFlight (sessionId : String) (payload : UsageUpdatePayload)
    (t : UsageTracker) : (t.recordInFlight sessionId payload).pending.map TurnUsage.view =
      some (pendingView sessionId
        (turnDelta (t.entry sessionId)
          (t.inputAbsenceObserved || payload.accumulatedInputTokens.isNone)
          (t.outputAbsenceObserved || payload.accumulatedOutputTokens.isNone) payload)
        payload.view) :=
  rfl

namespace Same

theorem insert (h : Same t t') (hview : s.view = s'.view) :
    Same { t with sessions := t.sessions.insert sessionId s }
      { t' with sessions := t'.sessions.insert sessionId s' } where
  entry other := by
    rw [entry_insert, entry_insert]
    split
    · rw [Option.map_some, Option.map_some, hview]
    · exact h.entry other
  inFlightSession := h.inFlightSession
  pending := h.pending
  inputAbsenceObserved := h.inputAbsenceObserved
  outputAbsenceObserved := h.outputAbsenceObserved

theorem latchSession (h : Same t t') (sessionId : String) (inputAbsent outputAbsent : Bool) :
    Same (t.latchSession sessionId inputAbsent outputAbsent)
      (t'.latchSession sessionId inputAbsent outputAbsent) :=
  h.insert (latch_view (getD_view (h.entry sessionId)) inputAbsent outputAbsent)

theorem flush (h : Same t t') : Same t.flush t'.flush := by
  rw [UsageTracker.flush, UsageTracker.flush, ← h.inputAbsenceObserved, ← h.outputAbsenceObserved,
    ← h.inFlightSession]
  split
  · split
    · exact h.latchSession _ _ _
    · exact h
  · exact h

theorem beginTurn (h : Same t t') (sessionId : String) :
    Same (t.beginTurn sessionId) (t'.beginTurn sessionId) where
  entry := h.flush.entry
  inFlightSession := rfl
  pending := rfl
  inputAbsenceObserved := rfl
  outputAbsenceObserved := rfl

theorem recordInFlight (h : Same t t') (hpayload : payload.view = payload'.view) :
    Same (t.recordInFlight sessionId payload) (t'.recordInFlight sessionId payload') := by
  have hinput := congrArg PayloadView.input hpayload
  have houtput := congrArg PayloadView.output hpayload
  have hcost := congrArg PayloadView.cost hpayload
  dsimp only [UsageUpdatePayload.view] at hinput houtput hcost
  refine ⟨h.entry, h.inFlightSession, ?_, ?_, ?_⟩
  · rw [view_recordInFlight, view_recordInFlight, h.inputAbsenceObserved,
      h.outputAbsenceObserved, hinput, houtput, turnDelta_view (h.entry sessionId) hpayload,
      hpayload]
  · rw [UsageTracker.recordInFlight, UsageTracker.recordInFlight, h.inputAbsenceObserved, hinput]
  · rw [UsageTracker.recordInFlight, UsageTracker.recordInFlight, h.outputAbsenceObserved, houtput]

theorem recordIdle (h : Same t t') (hpayload : payload.view = payload'.view) :
    Same (t.recordIdle sessionId payload) (t'.recordIdle sessionId payload') := by
  apply h.insert
  have hexisting := getD_view (h.entry sessionId)
  simp only [SessionState.view, StateView.mk.injEq] at hexisting
  simp only [UsageUpdatePayload.view, PayloadView.mk.injEq] at hpayload
  obtain ⟨hseq, _, _, _, hinput, houtput⟩ := hexisting
  obtain ⟨hinput', houtput', hcost'⟩ := hpayload
  simp only [SessionState.view, hseq, hinput, houtput, hinput', houtput', hcost']

theorem recordOther (h : Same t t') (hpayload : payload.view = payload'.view) :
    Same (t.recordOther sessionId payload) (t'.recordOther sessionId payload') := by
  have hinput := congrArg PayloadView.input hpayload
  have houtput := congrArg PayloadView.output hpayload
  dsimp only [UsageUpdatePayload.view] at hinput houtput
  rw [UsageTracker.recordOther, UsageTracker.recordOther, hinput, houtput]
  split
  · exact h.latchSession _ _ _
  · exact h

theorem record (h : Same t t') (sessionId : String) (hpayload : payload.view = payload'.view) :
    Same (t.record sessionId payload) (t'.record sessionId payload') := by
  rw [UsageTracker.record, UsageTracker.record, ← h.inFlightSession]
  split
  · exact h.recordInFlight hpayload
  · split
    · exact h.recordIdle hpayload
    · exact h.recordOther hpayload

theorem seedZeroBaseline (h : Same t t') (sessionId : String) :
    Same (t.seedZeroBaseline sessionId) (t'.seedZeroBaseline sessionId) := by
  have hentry := h.entry sessionId
  rw [UsageTracker.seedZeroBaseline, UsageTracker.seedZeroBaseline]
  cases hprev : t.entry sessionId with
  | none =>
    rw [hprev] at hentry
    cases hprev' : t'.entry sessionId with
    | none => exact h.insert rfl
    | some s' =>
      rw [hprev'] at hentry
      cases hentry
  | some s =>
    rw [hprev] at hentry
    cases hprev' : t'.entry sessionId with
    | none =>
      rw [hprev'] at hentry
      cases hentry
    | some s' => exact h

/-- What is left when a turn ends: the sessions. -/
theorem ended (h : Same t t') :
    Same ⟨t.sessions, none, none, none, false, false⟩
      ⟨t'.sessions, none, none, none, false, false⟩ :=
  ⟨h.entry, rfl, rfl, rfl, rfl⟩

theorem take (h : Same t t') :
    t.take.1.map TurnUsage.view = t'.take.1.map TurnUsage.view ∧ Same t.take.2 t'.take.2 := by
  have hpending := h.pending
  rw [UsageTracker.take, UsageTracker.take]
  cases hrecord : t.pending with
  | none =>
    rw [hrecord] at hpending
    cases hrecord' : t'.pending with
    | none => exact ⟨rfl, h.ended⟩
    | some record' =>
      rw [hrecord'] at hpending
      cases hpending
  | some record =>
    rw [hrecord] at hpending
    cases hrecord' : t'.pending with
    | none =>
      rw [hrecord'] at hpending
      cases hpending
    | some record' =>
      rw [hrecord'] at hpending
      cases record
      cases record'
      simp only [Option.map_some, Option.some.injEq, TurnUsage.view, RecordView.mk.injEq]
        at hpending
      obtain ⟨rfl, rfl, rfl, rfl, rfl, rfl, rfl, rfl, rfl⟩ := hpending
      refine ⟨rfl, h.ended.insert ?_⟩
      have hexisting := getD_view (h.entry ‹String›)
      simp only [SessionState.view, StateView.mk.injEq] at hexisting
      obtain ⟨_, _, _, _, hinput, houtput⟩ := hexisting
      simp only [SessionState.view, hinput, houtput, h.inputAbsenceObserved,
        h.outputAbsenceObserved]

theorem apply {call call' : UsageCall} (h : Same t t') (hcall : SameCall call call') :
    (t.output call).map TurnUsage.view = (t'.output call').map TurnUsage.view ∧
      Same (t.apply call) (t'.apply call') := by
  cases hcall with
  | beginTurn sessionId => exact ⟨rfl, h.beginTurn sessionId⟩
  | record sessionId hpayload => exact ⟨rfl, h.record sessionId hpayload⟩
  | seedZeroBaseline sessionId => exact ⟨rfl, h.seedZeroBaseline sessionId⟩
  | take => exact h.take

theorem outputs {calls calls' : List UsageCall} (h : Same t t')
    (hcalls : List.Forall₂ SameCall calls calls') :
    (t.outputs calls).map (Option.map TurnUsage.view) =
      (t'.outputs calls').map (Option.map TurnUsage.view) := by
  induction hcalls generalizing t t' with
  | nil => rfl
  | cons hcall _ ih =>
    obtain ⟨houtput, hsame⟩ := h.apply hcall
    rw [UsageTracker.outputs, UsageTracker.outputs, List.map_cons, List.map_cons, houtput,
      ih hsame]

end Same

end UsageTracker

/-- A call that neither starts nor ends a turn. -/
def UsageCall.within : UsageCall → Bool
  | .record _ _ => true
  | .seedZeroBaseline _ => true
  | .beginTurn _ => false
  | .take => false

def UsageCall.identity (sessionId : String) : UsageCall → Option (Option PricingIdentity)
  | .record s payload => if s = sessionId then some payload.pricingIdentity else none
  | _ => none

/-- The identities that the notifications of a session carry. -/
def identities (sessionId : String) (turn : List UsageCall) : List (Option PricingIdentity) :=
  turn.filterMap (·.identity sessionId)

theorem mem_identities {turn : List UsageCall} {identity : Option PricingIdentity} :
    identity ∈ identities sessionId turn ↔
      ∃ payload, .record sessionId payload ∈ turn ∧ payload.pricingIdentity = identity := by
  rw [identities, List.mem_filterMap]
  constructor
  · rintro ⟨call, hmem, hcall⟩
    rw [UsageCall.identity.eq_def] at hcall
    split at hcall
    · rename_i other payload
      split at hcall
      · rename_i heq
        subst heq
        exact ⟨payload, hmem, Option.some.inj hcall⟩
      · cases hcall
    · cases hcall
  · rintro ⟨payload, hmem, rfl⟩
    refine ⟨_, hmem, ?_⟩
    rw [UsageCall.identity, if_pos rfl]

/-- A mismatch is never healed: the fold has an identity when all it folds have it. -/
theorem foldl_pricingIdentity {first : Option PricingIdentity}
    {rest : List (Option PricingIdentity)} {p : PricingIdentity} :
    (rest.foldl foldPricingIdentity (some first)).bind id = some p ↔
      ∀ identity ∈ first :: rest, identity = some p := by
  induction rest generalizing first with
  | nil =>
    rw [List.foldl_nil, Option.bind_some, List.forall_mem_singleton]
    rfl
  | cons next rest ih =>
    rw [List.foldl_cons, List.forall_mem_cons, List.forall_mem_cons]
    cases first with
    | none =>
      rw [foldPricingIdentity, ih, List.forall_mem_cons]
      constructor
      · rintro ⟨hnone, _⟩
        cases hnone
      · rintro ⟨hnone, _⟩
        cases hnone
    | some existing =>
      rw [foldPricingIdentity]
      split
      · rename_i heq
        rw [ih, List.forall_mem_cons, heq]
        exact ⟨fun h => ⟨h.1, h⟩, fun h => h.2⟩
      · rename_i hne
        rw [ih, List.forall_mem_cons]
        constructor
        · rintro ⟨hnone, _⟩
          cases hnone
        · rintro ⟨hfirst, hnext, _⟩
          exact absurd (hfirst.trans hnext.symm) hne

namespace UsageTracker

/-- The turn in flight: since its start there was no other turn, and the tracker has folded the
identities of its notifications. -/
structure Folded (calls : List UsageCall) (sessionId : String) (t : UsageTracker) : Prop where
  turn : ∃ before turn, calls = before ++ .beginTurn sessionId :: turn ∧
    turn.all (·.within) = true ∧
    t.pendingIdentity = (identities sessionId turn).foldl foldPricingIdentity none ∧
    ∀ record, t.pending = some record →
      record.sessionId = sessionId ∧ identities sessionId turn ≠ []

structure InTurn (calls : List UsageCall) (t : UsageTracker) : Prop where
  idle : t.inFlightSession = none → t.pending = none
  inFlight : ∀ sessionId, t.inFlightSession = some sessionId → Folded calls sessionId t

variable {calls : List UsageCall} {call : UsageCall}

/-- A call of the turn that says nothing of the session in flight. -/
theorem InTurn.same (h : InTurn calls t) (hwithin : call.within = true)
    (hother : ∀ sessionId, t.inFlightSession = some sessionId → call.identity sessionId = none)
    (hflight : t'.inFlightSession = t.inFlightSession) (hpending : t'.pending = t.pending)
    (hidentity : t'.pendingIdentity = t.pendingIdentity) : InTurn (calls ++ [call]) t' := by
  refine ⟨?_, ?_⟩
  · intro hnone
    rw [hpending]
    exact h.idle (hflight ▸ hnone)
  · intro sessionId hsession
    rw [hflight] at hsession
    obtain ⟨before, turn, rfl, hturn, hfold, hrecord⟩ := (h.inFlight sessionId hsession).turn
    have hsame : identities sessionId (turn ++ [call]) = identities sessionId turn := by
      rw [identities, List.filterMap_append, List.filterMap_cons_none (hother _ hsession),
        List.filterMap_nil, List.append_nil, identities]
    refine ⟨before, turn ++ [call], ?_, ?_, ?_, ?_⟩
    · rw [List.append_assoc, List.cons_append]
    · rw [List.all_append, hturn, List.all_cons, hwithin]
      rfl
    · rw [hidentity, hfold, hsame]
    · rw [hpending, hsame]
      exact hrecord

theorem InTurn.recordInFlight (h : InTurn calls t)
    (hflight : t.inFlightSession = some sessionId) (payload : UsageUpdatePayload) :
    InTurn (calls ++ [.record sessionId payload]) (t.recordInFlight sessionId payload) := by
  have hflight' : (t.recordInFlight sessionId payload).inFlightSession = some sessionId := hflight
  refine ⟨?_, ?_⟩
  · intro hnone
    rw [hflight'] at hnone
    cases hnone
  · intro other hother
    rw [hflight', Option.some.injEq] at hother
    subst hother
    obtain ⟨before, turn, rfl, hturn, hfold, _⟩ := (h.inFlight sessionId hflight).turn
    have hsnoc : identities sessionId (turn ++ [.record sessionId payload]) =
        identities sessionId turn ++ [payload.pricingIdentity] := by
      have hown : UsageCall.identity sessionId (.record sessionId payload) =
          some payload.pricingIdentity := by
        rw [UsageCall.identity, if_pos rfl]
      rw [identities, List.filterMap_append, List.filterMap_cons_some hown, List.filterMap_nil,
        identities]
    refine ⟨before, turn ++ [.record sessionId payload], ?_, ?_, ?_, ?_⟩
    · rw [List.append_assoc, List.cons_append]
    · rw [List.all_append, hturn]
      rfl
    · rw [hsnoc, List.foldl_append, ← hfold]
      rfl
    · intro record hrecord
      refine ⟨?_, ?_⟩
      · rw [← Option.some.inj hrecord]
      · rw [hsnoc]
        exact List.append_ne_nil_of_right_ne_nil _ (List.cons_ne_nil _ _)

theorem InTurn.record (h : InTurn calls t) (sessionId : String) (payload : UsageUpdatePayload) :
    InTurn (calls ++ [.record sessionId payload]) (t.record sessionId payload) := by
  rw [UsageTracker.record]
  split
  · rename_i hflight
    exact h.recordInFlight hflight payload
  · rename_i hnot
    have hother : ∀ other, t.inFlightSession = some other →
        UsageCall.identity other (.record sessionId payload) = none := by
      intro other hflight
      rw [UsageCall.identity, if_neg]
      rintro rfl
      exact hnot hflight
    split
    · exact h.same rfl hother rfl rfl rfl
    · rw [recordOther]
      split
      · exact h.same rfl hother rfl rfl rfl
      · exact h.same rfl hother rfl rfl rfl

theorem InTurn.seedZeroBaseline (h : InTurn calls t) (sessionId : String) :
    InTurn (calls ++ [.seedZeroBaseline sessionId]) (t.seedZeroBaseline sessionId) := by
  rw [UsageTracker.seedZeroBaseline]
  split
  · exact h.same rfl (fun _ _ => rfl) rfl rfl rfl
  · exact h.same rfl (fun _ _ => rfl) rfl rfl rfl

theorem InTurn.beginTurn (calls : List UsageCall) (t : UsageTracker) (sessionId : String) :
    InTurn (calls ++ [.beginTurn sessionId]) (t.beginTurn sessionId) := by
  have hflight : (t.beginTurn sessionId).inFlightSession = some sessionId := rfl
  have hpending : (t.beginTurn sessionId).pending = none := rfl
  refine ⟨fun _ => hpending, ?_⟩
  intro other hother
  rw [hflight, Option.some.injEq] at hother
  subst hother
  refine ⟨calls, [], rfl, rfl, rfl, ?_⟩
  intro record hrecord
  rw [hpending] at hrecord
  cases hrecord

theorem InTurn.after (calls : List UsageCall) : InTurn calls (after calls) := by
  apply after_induction
  · exact ⟨fun _ => rfl, fun _ h => by cases h⟩
  · intro calls call t h
    cases call with
    | beginTurn sessionId => exact InTurn.beginTurn calls t sessionId
    | record sessionId payload => exact h.record sessionId payload
    | seedZeroBaseline sessionId => exact h.seedZeroBaseline sessionId
    | take =>
      rw [apply, UsageTracker.take]
      split
      · exact ⟨fun _ => rfl, fun _ h => by cases h⟩
      · exact ⟨fun _ => rfl, fun _ h => by cases h⟩

end UsageTracker

/-- What a run publishes of input, output and cost depends on nothing else that it was told. A
record has an identity exactly when all the notifications of its turn carried it. -/
theorem usage_local :
    (∀ calls calls' : List UsageCall, List.Forall₂ SameCall calls calls' →
      (UsageTracker.default.outputs calls).map (Option.map TurnUsage.view) =
        (UsageTracker.default.outputs calls').map (Option.map TurnUsage.view)) ∧
    ∀ (calls : List UsageCall) (record : TurnUsage),
      (UsageTracker.after calls).take.1 = some record →
      ∃ before turn, calls = before ++ .beginTurn record.sessionId :: turn ∧
        turn.all (·.within) = true ∧
        (∃ payload, .record record.sessionId payload ∈ turn) ∧
        ∀ p, record.pricingIdentity = some p ↔
          ∀ payload, .record record.sessionId payload ∈ turn →
            payload.pricingIdentity = some p := by
  refine ⟨?_, ?_⟩
  · intro calls calls' hcalls
    have hsame : UsageTracker.Same .default .default := ⟨fun _ => rfl, rfl, rfl, rfl, rfl⟩
    exact hsame.outputs hcalls
  · intro calls record hrecord
    obtain ⟨pending, hpending, rfl⟩ := UsageTracker.take_eq_some hrecord
    have hafter := UsageTracker.InTurn.after calls
    cases hflight : (UsageTracker.after calls).inFlightSession with
    | none =>
      rw [hafter.idle hflight] at hpending
      cases hpending
    | some sessionId =>
      obtain ⟨before, turn, hcalls, hturn, hfold, hown⟩ := (hafter.inFlight sessionId hflight).turn
      obtain ⟨rfl, hne⟩ := hown pending hpending
      obtain ⟨first, rest, hids⟩ := List.exists_cons_of_ne_nil hne
      refine ⟨before, turn, hcalls, hturn, ?_, ?_⟩
      · have hmem : first ∈ identities pending.sessionId turn := by
          rw [hids]
          exact List.mem_cons_self
        obtain ⟨payload, hmem, _⟩ := mem_identities.mp hmem
        exact ⟨payload, hmem⟩
      · intro p
        dsimp only
        rw [hfold, hids, List.foldl_cons]
        refine foldl_pricingIdentity.trans ?_
        rw [← hids]
        constructor
        · intro h payload hmem
          exact h _ (mem_identities.mpr ⟨payload, hmem, rfl⟩)
        · intro h identity hidentity
          obtain ⟨payload, hmem, rfl⟩ := mem_identities.mp hidentity
          exact h payload hmem

/-- A turn whose notification tells a total and a model beside its counts. -/
def turnWith (total : Option UInt64) (model : Option String) : List UsageCall :=
  [.beginTurn "session", .record "session" ⟨some 5, some 2, none, none, none, total, model, none⟩,
    .take]

/-- A total and a model leave no trace in the rest of the record. -/
theorem usage_local_total :
    (UsageTracker.default.outputs (turnWith none none)).map (Option.map TurnUsage.view) =
      (UsageTracker.default.outputs (turnWith (some 7) (some "m"))).map
        (Option.map TurnUsage.view) ∧
    ∃ record, (UsageTracker.after ((turnWith none none).take 2)).take.1 = some record ∧
      ∃ payload, .record record.sessionId payload ∈ (turnWith none none).take 2 := by
  refine ⟨?_, ?_⟩
  · apply usage_local.1
    exact .cons (.beginTurn _) (.cons (.record _ rfl) (.cons .take .nil))
  · refine ⟨_, rfl, ?_⟩
    obtain ⟨before, turn, hcalls, _, ⟨payload, hmem⟩, _⟩ :=
      usage_local.2 ((turnWith none none).take 2) _ rfl
    refine ⟨payload, ?_⟩
    rw [hcalls]
    exact List.mem_append_right before (List.mem_cons_of_mem _ hmem)

end Buzz.Acp
