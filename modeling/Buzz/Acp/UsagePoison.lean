import Buzz.Acp.Usage

namespace Buzz.Acp
set_option autoImplicit true

def UsageUpdatePayload.lacks (payload : UsageUpdatePayload) : Bool :=
  payload.accumulatedInputTokens.isNone || payload.accumulatedOutputTokens.isNone

/-- Some notification of a session lacked a count. -/
def Lacked (calls : List UsageCall) (sessionId : String) : Prop :=
  ∃ payload, .record sessionId payload ∈ calls ∧ payload.lacks = true

/-- A record that tells no delta. -/
structure TurnUsage.Unreliable (record : TurnUsage) : Prop where
  deltaReliable : record.deltaReliable = false
  turnInputTokens : record.turnInputTokens = none
  turnOutputTokens : record.turnOutputTokens = none
  turnCostUsd : record.turnCostUsd = none

theorem lacked_snoc {calls : List UsageCall} :
    Lacked (calls ++ [call]) sessionId ↔ Lacked calls sessionId ∨
      ∃ payload, call = .record sessionId payload ∧ payload.lacks = true := by
  constructor
  · rintro ⟨payload, hmem, hlacks⟩
    rcases List.mem_append.mp hmem with hmem | hmem
    · exact .inl ⟨payload, hmem, hlacks⟩
    · exact .inr ⟨payload, (List.mem_singleton.mp hmem).symm, hlacks⟩
  · rintro (⟨payload, hmem, hlacks⟩ | ⟨payload, rfl, hlacks⟩)
    · exact ⟨payload, List.mem_append_left _ hmem, hlacks⟩
    · exact ⟨payload, List.mem_append_right _ (List.mem_singleton_self _), hlacks⟩

/-- What was missing makes a delta unreliable. -/
theorem turnDelta_poisoned (prev : Option SessionState) (payload : UsageUpdatePayload)
    (h : prev = none ∨ (∃ s, prev = some s ∧ s.poisoned = true) ∨
      inputAbsent = true ∨ outputAbsent = true ∨ payload.lacks = true) :
    ∃ seq, turnDelta prev inputAbsent outputAbsent payload = .unreliable seq := by
  cases prev with
  | none => exact ⟨1, rfl⟩
  | some prev =>
    refine ⟨prev.publishedSeq + 1, ?_⟩
    rw [turnDelta]
    apply if_pos
    simp only [Bool.or_eq_true]
    rcases h with h | ⟨s, h, hpoisoned⟩ | h | h | h
    · cases h
    · cases h
      rw [SessionState.poisoned, Bool.or_eq_true] at hpoisoned
      tauto
    · tauto
    · tauto
    · rw [UsageUpdatePayload.lacks, Bool.or_eq_true] at h
      tauto

namespace UsageTracker

/-- Whether what a session lacked is on its record. -/
def marked (sessionId : String) (t : UsageTracker) : Prop :=
  ∃ s, t.entry sessionId = some s ∧ s.poisoned = true

/-- What a session lacked is on its record, or noted for the turn in flight. -/
structure Sticky (calls : List UsageCall) (t : UsageTracker) : Prop where
  pendingFor : ∀ record, t.pending = some record → t.inFlightSession = some record.sessionId
  observed : t.inputAbsenceObserved = true ∨ t.outputAbsenceObserved = true →
    ∃ record, t.pending = some record
  lacked : ∀ sessionId, Lacked calls sessionId → t.marked sessionId ∨
    (t.inFlightSession = some sessionId ∧
      (t.inputAbsenceObserved = true ∨ t.outputAbsenceObserved = true))
  unreliable : ∀ record, t.pending = some record → Lacked calls record.sessionId →
    record.Unreliable

namespace Sticky

variable {calls : List UsageCall} {t : UsageTracker}

theorem init : Sticky [] default where
  pendingFor _ h := by cases h
  observed h := by
    rcases h with h | h
    · cases h
    · cases h
  lacked _ h := by
    obtain ⟨_, h, _⟩ := h
    cases h
  unreliable _ h := by cases h

end Sticky

/-- A new entry of a session, marked where the session was or is to be. -/
theorem marked_insert {state : SessionState} {t : UsageTracker} {missing : Prop}
    (h : t.marked other ∨ (other = sessionId ∧ missing))
    (hstate : ((t.entry sessionId).getD .unknown).poisoned = true ∨ missing →
      state.poisoned = true) :
    ({ t with sessions := t.sessions.insert sessionId state } : UsageTracker).marked other := by
  rw [marked, entry_insert]
  by_cases heq : other = sessionId
  · rw [if_pos heq]
    refine ⟨state, rfl, hstate ?_⟩
    rcases h with ⟨s, hs, hpoisoned⟩ | ⟨_, hmissing⟩
    · rw [heq] at hs
      rw [hs]
      exact .inl hpoisoned
    · exact .inr hmissing
  · rw [if_neg heq]
    exact h.resolve_right fun h' => heq h'.1

/-- A latch marks its session where something was missing, and no mark goes away. -/
theorem marked_latchSession {t : UsageTracker} (h : t.marked other ∨
      (other = sessionId ∧ (inputAbsent = true ∨ outputAbsent = true))) :
    (t.latchSession sessionId inputAbsent outputAbsent).marked other := by
  apply marked_insert h
  intro hpoisoned
  rw [SessionState.poisoned, Bool.or_eq_true] at hpoisoned
  rw [SessionState.poisoned, SessionState.latch]
  simp only [Bool.or_eq_true]
  tauto

/-- A flush leaves on record what was noted for the turn in flight. -/
theorem marked_flush {t : UsageTracker} (h : t.marked sessionId ∨ (t.inFlightSession = some sessionId ∧
    (t.inputAbsenceObserved = true ∨ t.outputAbsenceObserved = true))) :
    t.flush.marked sessionId := by
  rw [flush]
  split
  · split
    · rename_i prevSession hprev
      apply marked_latchSession
      rcases h with h | ⟨hsession, hobserved⟩
      · exact .inl h
      · rw [hprev] at hsession
        exact .inr ⟨(Option.some_inj.mp hsession).symm, hobserved⟩
    · rename_i hnone
      rcases h with h | ⟨hsession, _⟩
      · exact h
      · rw [hnone] at hsession
        cases hsession
  · rename_i hobserved
    rw [Bool.or_eq_true] at hobserved
    exact h.resolve_right fun h' => hobserved h'.2

namespace Sticky

variable {calls : List UsageCall} {t : UsageTracker}

theorem beginTurn (h : Sticky calls t) (sessionId : String) :
    Sticky (calls ++ [.beginTurn sessionId]) (t.beginTurn sessionId) where
  pendingFor _ h := by cases h
  observed h := by
    rcases h with h | h
    · cases h
    · cases h
  lacked other hlacked := by
    rcases lacked_snoc.mp hlacked with hlacked | ⟨_, h', _⟩
    · exact .inl (marked_flush (h.lacked other hlacked))
    · cases h'
  unreliable _ h := by cases h

/-- A notification of the turn in flight. -/
theorem recordInFlight (h : Sticky calls t) (hflight : t.inFlightSession = some sessionId)
    (payload : UsageUpdatePayload) :
    Sticky (calls ++ [.record sessionId payload]) (t.recordInFlight sessionId payload) := by
  constructor
  case pendingFor =>
    intro record hrecord
    cases hrecord
    exact hflight
  case observed => exact fun _ => ⟨_, rfl⟩
  case lacked =>
    intro other hlacked
    rcases lacked_snoc.mp hlacked with hlacked | ⟨payload', heq, hlacks⟩
    · rcases h.lacked other hlacked with hmarked | ⟨hother, hobserved⟩
      · exact .inl hmarked
      · refine .inr ⟨hother, ?_⟩
        rw [UsageTracker.recordInFlight]
        dsimp only
        rw [Bool.or_eq_true, Bool.or_eq_true]
        tauto
    · cases heq
      refine .inr ⟨hflight, ?_⟩
      rw [UsageUpdatePayload.lacks, Bool.or_eq_true] at hlacks
      rw [UsageTracker.recordInFlight]
      dsimp only
      rw [Bool.or_eq_true, Bool.or_eq_true]
      tauto
  case unreliable =>
    intro record hrecord hlacked
    have hpoisoned : t.entry sessionId = none ∨
        (∃ s, t.entry sessionId = some s ∧ s.poisoned = true) ∨
        (t.inputAbsenceObserved || payload.accumulatedInputTokens.isNone) = true ∨
        (t.outputAbsenceObserved || payload.accumulatedOutputTokens.isNone) = true ∨
        payload.lacks = true := by
      rw [Bool.or_eq_true, Bool.or_eq_true]
      cases hrecord
      rcases lacked_snoc.mp hlacked with hlacked | ⟨payload', heq, hlacks⟩
      · rcases h.lacked sessionId hlacked with hmarked | ⟨_, hobserved⟩
        · exact .inr (.inl hmarked)
        · tauto
      · cases heq
        tauto
    obtain ⟨seq, hdelta⟩ := turnDelta_poisoned _ payload hpoisoned
    obtain ⟨record', hrecord', _, hreliable, hinput, houtput, hcost, _⟩ :=
      pending_recordInFlight t hdelta
    rw [hrecord'] at hrecord
    cases hrecord
    exact ⟨hreliable, hinput, houtput, hcost⟩

/-- A notification of another session, or of none in flight, leaves the turn in flight. -/
theorem recordApart (h : Sticky calls t) (hflight : t.inFlightSession ≠ some sessionId)
    (sessions : Table String SessionState)
    (hmarked : ∀ other, t.marked other ∨ (other = sessionId ∧ payload.lacks = true) →
      ({ t with sessions } : UsageTracker).marked other) :
    Sticky (calls ++ [.record sessionId payload]) { t with sessions } := by
  constructor
  case pendingFor => exact h.pendingFor
  case observed => exact h.observed
  case lacked =>
    intro other hlacked
    rcases lacked_snoc.mp hlacked with hlacked | ⟨payload', heq, hlacks⟩
    · rcases h.lacked other hlacked with hother | hobserved
      · exact .inl (hmarked other (.inl hother))
      · exact .inr hobserved
    · cases heq
      exact .inl (hmarked sessionId (.inr ⟨rfl, hlacks⟩))
  case unreliable =>
    intro record hrecord hlacked
    rcases lacked_snoc.mp hlacked with hlacked | ⟨payload', heq, _⟩
    · exact h.unreliable record hrecord hlacked
    · cases heq
      exact absurd (h.pendingFor record hrecord) hflight

theorem recordIdle (h : Sticky calls t) (hflight : t.inFlightSession = none)
    (sessionId : String) (payload : UsageUpdatePayload) :
    Sticky (calls ++ [.record sessionId payload]) (t.recordIdle sessionId payload) := by
  apply h.recordApart (by rw [hflight]; simp)
  intro other hother
  apply marked_insert hother
  intro hpoisoned
  rw [SessionState.poisoned, UsageUpdatePayload.lacks, Bool.or_eq_true, Bool.or_eq_true] at hpoisoned
  rw [SessionState.poisoned]
  simp only [Bool.or_eq_true]
  tauto

theorem recordOther (h : Sticky calls t) (hflight : t.inFlightSession ≠ some sessionId)
    (payload : UsageUpdatePayload) :
    Sticky (calls ++ [.record sessionId payload]) (t.recordOther sessionId payload) := by
  rw [UsageTracker.recordOther]
  split
  · rename_i hlacks
    apply h.recordApart hflight
    intro other hother
    apply marked_latchSession
    rw [Bool.or_eq_true] at hlacks
    tauto
  · rename_i hlacks
    apply h.recordApart hflight t.sessions
    intro other hother
    exact hother.resolve_right fun h' => hlacks h'.2

theorem record (h : Sticky calls t) (sessionId : String) (payload : UsageUpdatePayload) :
    Sticky (calls ++ [.record sessionId payload]) (t.record sessionId payload) := by
  rw [UsageTracker.record]
  split
  · rename_i hflight
    exact h.recordInFlight hflight payload
  · rename_i hflight
    split
    · rename_i hnone
      exact h.recordIdle hnone sessionId payload
    · exact h.recordOther hflight payload

theorem seedZeroBaseline (h : Sticky calls t) (sessionId : String) :
    Sticky (calls ++ [.seedZeroBaseline sessionId]) (t.seedZeroBaseline sessionId) := by
  have hlacks : ∀ other, Lacked (calls ++ [.seedZeroBaseline sessionId]) other →
      Lacked calls other := by
    intro other hlacked
    rcases lacked_snoc.mp hlacked with hlacked | ⟨_, heq, _⟩
    · exact hlacked
    · cases heq
  rw [UsageTracker.seedZeroBaseline]
  split
  · exact ⟨h.pendingFor, h.observed, fun other h' => h.lacked other (hlacks other h'),
      fun record hrecord h' => h.unreliable record hrecord (hlacks _ h')⟩
  · rename_i hnone
    refine ⟨h.pendingFor, h.observed, ?_, fun record hrecord h' => h.unreliable record hrecord (hlacks _ h')⟩
    intro other h'
    rcases h.lacked other (hlacks other h') with hmarked | hobserved
    · have hmarked' : t.marked other ∨ (other = sessionId ∧ False) := .inl hmarked
      left
      apply marked_insert hmarked'
      rw [hnone]
      rintro (h' | h')
      · cases h'
      · cases h'
    · exact .inr hobserved

/-- A record that is taken leaves on record what its turn has seen missing. -/
theorem take (h : Sticky calls t) : Sticky (calls ++ [.take]) t.take.2 := by
  have hlacks : ∀ other, Lacked (calls ++ [.take]) other → Lacked calls other := by
    intro other hlacked
    rcases lacked_snoc.mp hlacked with hlacked | ⟨_, heq, _⟩
    · exact hlacked
    · cases heq
  rw [UsageTracker.take]
  split
  · rename_i hnone
    constructor
    case pendingFor =>
      intro _ h'
      cases h'
    case observed =>
      rintro (h' | h')
      · cases h'
      · cases h'
    case lacked =>
      intro other h'
      rcases h.lacked other (hlacks other h') with hmarked | ⟨_, hobserved⟩
      · exact .inl hmarked
      · obtain ⟨record, hrecord⟩ := h.observed hobserved
        rw [hnone] at hrecord
        cases hrecord
    case unreliable =>
      intro _ h'
      cases h'
  · rename_i pending hpending
    constructor
    case pendingFor =>
      intro _ h'
      cases h'
    case observed =>
      rintro (h' | h')
      · cases h'
      · cases h'
    case lacked =>
      intro other h'
      left
      have hflight := h.pendingFor pending hpending
      have hmarked : t.marked other ∨ (other = pending.sessionId ∧
          (t.inputAbsenceObserved = true ∨ t.outputAbsenceObserved = true)) := by
        rcases h.lacked other (hlacks other h') with hmarked | ⟨hother, hobserved⟩
        · exact .inl hmarked
        · rw [hflight] at hother
          exact .inr ⟨(Option.some_inj.mp hother).symm, hobserved⟩
      apply marked_insert hmarked
      intro hpoisoned
      rw [SessionState.poisoned, Bool.or_eq_true] at hpoisoned
      rw [SessionState.poisoned]
      simp only [Bool.or_eq_true]
      tauto
    case unreliable =>
      intro _ h'
      cases h'

theorem after (calls : List UsageCall) : Sticky calls (after calls) := by
  apply after_induction init
  intro calls call t h
  cases call with
  | beginTurn sessionId => exact h.beginTurn sessionId
  | record sessionId payload => exact h.record sessionId payload
  | seedZeroBaseline sessionId => exact h.seedZeroBaseline sessionId
  | take => exact h.take

end Sticky

theorem take_eq_some {t : UsageTracker} {usage : TurnUsage} (h : t.take.1 = some usage) :
    ∃ pending, t.pending = some pending ∧
      usage = { pending with pricingIdentity := t.pendingIdentity.bind id } := by
  rw [take] at h
  split at h
  · cases h
  · rename_i pending hpending
    cases h
    exact ⟨pending, hpending, rfl⟩

end UsageTracker

/-- A record is reliable only where no notification of its session ever lacked a count, and after
one that did, no record of the session tells a delta. -/
theorem usage_sticky (calls : List UsageCall) (record : TurnUsage)
    (h : (UsageTracker.after calls).take.1 = some record) :
    (record.deltaReliable = true → ∀ payload, .record record.sessionId payload ∈ calls →
      payload.accumulatedInputTokens.isSome ∧ payload.accumulatedOutputTokens.isSome) ∧
    ∀ payload, .record record.sessionId payload ∈ calls →
      (payload.accumulatedInputTokens = none ∨ payload.accumulatedOutputTokens = none) →
        record.deltaReliable = false ∧ record.turnInputTokens = none ∧
          record.turnOutputTokens = none ∧ record.turnCostUsd = none := by
  have hsticky := UsageTracker.Sticky.after calls
  obtain ⟨pending, hpending, rfl⟩ := UsageTracker.take_eq_some h
  have hunreliable : ∀ payload, .record pending.sessionId payload ∈ calls →
      payload.lacks = true → pending.Unreliable :=
    fun payload hmem hlacks => hsticky.unreliable pending hpending ⟨payload, hmem, hlacks⟩
  constructor
  · intro hreliable payload hmem
    have hcomplete : payload.lacks = false := by
      by_contra hlacks
      have h' := (hunreliable payload hmem (Bool.not_eq_false _ ▸ hlacks)).deltaReliable
      rw [h'] at hreliable
      cases hreliable
    rw [UsageUpdatePayload.lacks, Bool.or_eq_false_iff, Option.isNone_eq_false_iff,
      Option.isNone_eq_false_iff] at hcomplete
    exact hcomplete
  · intro payload hmem hmissing
    rw [← Option.isNone_iff_eq_none, ← Option.isNone_iff_eq_none, ← Bool.or_eq_true] at hmissing
    obtain ⟨hreliable, hinput, houtput, hcost⟩ := hunreliable payload hmem hmissing
    exact ⟨hreliable, hinput, houtput, hcost⟩

/-- A notification that tells the two counts only. -/
def countsOnly (input output : Option UInt64) : UsageUpdatePayload :=
  ⟨input, output, none, none, none, none, none, none⟩

/-- A count that is missing and comes back within its turn. -/
def backCalls : List UsageCall :=
  [.seedZeroBaseline "session", .beginTurn "session",
    .record "session" (countsOnly none (some 1)),
    .record "session" (countsOnly (some 5) (some 2))]

theorem usage_sticky_back : ∃ record, (UsageTracker.after backCalls).take.1 = some record ∧
    record.deltaReliable = false ∧ record.turnInputTokens = none ∧
      record.turnOutputTokens = none ∧ record.turnCostUsd = none := by
  have hrun : ∃ record, (UsageTracker.after backCalls).take.1 = some record ∧
      record.sessionId = "session" := ⟨_, rfl, rfl⟩
  obtain ⟨record, hrecord, hsession⟩ := hrun
  have hmissing : .record record.sessionId (countsOnly none (some 1)) ∈ backCalls := by
    rw [hsession]
    exact List.mem_cons_of_mem _ (List.mem_cons_of_mem _ List.mem_cons_self)
  exact ⟨record, hrecord, (usage_sticky backCalls record hrecord).2 _ hmissing (.inl rfl)⟩

end Buzz.Acp
