import Buzz.Acp.UsagePoison
import Buzz.Lib.ListAt

namespace Buzz.Acp
set_option autoImplicit true

/-- The two counts that a turn is billed by. -/
inductive Count where
  | input
  | output

def UsageUpdatePayload.count (which : Count) (payload : UsageUpdatePayload) : Option UInt64 :=
  match which with
  | .input => payload.accumulatedInputTokens
  | .output => payload.accumulatedOutputTokens

def SessionState.count (which : Count) (s : SessionState) : Option UInt64 :=
  match which with
  | .input => s.lastInput
  | .output => s.lastOutput

namespace TurnUsage

def delta (which : Count) (record : TurnUsage) : Option UInt64 :=
  match which with
  | .input => record.turnInputTokens
  | .output => record.turnOutputTokens

def cumulative (which : Count) (record : TurnUsage) : Option UInt64 :=
  match which with
  | .input => record.cumulativeInputTokens
  | .output => record.cumulativeOutputTokens

end TurnUsage

/-- A move of a session's baseline: a record that is published, or a notification while no turn is
in flight. -/
inductive Settlement where
  | published (record : TurnUsage)
  | idle (payload : UsageUpdatePayload)

namespace Settlement

def record : Settlement → Option TurnUsage
  | published record => some record
  | idle _ => none

def count (which : Count) : Settlement → Nat
  | published record => ((record.cumulative which).getD 0).toNat
  | idle payload => ((payload.count which).getD 0).toNat

end Settlement

/-- The moves of a session's baseline that a call makes. -/
def UsageTracker.settles (sessionId : String) (call : UsageCall) (t : UsageTracker) :
    List Settlement :=
  match call with
  | .take =>
    match t.take.1 with
    | some record => if record.sessionId = sessionId then [.published record] else []
    | none => []
  | .record other payload =>
    if other = sessionId ∧ t.inFlightSession = none then [.idle payload] else []
  | _ => []

def settledFrom (sessionId : String) (t : UsageTracker) : List UsageCall → List Settlement
  | [] => []
  | call :: calls => t.settles sessionId call ++ settledFrom sessionId (t.apply call) calls

/-- The moves of a session's baseline. -/
def settled (sessionId : String) (calls : List UsageCall) : List Settlement :=
  settledFrom sessionId .default calls

/-- The records that are published for a session. -/
def published (sessionId : String) (calls : List UsageCall) : List TurnUsage :=
  (settled sessionId calls).filterMap Settlement.record

/-- The notifications for a session. -/
def notifications (sessionId : String) (calls : List UsageCall) : List UsageUpdatePayload :=
  calls.filterMap fun
    | .record other payload => if other = sessionId then some payload else none
    | _ => none

/-- What the published records of a session say that it used. -/
def billed (which : Count) (records : List TurnUsage) : Nat :=
  (records.map fun record => ((record.delta which).getD 0).toNat).sum

/-- What the notifications while no turn was in flight moved the baseline by, from `last` on. -/
def unbilled (which : Count) (last : Nat) : List Settlement → Nat
  | [] => 0
  | .published record :: rest => unbilled which (Settlement.published record |>.count which) rest
  | .idle payload :: rest =>
    (Settlement.idle payload).count which - last +
      unbilled which ((Settlement.idle payload).count which) rest

/-- The count at the last of some moves. -/
def lastCount (which : Count) (moves : List Settlement) : Nat :=
  (moves.getLast?.map (Settlement.count which)).getD 0

/-- The session is seeded before its first notification. -/
def SeededFirst (sessionId : String) (calls : List UsageCall) : Prop :=
  ∀ before payload rest, calls = before ++ .record sessionId payload :: rest →
    .seedZeroBaseline sessionId ∈ before

/-- Notifications that tell both counts, that do not go back, and no cost. -/
structure Steady (payloads : List UsageUpdatePayload) : Prop where
  told : ∀ payload ∈ payloads, ∀ which, (payload.count which).isSome
  costless : ∀ payload ∈ payloads, payload.accumulatedCost = none
  ordered : payloads.Pairwise fun p q =>
    ∀ which i j, p.count which = some i → q.count which = some j → i ≤ j

theorem settledFrom_snoc (sessionId : String) (t : UsageTracker) (calls : List UsageCall)
    (call : UsageCall) : settledFrom sessionId t (calls ++ [call]) =
      settledFrom sessionId t calls ++
        (calls.foldl (fun t call => t.apply call) t).settles sessionId call := by
  induction calls generalizing t with
  | nil => exact List.append_nil _
  | cons first calls ih =>
    rw [List.cons_append, settledFrom, ih, settledFrom, List.append_assoc]
    rfl

theorem settled_snoc (sessionId : String) (calls : List UsageCall) (call : UsageCall) :
    settled sessionId (calls ++ [call]) =
      settled sessionId calls ++ (UsageTracker.after calls).settles sessionId call :=
  settledFrom_snoc sessionId .default calls call

theorem notifications_snoc (sessionId : String) (calls : List UsageCall) (call : UsageCall) :
    notifications sessionId (calls ++ [call]) =
      notifications sessionId calls ++ notifications sessionId [call] :=
  List.filterMap_append

theorem notifications_record (sessionId : String) (calls : List UsageCall)
    (payload : UsageUpdatePayload) : notifications sessionId (calls ++ [.record sessionId payload]) =
      notifications sessionId calls ++ [payload] := by
  rw [notifications_snoc]
  congr 1
  exact List.filterMap_cons_some (if_pos rfl)

theorem unbilled_snoc (which : Count) (last : Nat) (moves : List Settlement) (move : Settlement) :
    unbilled which last (moves ++ [move]) = unbilled which last moves +
      unbilled which ((moves.getLast?.map (Settlement.count which)).getD last) [move] := by
  induction moves generalizing last with
  | nil =>
    rw [unbilled, Nat.zero_add]
    rfl
  | cons first moves ih =>
    have hlast : (((first :: moves).getLast?.map (Settlement.count which)).getD last) =
        (moves.getLast?.map (Settlement.count which)).getD (first.count which) := by
      rw [List.getLast?_cons]
      cases moves.getLast? with
      | none => rfl
      | some move => rfl
    rw [hlast]
    cases first with
    | published record => exact ih _
    | idle payload =>
      rw [List.cons_append, unbilled, ih, unbilled, Nat.add_assoc]

theorem Steady.prefix (h : Steady (payloads ++ more)) : Steady payloads where
  told payload hmem := h.told payload (List.mem_append_left _ hmem)
  costless payload hmem := h.costless payload (List.mem_append_left _ hmem)
  ordered := (List.pairwise_append.mp h.ordered).1

theorem SeededFirst.prefix (h : SeededFirst sessionId (calls ++ [call])) :
    SeededFirst sessionId calls := by
  rintro before payload rest rfl
  apply h before payload (rest ++ [call])
  rw [List.append_assoc, List.cons_append]

/-- A call that moves no baseline of the session. -/
theorem settled_same (h : (UsageTracker.after calls).settles sessionId call = []) :
    settled sessionId (calls ++ [call]) = settled sessionId calls := by
  rw [settled_snoc, h, List.append_nil]

theorem unbilled_snoc_zero (which : Count) (moves : List Settlement) (move : Settlement) :
    unbilled which 0 (moves ++ [move]) =
      unbilled which 0 moves + unbilled which (lastCount which moves) [move] :=
  unbilled_snoc which 0 moves move

theorem lastCount_snoc (which : Count) (moves : List Settlement) (move : Settlement) :
    lastCount which (moves ++ [move]) = move.count which := by
  rw [lastCount, List.getLast?_concat]
  rfl

theorem billed_snoc (which : Count) (records : List TurnUsage) (record : TurnUsage) :
    billed which (records ++ [record]) =
      billed which records + ((record.delta which).getD 0).toNat := by
  rw [billed, List.map_append, List.sum_append, List.map_singleton, List.sum_singleton, billed]

/-- The baseline of a session is what it was billed for and what moved it besides. -/
structure Balanced (sessionId : String) (calls : List UsageCall) (s : SessionState) : Prop where
  clean : s.poisoned = false
  seq : s.publishedSeq = UInt64.ofNat (published sessionId calls).length
  counts : ∀ which, ∃ last, s.count which = some last ∧
    billed which (published sessionId calls) + unbilled which 0 (settled sessionId calls) =
      last.toNat ∧
    lastCount which (settled sessionId calls) = last.toNat ∧
    (last = 0 ∨ ∃ payload ∈ notifications sessionId calls, payload.count which = some last)

/-- A record that is measured from the baseline of its session. -/
structure Measured (sessionId : String) (calls : List UsageCall) (s : SessionState)
    (record : TurnUsage) : Prop where
  seq : record.turnSeq = s.publishedSeq + 1
  reliable : record.deltaReliable = true
  counts : ∀ which, ∃ last current, s.count which = some last ∧
    record.cumulative which = some current ∧ last ≤ current ∧
    record.delta which = some (current - last) ∧
    ∃ payload ∈ notifications sessionId calls, payload.count which = some current

/-- The accounts of a session are in order. -/
structure Conserved (sessionId : String) (calls : List UsageCall) (t : UsageTracker) : Prop where
  unseeded : .seedZeroBaseline sessionId ∉ calls → t.entry sessionId = none ∧
    settled sessionId calls = [] ∧ ∀ record, t.pending = some record → record.sessionId ≠ sessionId
  seeded : .seedZeroBaseline sessionId ∈ calls → ∃ s, t.entry sessionId = some s ∧
    Balanced sessionId calls s ∧ ∀ record, t.pending = some record →
      record.sessionId = sessionId → Measured sessionId calls s record
  observed : t.inFlightSession = some sessionId →
    t.inputAbsenceObserved = false ∧ t.outputAbsenceObserved = false
  numbered : ∀ (i : Nat) (record : TurnUsage), (published sessionId calls)[i]? = some record →
    record.turnSeq = UInt64.ofNat (i + 1) ∧ record.deltaReliable = true ∧
      ∀ which, (record.delta which).isSome

theorem Balanced.of_same (h : Balanced sessionId calls s)
    (hsettled : settled sessionId calls' = settled sessionId calls)
    (hmore : notifications sessionId calls ⊆ notifications sessionId calls') :
    Balanced sessionId calls' s := by
  have hpublished : published sessionId calls' = published sessionId calls := by
    rw [published, hsettled, published]
  constructor
  case clean => exact h.clean
  case seq =>
    rw [hpublished]
    exact h.seq
  case counts =>
    intro which
    obtain ⟨last, hcount, hsum, hlast, hfrom⟩ := h.counts which
    rw [hsettled, hpublished]
    refine ⟨last, hcount, hsum, hlast, ?_⟩
    rcases hfrom with hzero | ⟨payload, hmem, hpayload⟩
    · exact .inl hzero
    · exact .inr ⟨payload, hmore hmem, hpayload⟩

theorem Measured.of_subset (h : Measured sessionId calls s record)
    (hmore : notifications sessionId calls ⊆ notifications sessionId calls') :
    Measured sessionId calls' s record := by
  refine ⟨h.seq, h.reliable, fun which => ?_⟩
  obtain ⟨last, current, hcount, hcumulative, hle, hdelta, payload, hmem, hpayload⟩ := h.counts which
  exact ⟨last, current, hcount, hcumulative, hle, hdelta, payload, hmore hmem, hpayload⟩

theorem notifications_subset_snoc (sessionId : String) (calls : List UsageCall) (call : UsageCall) :
    notifications sessionId calls ⊆ notifications sessionId (calls ++ [call]) := by
  rw [notifications_snoc]
  exact List.subset_append_left _ _

/-- A call that leaves the accounts of a session. -/
theorem Conserved.same {t' : UsageTracker} (h : Conserved sessionId calls t)
    (hcall : call ≠ .seedZeroBaseline sessionId)
    (hsettled : settled sessionId (calls ++ [call]) = settled sessionId calls)
    (hentry : t'.entry sessionId = t.entry sessionId)
    (hpending : ∀ record, t'.pending = some record → record.sessionId = sessionId →
      t.pending = some record)
    (hobserved : t'.inFlightSession = some sessionId →
      t'.inputAbsenceObserved = false ∧ t'.outputAbsenceObserved = false) :
    Conserved sessionId (calls ++ [call]) t' := by
  have hmore := notifications_subset_snoc sessionId calls call
  have hmem : .seedZeroBaseline sessionId ∈ calls ++ [call] ↔ .seedZeroBaseline sessionId ∈ calls := by
    rw [List.mem_append, List.mem_singleton]
    exact or_iff_left fun heq => hcall heq.symm
  constructor
  case unseeded =>
    intro hseed
    obtain ⟨hnone, hempty, hother⟩ := h.unseeded fun hseed' => hseed (hmem.mpr hseed')
    refine ⟨hentry.trans hnone, hsettled.trans hempty, ?_⟩
    intro record hrecord heq
    exact hother record (hpending record hrecord heq) heq
  case seeded =>
    intro hseed
    obtain ⟨s, hs, hbalanced, hmeasured⟩ := h.seeded (hmem.mp hseed)
    refine ⟨s, hentry.trans hs, hbalanced.of_same hsettled hmore, ?_⟩
    intro record hrecord heq
    exact (hmeasured record (hpending record hrecord heq) heq).of_subset hmore
  case observed => exact hobserved
  case numbered =>
    rw [published, hsettled]
    exact h.numbered

namespace UsageTracker

variable {t : UsageTracker}

/-- A flush is of the session in flight, where something was missing. -/
theorem entry_flush (h : t.inFlightSession = some sessionId →
    t.inputAbsenceObserved = false ∧ t.outputAbsenceObserved = false) :
    t.flush.entry sessionId = t.entry sessionId := by
  rw [flush]
  split
  · rename_i hobserved
    split
    · rename_i prevSession hprev
      rw [entry_latchSession]
      apply if_neg
      rintro rfl
      obtain ⟨hinput, houtput⟩ := h hprev
      rw [hinput, houtput] at hobserved
      cases hobserved
    · rfl
  · rfl

theorem entry_record_of_ne (h : other ≠ sessionId) (payload : UsageUpdatePayload) :
    (t.record other payload).entry sessionId = t.entry sessionId := by
  rw [record]
  split
  · rfl
  · split
    · exact (entry_insert _ _ _ t).trans (if_neg h.symm)
    · rw [recordOther]
      split
      · exact (entry_latchSession _ _ _ _ t).trans (if_neg h.symm)
      · rfl

theorem inFlightSession_record (sessionId : String) (payload : UsageUpdatePayload) :
    (t.record sessionId payload).inFlightSession = t.inFlightSession := by
  rw [record]
  split
  · rfl
  · split
    · rfl
    · rw [recordOther]
      split
      · rfl
      · rfl

/-- A notification of a session that is not in flight changes its entry at most. -/
theorem record_of_not_inFlight (h : t.inFlightSession ≠ some sessionId)
    (payload : UsageUpdatePayload) :
    (t.record sessionId payload).pending = t.pending ∧
      (t.record sessionId payload).inputAbsenceObserved = t.inputAbsenceObserved ∧
      (t.record sessionId payload).outputAbsenceObserved = t.outputAbsenceObserved := by
  rw [record, if_neg h]
  split
  · exact ⟨rfl, rfl, rfl⟩
  · rw [recordOther]
    split
    · exact ⟨rfl, rfl, rfl⟩
    · exact ⟨rfl, rfl, rfl⟩

end UsageTracker

namespace Conserved

open UsageTracker (after)

variable {calls : List UsageCall} {sessionId : String}

theorem init : Conserved sessionId [] .default where
  unseeded _ := ⟨rfl, rfl, fun _ h => by cases h⟩
  seeded h := by cases h
  observed h := by cases h
  numbered _ _ h := by cases h

theorem beginTurn (h : Conserved sessionId calls (after calls)) (other : String) :
    Conserved sessionId (calls ++ [.beginTurn other]) ((after calls).beginTurn other) := by
  apply h.same
  · intro heq
    cases heq
  · exact settled_same rfl
  · exact UsageTracker.entry_flush h.observed
  · intro record hrecord
    cases hrecord
  · exact fun _ => ⟨rfl, rfl⟩

/-- A notification of another session. -/
theorem record_of_ne (h : Conserved sessionId calls (after calls)) (hne : other ≠ sessionId)
    (payload : UsageUpdatePayload) :
    Conserved sessionId (calls ++ [.record other payload]) ((after calls).record other payload) := by
  by_cases hflight : (after calls).inFlightSession = some other
  · apply h.same
    · intro heq
      cases heq
    · exact settled_same (if_neg fun h' => hne h'.1)
    · exact UsageTracker.entry_record_of_ne hne payload
    · intro record hrecord heq
      rw [UsageTracker.record, if_pos hflight] at hrecord
      cases hrecord
      exact absurd heq hne
    · intro hflight'
      rw [UsageTracker.inFlightSession_record, hflight] at hflight'
      exact absurd (Option.some_inj.mp hflight') hne
  · obtain ⟨hpending, hinput, houtput⟩ := UsageTracker.record_of_not_inFlight hflight payload
    apply h.same
    · intro heq
      cases heq
    · exact settled_same (if_neg fun h' => hne h'.1)
    · exact UsageTracker.entry_record_of_ne hne payload
    · intro record hrecord _
      rwa [hpending] at hrecord
    · intro hflight'
      rw [UsageTracker.inFlightSession_record] at hflight'
      rw [hinput, houtput]
      exact h.observed hflight'

/-- A notification that is due: the session is seeded, and the counts have not gone back. -/
theorem due (hseeded : SeededFirst sessionId (calls ++ [.record sessionId payload]))
    (hsteady : Steady (notifications sessionId (calls ++ [.record sessionId payload]))) :
    .seedZeroBaseline sessionId ∈ calls ∧ payload.accumulatedCost = none ∧
      ∀ which, ∃ current, payload.count which = some current ∧
        ∀ earlier ∈ notifications sessionId calls, ∀ count, earlier.count which = some count →
          count ≤ current := by
  rw [notifications_record] at hsteady
  have hmem : payload ∈ notifications sessionId calls ++ [payload] :=
    List.mem_append_right _ (List.mem_singleton_self _)
  refine ⟨hseeded calls payload [] rfl, hsteady.costless payload hmem, fun which => ?_⟩
  obtain ⟨current, hcurrent⟩ := Option.isSome_iff_exists.mp (hsteady.told payload hmem which)
  refine ⟨current, hcurrent, fun earlier hearlier count hcount => ?_⟩
  exact (List.pairwise_append.mp hsteady.ordered).2.2 earlier hearlier payload
    (List.mem_singleton_self _) which count current hcount hcurrent

/-- A baseline is not above a notification that is due. -/
theorem baseline_le (h : Balanced sessionId calls s) (which : Count)
    (hdue : ∀ earlier ∈ notifications sessionId calls, ∀ count,
      earlier.count which = some count → count ≤ current) :
    ∃ last, s.count which = some last ∧ last ≤ current := by
  obtain ⟨last, hcount, _, _, hfrom⟩ := h.counts which
  refine ⟨last, hcount, ?_⟩
  rcases hfrom with rfl | ⟨earlier, hearlier, hlast⟩
  · exact UInt64.le_iff_toNat_le.mpr (Nat.zero_le _)
  · exact hdue earlier hearlier last hlast

theorem turnDelta_due {s : SessionState} {payload : UsageUpdatePayload}
    (hclean : s.poisoned = false) (hcost : payload.accumulatedCost = none)
    (hinput : payload.accumulatedInputTokens = some currentInput)
    (houtput : payload.accumulatedOutputTokens = some currentOutput)
    (hlastInput : s.lastInput = some lastInput) (hlastOutput : s.lastOutput = some lastOutput)
    (hinputLe : lastInput ≤ currentInput) (houtputLe : lastOutput ≤ currentOutput) :
    turnDelta (some s) false false payload =
      ⟨true, some (currentInput - lastInput), some (currentOutput - lastOutput), none,
        s.publishedSeq + 1⟩ := by
  rw [SessionState.poisoned, Bool.or_eq_false_iff] at hclean
  have hordered : ¬ (currentInput < lastInput ∨ currentOutput < lastOutput) := by
    rw [not_or, UInt64.not_lt, UInt64.not_lt]
    exact ⟨hinputLe, houtputLe⟩
  rw [turnDelta, hclean.1, hclean.2, hinput, houtput, hlastInput, hlastOutput, hcost]
  dsimp only
  rw [if_neg hordered]
  rfl

/-- A notification of the turn in flight. -/
theorem recordInFlight (h : Conserved sessionId calls (after calls))
    (hflight : (after calls).inFlightSession = some sessionId)
    (hseeded : SeededFirst sessionId (calls ++ [.record sessionId payload]))
    (hsteady : Steady (notifications sessionId (calls ++ [.record sessionId payload]))) :
    Conserved sessionId (calls ++ [.record sessionId payload])
      ((after calls).recordInFlight sessionId payload) := by
  obtain ⟨hseed, hcost, hcounts⟩ := due hseeded hsteady
  obtain ⟨s, hs, hbalanced, _⟩ := h.seeded hseed
  obtain ⟨hinputSeen, houtputSeen⟩ := h.observed hflight
  obtain ⟨input, hinput, hinputs⟩ := hcounts .input
  obtain ⟨output, houtput, houtputs⟩ := hcounts .output
  obtain ⟨lastInput, hlastInput, hinputLe⟩ := baseline_le hbalanced .input hinputs
  obtain ⟨lastOutput, hlastOutput, houtputLe⟩ := baseline_le hbalanced .output houtputs
  have hdelta := turnDelta_due hbalanced.clean hcost hinput houtput hlastInput hlastOutput hinputLe
    houtputLe
  have hinputSome : payload.accumulatedInputTokens.isNone = false := by
    rw [show payload.accumulatedInputTokens = some input from hinput]
    rfl
  have houtputSome : payload.accumulatedOutputTokens.isNone = false := by
    rw [show payload.accumulatedOutputTokens = some output from houtput]
    rfl
  have hmeasured : turnDelta ((after calls).entry sessionId)
      ((after calls).inputAbsenceObserved || payload.accumulatedInputTokens.isNone)
      ((after calls).outputAbsenceObserved || payload.accumulatedOutputTokens.isNone) payload =
        ⟨true, some (input - lastInput), some (output - lastOutput), none, s.publishedSeq + 1⟩ := by
    rw [hs, hinputSeen, houtputSeen, hinputSome, houtputSome]
    exact hdelta
  have hmore := notifications_subset_snoc sessionId calls (.record sessionId payload)
  have hidle : settled sessionId (calls ++ [.record sessionId payload]) =
      settled sessionId calls := by
    apply settled_same
    apply if_neg
    rw [hflight]
    rintro ⟨_, h'⟩
    cases h'
  have hself : payload ∈ notifications sessionId (calls ++ [.record sessionId payload]) := by
    rw [notifications_record]
    exact List.mem_append_right _ (List.mem_singleton_self _)
  constructor
  case unseeded =>
    intro hseed'
    exact absurd (List.mem_append_left _ hseed) hseed'
  case seeded =>
    intro _
    refine ⟨s, hs, hbalanced.of_same hidle hmore, ?_⟩
    intro record hrecord _
    obtain ⟨record', hrecord', hseq, hreliable, hdeltaInput, hdeltaOutput, _, hcumulativeInput,
      hcumulativeOutput⟩ := UsageTracker.pending_recordInFlight (after calls) hmeasured
    rw [hrecord'] at hrecord
    cases hrecord
    refine ⟨hseq, hreliable, fun which => ?_⟩
    cases which with
    | input =>
      exact ⟨lastInput, input, hlastInput, hcumulativeInput.trans hinput, hinputLe, hdeltaInput,
        payload, hself, hinput⟩
    | output =>
      exact ⟨lastOutput, output, hlastOutput, hcumulativeOutput.trans houtput, houtputLe,
        hdeltaOutput, payload, hself, houtput⟩
  case observed =>
    intro _
    rw [UsageTracker.recordInFlight]
    dsimp only
    rw [hinputSeen, houtputSeen, hinputSome, houtputSome]
    exact ⟨rfl, rfl⟩
  case numbered =>
    rw [published, hidle]
    exact h.numbered

/-- A move of the baseline to `current`. -/
theorem balanced_move {move : Settlement} {next : SessionState} (current : Count → UInt64)
    (h : Balanced sessionId calls s) (hclean : next.poisoned = false)
    (hsettled : settled sessionId (calls ++ [call]) = settled sessionId calls ++ [move])
    (hseq : next.publishedSeq = UInt64.ofNat (published sessionId (calls ++ [call])).length)
    (hnext : ∀ which, next.count which = some (current which))
    (hmove : ∀ which, move.count which = (current which).toNat)
    (hmoved : ∀ which last, s.count which = some last →
      billed which (published sessionId (calls ++ [call])) + unbilled which last.toNat [move] =
        billed which (published sessionId calls) + ((current which).toNat - last.toNat))
    (hle : ∀ which last, s.count which = some last → last ≤ current which)
    (hfrom : ∀ which, ∃ payload ∈ notifications sessionId (calls ++ [call]),
      payload.count which = some (current which)) :
    Balanced sessionId (calls ++ [call]) next := by
  refine ⟨hclean, hseq, fun which => ⟨current which, hnext which, ?_, ?_, .inr (hfrom which)⟩⟩
  · obtain ⟨last, hlast, hsum, hlastCount, _⟩ := h.counts which
    have hmoved' := hmoved which last hlast
    have hle' := UInt64.le_iff_toNat_le.mp (hle which last hlast)
    rw [hsettled, unbilled_snoc_zero, hlastCount]
    omega
  · rw [hsettled, lastCount_snoc, hmove which]

/-- A notification while no turn is in flight. -/
theorem recordIdle (h : Conserved sessionId calls (after calls))
    (hflight : (after calls).inFlightSession = none)
    (hpending : (after calls).pending = none)
    (hseeded : SeededFirst sessionId (calls ++ [.record sessionId payload]))
    (hsteady : Steady (notifications sessionId (calls ++ [.record sessionId payload]))) :
    Conserved sessionId (calls ++ [.record sessionId payload])
      ((after calls).recordIdle sessionId payload) := by
  obtain ⟨hseed, hcost, hcounts⟩ := due hseeded hsteady
  obtain ⟨s, hs, hbalanced, _⟩ := h.seeded hseed
  choose current hcurrent hdue using hcounts
  have hexisting : ((after calls).entry sessionId).getD .unknown = s := by
    rw [hs]
    rfl
  have hsettled : settled sessionId (calls ++ [.record sessionId payload]) =
      settled sessionId calls ++ [.idle payload] := by
    rw [settled_snoc]
    congr 1
    exact if_pos ⟨rfl, hflight⟩
  have hpublished : published sessionId (calls ++ [.record sessionId payload]) =
      published sessionId calls := by
    rw [published, hsettled, List.filterMap_append, published]
    exact List.append_nil _
  have hself : payload ∈ notifications sessionId (calls ++ [.record sessionId payload]) := by
    rw [notifications_record]
    exact List.mem_append_right _ (List.mem_singleton_self _)
  have hmove : ∀ which, (Settlement.idle payload).count which = (current which).toNat := by
    intro which
    rw [Settlement.count, hcurrent which]
    rfl
  constructor
  case unseeded =>
    intro hseed'
    exact absurd (List.mem_append_left _ hseed) hseed'
  case seeded =>
    intro _
    refine ⟨_, (UsageTracker.entry_insert _ _ _ _).trans (if_pos rfl), ?_, ?_⟩
    · apply balanced_move current hbalanced _ hsettled
      · rw [hpublished, hexisting]
        exact hbalanced.seq
      · intro which
        cases which with
        | input => exact hcurrent .input
        | output => exact hcurrent .output
      · exact hmove
      · intro which last _
        rw [hpublished, unbilled, hmove which]
        rfl
      · intro which last hlast
        obtain ⟨last', hlast', hle⟩ := baseline_le hbalanced which (hdue which)
        rw [hlast] at hlast'
        cases hlast'
        exact hle
      · exact fun which => ⟨payload, hself, hcurrent which⟩
      · have hclean := Bool.or_eq_false_iff.mp hbalanced.clean
        rw [SessionState.poisoned, hexisting, hclean.1, hclean.2]
        dsimp only
        rw [show payload.accumulatedInputTokens = _ from hcurrent .input,
          show payload.accumulatedOutputTokens = _ from hcurrent .output]
        rfl
    · intro record hrecord
      rw [UsageTracker.recordIdle] at hrecord
      rw [hpending] at hrecord
      cases hrecord
  case observed =>
    intro hflight'
    exact h.observed hflight'
  case numbered =>
    rw [hpublished]
    exact h.numbered

theorem record (h : Conserved sessionId calls (after calls)) (other : String)
    (payload : UsageUpdatePayload)
    (hseeded : SeededFirst sessionId (calls ++ [.record other payload]))
    (hsteady : Steady (notifications sessionId (calls ++ [.record other payload]))) :
    Conserved sessionId (calls ++ [.record other payload]) ((after calls).record other payload) := by
  have hsticky := UsageTracker.Sticky.after calls
  by_cases hne : other = sessionId
  · rw [hne] at hseeded hsteady ⊢
    rw [UsageTracker.record]
    split
    · rename_i hflight
      exact h.recordInFlight hflight hseeded hsteady
    · rename_i hother
      split
      · rename_i hnone
        apply h.recordIdle hnone _ hseeded hsteady
        apply Option.eq_none_iff_forall_ne_some.mpr
        intro record hrecord
        have hflight := hsticky.pendingFor record hrecord
        rw [hnone] at hflight
        cases hflight
      · rename_i hflight
        obtain ⟨_, _, hcounts⟩ := due hseeded hsteady
        obtain ⟨input, hinput, _⟩ := hcounts .input
        obtain ⟨output, houtput, _⟩ := hcounts .output
        have hsame : (after calls).recordOther sessionId payload = after calls := by
          rw [UsageTracker.recordOther, show payload.accumulatedInputTokens = _ from hinput,
            show payload.accumulatedOutputTokens = _ from houtput]
          rfl
        rw [hsame]
        apply h.same
        · intro heq
          cases heq
        · exact settled_same (if_neg fun h' => hflight h'.2)
        · rfl
        · exact fun record hrecord _ => hrecord
        · exact h.observed
  · exact h.record_of_ne hne payload

theorem seedZeroBaseline (h : Conserved sessionId calls (after calls)) (other : String) :
    Conserved sessionId (calls ++ [.seedZeroBaseline other])
      ((after calls).seedZeroBaseline other) := by
  have hsettled : settled sessionId (calls ++ [.seedZeroBaseline other]) =
      settled sessionId calls := settled_same rfl
  have hmore := notifications_subset_snoc sessionId calls (.seedZeroBaseline other)
  rw [UsageTracker.seedZeroBaseline]
  by_cases hne : other = sessionId
  · subst hne
    have hnow : UsageCall.seedZeroBaseline other ∈ calls ++ [.seedZeroBaseline other] :=
      List.mem_append_right _ (List.mem_singleton_self _)
    by_cases hseed : .seedZeroBaseline other ∈ calls
    · obtain ⟨s, hs, hbalanced, hmeasured⟩ := h.seeded hseed
      rw [hs]
      constructor
      case unseeded => exact fun hseed' => absurd hnow hseed'
      case seeded =>
        refine fun _ => ⟨s, hs, hbalanced.of_same hsettled hmore, ?_⟩
        exact fun record hrecord heq => (hmeasured record hrecord heq).of_subset hmore
      case observed => exact h.observed
      case numbered =>
        rw [published, hsettled]
        exact h.numbered
    · obtain ⟨hnone, hempty, hother⟩ := h.unseeded hseed
      rw [hnone]
      constructor
      case unseeded => exact fun hseed' => absurd hnow hseed'
      case seeded =>
        refine fun _ => ⟨.zero, (UsageTracker.entry_insert _ _ _ _).trans (if_pos rfl), ?_,
          fun record hrecord heq => absurd heq (hother record hrecord)⟩
        constructor
        case clean => rfl
        case seq =>
          rw [published, hsettled, hempty]
          rfl
        case counts =>
          intro which
          rw [published, hsettled, hempty]
          refine ⟨0, ?_, rfl, rfl, .inl rfl⟩
          cases which with
          | input => rfl
          | output => rfl
      case observed => exact h.observed
      case numbered =>
        rw [published, hsettled]
        exact h.numbered
  · apply h.same
    · intro heq
      cases heq
      exact hne rfl
    · exact hsettled
    · split
      · rfl
      · exact (UsageTracker.entry_insert _ _ _ _).trans (if_neg (Ne.symm hne))
    · intro record hrecord _
      split at hrecord
      · exact hrecord
      · exact hrecord
    · intro hflight
      split at hflight
      · exact h.observed hflight
      · exact h.observed hflight

/-- A record that is published. -/
theorem takePublished (h : Conserved sessionId calls (after calls))
    (hpending : (after calls).pending = some pending) (hsession : pending.sessionId = sessionId) :
    Conserved sessionId (calls ++ [.take]) (after calls).take.2 := by
  have hseed : .seedZeroBaseline sessionId ∈ calls := by
    by_contra hseed
    exact (h.unseeded hseed).2.2 pending hpending hsession
  obtain ⟨s, hs, hbalanced, hmeasured⟩ := h.seeded hseed
  obtain ⟨hseq, hreliable, hcounts⟩ := hmeasured pending hpending hsession
  choose last current hlast hcumulative hle hdelta hfrom using hcounts
  have hflight := (UsageTracker.Sticky.after calls).pendingFor pending hpending
  rw [hsession] at hflight
  obtain ⟨hinputSeen, houtputSeen⟩ := h.observed hflight
  generalize hrecord : ({ pending with
    pricingIdentity := (after calls).pendingIdentity.bind id } : TurnUsage) = record
  have htake : (after calls).take.1 = some record := by
    rw [UsageTracker.take, hpending, ← hrecord]
  have hsettled : settled sessionId (calls ++ [.take]) =
      settled sessionId calls ++ [.published record] := by
    rw [settled_snoc]
    congr 1
    rw [UsageTracker.settles, htake]
    apply if_pos
    rw [← hrecord]
    exact hsession
  have hpublished : published sessionId (calls ++ [.take]) =
      published sessionId calls ++ [record] := by
    rw [published, hsettled, List.filterMap_append]
    rfl
  have hnumber : record.turnSeq = UInt64.ofNat ((published sessionId calls).length + 1) := by
    rw [← hrecord, UInt64.ofNat_add, ← hbalanced.seq]
    exact hseq
  have hdelta' : ∀ which, record.delta which = some (current which - last which) := by
    intro which
    rw [← hrecord, ← hdelta which]
    cases which with
    | input => rfl
    | output => rfl
  have hcumulative' : ∀ which, record.cumulative which = some (current which) := by
    intro which
    rw [← hrecord, ← hcumulative which]
    cases which with
    | input => rfl
    | output => rfl
  have hmove : ∀ which, (Settlement.published record).count which = (current which).toNat := by
    intro which
    rw [Settlement.count, hcumulative' which]
    rfl
  have hexisting : ((after calls).entry pending.sessionId).getD .unknown = s := by
    rw [hsession, hs]
    rfl
  have hentry : ∃ next, (after calls).take.2.entry sessionId = some next ∧
      next.poisoned = false ∧ next.publishedSeq = record.turnSeq ∧
      ∀ which, next.count which = record.cumulative which := by
    rw [UsageTracker.take, hpending, ← hrecord]
    refine ⟨_, (UsageTracker.entry_insert _ _ _ _).trans (if_pos hsession.symm), ?_, rfl, ?_⟩
    · have hclean := Bool.or_eq_false_iff.mp hbalanced.clean
      dsimp only
      rw [SessionState.poisoned, hexisting, hclean.1, hclean.2, hinputSeen, houtputSeen]
      dsimp only
      rw [show pending.cumulativeInputTokens = _ from hcumulative .input,
        show pending.cumulativeOutputTokens = _ from hcumulative .output]
      rfl
    · intro which
      cases which with
      | input => rfl
      | output => rfl
  obtain ⟨next, hnext, hclean, hnextSeq, hnextCount⟩ := hentry
  have hended : (after calls).take.2.pending = none ∧
      (after calls).take.2.inFlightSession = none := by
    rw [UsageTracker.take, hpending]
    exact ⟨rfl, rfl⟩
  have hmore := notifications_subset_snoc sessionId calls .take
  constructor
  case unseeded =>
    intro hseed'
    exact absurd (List.mem_append_left _ hseed) hseed'
  case seeded =>
    refine fun _ => ⟨next, hnext, ?_, ?_⟩
    · apply balanced_move current hbalanced hclean hsettled
      · rw [hnextSeq, hnumber, hpublished, List.length_append, List.length_singleton]
      · exact fun which => (hnextCount which).trans (hcumulative' which)
      · exact hmove
      · intro which last' hlast'
        rw [hlast which] at hlast'
        cases hlast'
        rw [hpublished, billed_snoc, hdelta' which, Option.getD_some,
          UInt64.toNat_sub_of_le _ _ (hle which)]
        rfl
      · intro which last' hlast'
        rw [hlast which] at hlast'
        cases hlast'
        exact hle which
      · intro which
        obtain ⟨payload, hmem, hpayload⟩ := hfrom which
        exact ⟨payload, hmore hmem, hpayload⟩
    · intro record' hrecord'
      rw [hended.1] at hrecord'
      cases hrecord'
  case observed =>
    intro hflight'
    rw [hended.2] at hflight'
    cases hflight'
  case numbered =>
    intro i record' hi
    rw [hpublished] at hi
    rcases ListAt.getElem?_snoc hi with hi | ⟨rfl, rfl⟩
    · exact h.numbered i record' hi
    · refine ⟨hnumber, ?_, fun which => ?_⟩
      · rw [← hrecord]
        exact hreliable
      · rw [hdelta' which]
        rfl

theorem take (h : Conserved sessionId calls (after calls)) :
    Conserved sessionId (calls ++ [.take]) (after calls).take.2 := by
  cases hpending : (after calls).pending with
  | some pending =>
    by_cases hsession : pending.sessionId = sessionId
    · exact h.takePublished hpending hsession
    · apply h.same
      · intro heq
        cases heq
      · apply settled_same
        rw [UsageTracker.settles, UsageTracker.take, hpending]
        exact if_neg hsession
      · rw [UsageTracker.take, hpending]
        exact (UsageTracker.entry_insert _ _ _ _).trans (if_neg (Ne.symm hsession))
      · intro record hrecord
        rw [UsageTracker.take, hpending] at hrecord
        cases hrecord
      · rw [UsageTracker.take, hpending]
        exact fun _ => ⟨rfl, rfl⟩
  | none =>
    apply h.same
    · intro heq
      cases heq
    · apply settled_same
      rw [UsageTracker.settles, UsageTracker.take, hpending]
    · rw [UsageTracker.take, hpending]
      rfl
    · intro record hrecord
      rw [UsageTracker.take, hpending] at hrecord
      cases hrecord
    · rw [UsageTracker.take, hpending]
      exact fun _ => ⟨rfl, rfl⟩

theorem after_calls (calls : List UsageCall) (hseeded : SeededFirst sessionId calls)
    (hsteady : Steady (notifications sessionId calls)) :
    Conserved sessionId calls (after calls) := by
  induction calls using List.reverseRecOn with
  | nil => exact init
  | append_singleton calls call ih =>
    have hbefore : Steady (notifications sessionId calls) := by
      rw [notifications_snoc] at hsteady
      exact hsteady.prefix
    have h := ih hseeded.prefix hbefore
    rw [UsageTracker.after_snoc]
    cases call with
    | beginTurn other => exact h.beginTurn other
    | record other payload => exact h.record other payload hseeded hsteady
    | seedZeroBaseline other => exact h.seedZeroBaseline other
    | take => exact h.take

end Conserved

theorem unbilled_eq_zero {moves : List Settlement} (h : ∀ payload, .idle payload ∉ moves)
    (which : Count) (last : Nat) : unbilled which last moves = 0 := by
  induction moves generalizing last with
  | nil => rfl
  | cons move moves ih =>
    have hrest : ∀ payload, .idle payload ∉ moves :=
      fun payload hmem => h payload (List.mem_cons_of_mem _ hmem)
    cases move with
    | published record => exact ih hrest _
    | idle payload => exact absurd List.mem_cons_self (h payload)

/-- A seeded session whose counts do not go back is billed for all that was told in its turns: its
records are numbered without a gap and reliable, and at each of them the deltas so far, with what
the baseline was moved by while no turn was in flight, make up the count that it tells. -/
theorem usage_conserved (sessionId : String) (calls : List UsageCall)
    (hseeded : SeededFirst sessionId calls) (hsteady : Steady (notifications sessionId calls)) :
    (∀ (i : Nat) (record : TurnUsage), (published sessionId calls)[i]? = some record →
      record.turnSeq = UInt64.ofNat (i + 1) ∧ record.deltaReliable = true ∧
        ∀ which, (record.delta which).isSome) ∧
    ∀ record, (UsageTracker.after calls).take.1 = some record → record.sessionId = sessionId →
      ∀ which, ∃ count, record.cumulative which = some count ∧
        billed which (published sessionId (calls ++ [.take])) +
          unbilled which 0 (settled sessionId (calls ++ [.take])) = count.toNat ∧
        ((∀ payload, .idle payload ∉ settled sessionId (calls ++ [.take])) →
          billed which (published sessionId (calls ++ [.take])) = count.toNat) := by
  have h := Conserved.after_calls calls hseeded hsteady
  refine ⟨h.numbered, ?_⟩
  intro record hrecord hsession which
  obtain ⟨pending, hpending, heq⟩ := UsageTracker.take_eq_some hrecord
  have hpendingSession : pending.sessionId = sessionId := by
    rw [heq] at hsession
    exact hsession
  have hseed : .seedZeroBaseline sessionId ∈ calls := by
    by_contra hseed
    exact (h.unseeded hseed).2.2 pending hpending hpendingSession
  obtain ⟨s, _, _, hmeasured⟩ := h.seeded hseed
  obtain ⟨_, count, _, hcount, _⟩ := (hmeasured pending hpending hpendingSession).counts which
  have hcumulative : record.cumulative which = some count := by
    rw [heq, ← hcount]
    cases which with
    | input => rfl
    | output => rfl
  obtain ⟨next, _, hbalanced, _⟩ := h.take.seeded (List.mem_append_left _ hseed)
  obtain ⟨last, _, hsum, hlast, _⟩ := hbalanced.counts which
  have hsettles : (UsageTracker.after calls).settles sessionId .take = [.published record] := by
    rw [UsageTracker.settles, hrecord]
    exact if_pos hsession
  have htold : last.toNat = count.toNat := by
    rw [← hlast, settled_snoc, hsettles, lastCount_snoc, Settlement.count, hcumulative]
    rfl
  refine ⟨count, hcumulative, hsum.trans htold, fun hnoIdle => ?_⟩
  rw [← htold, ← hsum, unbilled_eq_zero hnoIdle, Nat.add_zero]

/-- Two turns of a seeded session, with a notification in between while no turn is in flight. -/
def idleCalls : List UsageCall :=
  [.seedZeroBaseline "session", .beginTurn "session",
    .record "session" (countsOnly (some 10) (some 1)), .take,
    .record "session" (countsOnly (some 25) (some 2)), .beginTurn "session",
    .record "session" (countsOnly (some 30) (some 3))]

theorem seededFirst_idleCalls : SeededFirst "session" idleCalls := by
  intro before payload rest heq
  cases before with
  | nil => cases heq
  | cons first before =>
    rw [← (List.cons.inj heq).1]
    exact List.mem_cons_self

theorem countsOnly_le {input input' output output' : UInt64} (hinput : input ≤ input')
    (houtput : output ≤ output') (which : Count) (i j : UInt64)
    (hi : (countsOnly (some input) (some output)).count which = some i)
    (hj : (countsOnly (some input') (some output')).count which = some j) : i ≤ j := by
  cases which with
  | input =>
    cases hi
    cases hj
    exact hinput
  | output =>
    cases hi
    cases hj
    exact houtput

theorem steady_idleCalls : Steady (notifications "session" idleCalls) := by
  have hnotifications : notifications "session" idleCalls =
      [countsOnly (some 10) (some 1), countsOnly (some 25) (some 2),
        countsOnly (some 30) (some 3)] := rfl
  rw [hnotifications]
  constructor
  case told =>
    intro payload hmem which
    rw [List.mem_cons, List.mem_pair] at hmem
    rcases hmem with rfl | rfl | rfl
    · cases which <;> rfl
    · cases which <;> rfl
    · cases which <;> rfl
  case costless =>
    intro payload hmem
    rw [List.mem_cons, List.mem_pair] at hmem
    rcases hmem with rfl | rfl | rfl
    · rfl
    · rfl
    · rfl
  case ordered =>
    rw [List.pairwise_cons]
    refine ⟨?_, List.pairwise_pair.mpr (countsOnly_le (by decide) (by decide))⟩
    intro payload hmem
    rcases List.mem_pair.mp hmem with rfl | rfl
    · exact countsOnly_le (by decide) (by decide)
    · exact countsOnly_le (by decide) (by decide)

/-- What comes between the two turns is on no record. -/
theorem usage_conserved_idle : ∃ record count,
    (UsageTracker.after idleCalls).take.1 = some record ∧
    record.cumulativeInputTokens = some count ∧
    billed .input (published "session" (idleCalls ++ [.take])) +
      unbilled .input 0 (settled "session" (idleCalls ++ [.take])) = count.toNat := by
  have hrun : ∃ record, (UsageTracker.after idleCalls).take.1 = some record ∧
      record.sessionId = "session" := ⟨_, rfl, rfl⟩
  obtain ⟨record, hrecord, hsession⟩ := hrun
  obtain ⟨count, hcount, hsum, _⟩ := (usage_conserved "session" idleCalls seededFirst_idleCalls
    steady_idleCalls).2 record hrecord hsession .input
  exact ⟨record, count, hrecord, hcount, hsum⟩

/-- The deltas of a seeded session do not make up what its last record tells. -/
theorem usage_idle_unbilled : ∃ calls record,
    SeededFirst "session" calls ∧ Steady (notifications "session" calls) ∧
    (UsageTracker.after calls).take.1 = some record ∧ record.sessionId = "session" ∧
    record.cumulativeInputTokens = some 30 ∧
    billed .input (published "session" (calls ++ [.take])) = 15 :=
  ⟨idleCalls, _, seededFirst_idleCalls, steady_idleCalls, rfl, rfl, rfl, rfl⟩

end Buzz.Acp
