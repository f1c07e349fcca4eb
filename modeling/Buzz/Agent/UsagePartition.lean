import Buzz.Agent.UsageLedger

namespace Buzz.Agent
set_option autoImplicit true

namespace Tally

theorem checkedExactSum_assoc (l m n : UInt64) :
    (checkedExactSum l m).mergeSession (exact n) = (exact l).mergeSession (checkedExactSum m n) := by
  have hl : checkedExactSum l m =
      if l.toNat + m.toNat < UInt64.size then exact (l + m) else unknown := rfl
  have hr : checkedExactSum m n =
      if m.toNat + n.toNat < UInt64.size then exact (m + n) else unknown := rfl
  rw [hl, hr]
  by_cases hlm : l.toNat + m.toNat < UInt64.size
  · rw [if_pos hlm]
    by_cases hmn : m.toNat + n.toNat < UInt64.size
    · rw [if_pos hmn, mergeSession, mergeSession, checkedExactSum, checkedExactSum,
        UInt64.toNat_add, UInt64.toNat_add, Nat.mod_eq_of_lt hlm, Nat.mod_eq_of_lt hmn,
        Nat.add_assoc, UInt64.add_assoc]
    · rw [if_neg hmn, mergeSession_unknown, mergeSession, checkedExactSum, UInt64.toNat_add,
        Nat.mod_eq_of_lt hlm, if_neg]
      omega
  · rw [if_neg hlm]
    by_cases hmn : m.toNat + n.toNat < UInt64.size
    · rw [if_pos hmn, mergeSession, mergeSession, checkedExactSum, UInt64.toNat_add,
        Nat.mod_eq_of_lt hmn, if_neg]
      omega
    · rw [if_neg hmn, mergeSession_unknown, mergeSession]

theorem mergeSession_assoc (t u v : Tally) :
    (t.mergeSession u).mergeSession v = t.mergeSession (u.mergeSession v) := by
  cases v with
  | unknown => rw [mergeSession_unknown, mergeSession_unknown, mergeSession_unknown]
  | unseen => rw [mergeSession_unseen, mergeSession_unseen]
  | exact n =>
    cases u with
    | unseen =>
      rw [mergeSession_unseen]
      rfl
    | unknown => rw [mergeSession_unknown]; exact (mergeSession_unknown t).symm
    | exact m =>
      cases t with
      | unseen =>
        change checkedExactSum m n = unseen.mergeSession (checkedExactSum m n)
        rw [checkedExactSum]
        split
        · rfl
        · rfl
      | unknown => rfl
      | exact l => exact checkedExactSum_assoc l m n

theorem unseen_mergeSession (t : Tally) : unseen.mergeSession t = t := by
  cases t with
  | unseen | exact | unknown => rfl

instance : Add Tally := ⟨mergeSession⟩

instance : Zero Tally := ⟨unseen⟩

/-- Counts that are merged, with the unseen one as their zero. -/
instance : AddMonoid Tally where
  add_assoc := mergeSession_assoc
  zero_add := unseen_mergeSession
  add_zero := mergeSession_unseen
  nsmul := nsmulRec

theorem add_def (t u : Tally) : t + u = t.mergeSession u := rfl

theorem zero_def : (0 : Tally) = unseen := rfl

theorem unknown_add (t : Tally) : unknown + t = unknown := rfl

theorem add_eq_add_exact (t : Tally) (n : UInt64) : t.add n = t + exact n := by
  cases t with
  | unseen | exact | unknown => rfl

/-- What a round with a value, or without one, is to a count that needs it. -/
def ofRound : Option UInt64 → Tally
  | none => unknown
  | some n => exact n

theorem fold_eq (value : Option UInt64) (t : Tally) : t.fold value = t + ofRound value := by
  cases value with
  | none => exact (mergeSession_unknown t).symm
  | some n => exact add_eq_add_exact t n

end Tally

/-- What the rounds report, where they do. -/
def reportedSum (rounds : List (Option UInt64)) : Nat :=
  (rounds.map fun round => (round.getD 0).toNat).sum

/-- The total of some rounds that all count. -/
def roundsTotal (rounds : List (Option UInt64)) : Tally :=
  if rounds = [] then .unseen
  else if (∀ round ∈ rounds, round.isSome) ∧ reportedSum rounds < UInt64.size then
    .exact (UInt64.ofNat (reportedSum rounds))
  else .unknown

theorem reportedSum_cons (round : Option UInt64) (rounds : List (Option UInt64)) :
    reportedSum (round :: rounds) = (round.getD 0).toNat + reportedSum rounds := by
  rw [reportedSum, List.map_cons, List.sum_cons]
  rfl

theorem roundsTotal_exact {rounds : List (Option UInt64)} (hne : rounds ≠ [])
    (h : (∀ round ∈ rounds, round.isSome) ∧ reportedSum rounds < UInt64.size) :
    roundsTotal rounds = .exact (UInt64.ofNat (reportedSum rounds)) := by
  rw [roundsTotal, if_neg hne, if_pos h]

theorem roundsTotal_unknown {rounds : List (Option UInt64)} (hne : rounds ≠ [])
    (h : ¬ ((∀ round ∈ rounds, round.isSome) ∧ reportedSum rounds < UInt64.size)) :
    roundsTotal rounds = .unknown := by
  rw [roundsTotal, if_neg hne, if_neg h]

/-- A reported round adds its value. -/
theorem exact_add_roundsTotal (n : UInt64) (rounds : List (Option UInt64)) :
    .exact n + roundsTotal rounds = roundsTotal (some n :: rounds) := by
  have hfirst : ((∀ round ∈ some n :: rounds, round.isSome) ∧
      reportedSum (some n :: rounds) < UInt64.size) ↔
      (∀ round ∈ rounds, round.isSome) ∧ n.toNat + reportedSum rounds < UInt64.size := by
    rw [List.forall_mem_cons, reportedSum_cons]
    exact and_congr_left' (and_iff_right rfl)
  by_cases hne : rounds = []
  · have hsize : n.toNat + 0 < UInt64.size := n.toNat_lt_size
    rw [hne] at hfirst ⊢
    rw [roundsTotal_exact (List.cons_ne_nil _ _) (hfirst.mpr ⟨nofun, hsize⟩), reportedSum_cons]
    change Tally.exact n = .exact (UInt64.ofNat n.toNat)
    rw [UInt64.ofNat_toNat]
  · by_cases hfits : (∀ round ∈ rounds, round.isSome) ∧ n.toNat + reportedSum rounds < UInt64.size
    · have hrest : reportedSum rounds < UInt64.size := by omega
      have hvalue : (UInt64.ofNat (reportedSum rounds)).toNat = reportedSum rounds :=
        UInt64.toNat_ofNat_of_lt' hrest
      rw [roundsTotal_exact hne ⟨hfits.1, hrest⟩,
        roundsTotal_exact (List.cons_ne_nil _ _) (hfirst.mpr hfits), Tally.add_def,
        Tally.mergeSession, Tally.checkedExactSum, hvalue, if_pos hfits.2, reportedSum_cons]
      congr 1
      rw [← UInt64.toNat_inj, UInt64.toNat_add, hvalue]
      change (n.toNat + reportedSum rounds) % UInt64.size =
        (UInt64.ofNat (n.toNat + reportedSum rounds)).toNat
      rw [UInt64.toNat_ofNat_of_lt' hfits.2, Nat.mod_eq_of_lt hfits.2]
    · rw [roundsTotal_unknown (List.cons_ne_nil _ _) (mt hfirst.mp hfits)]
      by_cases hrest : (∀ round ∈ rounds, round.isSome) ∧ reportedSum rounds < UInt64.size
      · have hvalue : (UInt64.ofNat (reportedSum rounds)).toNat = reportedSum rounds :=
          UInt64.toNat_ofNat_of_lt' hrest.2
        rw [roundsTotal_exact hne hrest, Tally.add_def, Tally.mergeSession, Tally.checkedExactSum,
          hvalue, if_neg fun h => hfits ⟨hrest.1, h⟩]
      · rw [roundsTotal_unknown hne hrest]
        rfl

/-- Merging counts one by one gives the mathematical sum, as long as it is known and fits. -/
theorem sum_ofRound (rounds : List (Option UInt64)) :
    (rounds.map Tally.ofRound).sum = roundsTotal rounds := by
  induction rounds with
  | nil => rfl
  | cons round rounds ih =>
    rw [List.map_cons, List.sum_cons, ih]
    cases round with
    | none =>
      rw [roundsTotal_unknown (List.cons_ne_nil _ _)]
      · exact Tally.unknown_add _
      · exact fun h => absurd (h.1 none List.mem_cons_self) Bool.false_ne_true
    | some n => exact exact_add_roundsTotal n rounds

/-- The accumulators of the token categories. -/
inductive Accumulator where
  | turnIo
  | cacheTotal
  | turnTotal

namespace Accumulator

/-- A round of a turn. Input and output are folded where the round reports them. -/
def fold : Accumulator → Tally → Option UInt64 → Tally
  | turnIo, t, none => t
  | turnIo, t, some n => TurnIOState.foldRound t n
  | cacheTotal, t, value => t.fold value
  | turnTotal, t, value => t.fold value

/-- Whether a round counts. -/
def counts : Accumulator → Option UInt64 → Bool
  | turnIo, value => value.isSome
  | _, _ => true

def counted (a : Accumulator) (rounds : List (Option UInt64)) : List (Option UInt64) :=
  rounds.filter a.counts

def turnState (a : Accumulator) (rounds : List (Option UInt64)) : Tally :=
  rounds.foldl a.fold .unseen

def sessionState (a : Accumulator) (turns : List (List (Option UInt64))) : Tally :=
  turns.foldl (fun session turn => session.mergeSession (a.turnState turn)) .unseen

/-- A round is a count that is merged in. -/
theorem fold_eq (a : Accumulator) (t : Tally) (value : Option UInt64) :
    a.fold t value = t + ((a.counted [value]).map Tally.ofRound).sum := by
  cases a with
  | turnIo =>
    cases value with
    | none => exact (Tally.mergeSession_unseen t).symm
    | some n =>
      rw [show ((turnIo.counted [some n]).map Tally.ofRound).sum = .exact n + 0 from rfl, add_zero]
      exact Tally.add_eq_add_exact t n
  | cacheTotal | turnTotal =>
    change t.fold value = t + (Tally.ofRound value + 0)
    rw [add_zero]
    exact Tally.fold_eq value t

theorem foldl_fold (a : Accumulator) (t : Tally) (rounds : List (Option UInt64)) :
    rounds.foldl a.fold t = t + roundsTotal (a.counted rounds) := by
  rw [← sum_ofRound]
  induction rounds generalizing t with
  | nil => exact (add_zero t).symm
  | cons round rounds ih =>
    have hsplit : a.counted (round :: rounds) = a.counted [round] ++ a.counted rounds :=
      List.filter_append [round] rounds
    rw [List.foldl_cons, ih, fold_eq, hsplit, List.map_append, List.sum_append, add_assoc]

theorem turnState_eq (a : Accumulator) (rounds : List (Option UInt64)) :
    a.turnState rounds = roundsTotal (a.counted rounds) := by
  rw [turnState, foldl_fold]
  exact zero_add _

/-- The turns of a session may be cut in any way. -/
theorem sessionState_flatten (a : Accumulator) (turns : List (List (Option UInt64))) :
    a.sessionState turns = a.turnState turns.flatten := by
  have hmerge : ∀ session, turns.foldl
      (fun session turn => session.mergeSession (a.turnState turn)) session =
        session + a.turnState turns.flatten := by
    induction turns with
    | nil => exact fun session => (add_zero session).symm
    | cons turn turns ih =>
      intro session
      have hflat : a.turnState (turn ++ turns.flatten) =
          a.turnState turn + a.turnState turns.flatten := by
        rw [turnState, List.foldl_append, foldl_fold, turnState_eq a turns.flatten]
        rfl
      rw [List.foldl_cons, ih, List.flatten_cons, hflat, ← add_assoc]
      rfl
  rw [sessionState, hmerge]
  exact zero_add _

theorem exactValue_roundsTotal (rounds : List (Option UInt64)) :
    ((roundsTotal rounds).exactValue.isSome ↔ rounds ≠ [] ∧ (∀ round ∈ rounds, round.isSome) ∧
      reportedSum rounds < UInt64.size) ∧
    ∀ n, (roundsTotal rounds).exactValue = some n → n.toNat = reportedSum rounds := by
  by_cases hne : rounds = []
  · rw [roundsTotal, if_pos hne]
    exact ⟨⟨nofun, fun h => absurd hne h.1⟩, nofun⟩
  · by_cases h : (∀ round ∈ rounds, round.isSome) ∧ reportedSum rounds < UInt64.size
    · rw [roundsTotal_exact hne h]
      refine ⟨⟨fun _ => ⟨hne, h⟩, fun _ => rfl⟩, ?_⟩
      intro n hn
      rw [← Option.some.inj hn]
      exact UInt64.toNat_ofNat_of_lt' h.2
    · rw [roundsTotal_unknown hne h]
      exact ⟨⟨nofun, fun h' => absurd h'.2 h⟩, nofun⟩

/-- What a session tells of a category: the mathematical sum of the rounds that count, where there
are any, all of them report it and the sum fits. -/
theorem usage_partition (a : Accumulator) (turns : List (List (Option UInt64))) :
    a.sessionState turns = a.turnState turns.flatten ∧
    ((a.sessionState turns).exactValue.isSome ↔ a.counted turns.flatten ≠ [] ∧
      (∀ round ∈ a.counted turns.flatten, round.isSome) ∧
      reportedSum (a.counted turns.flatten) < UInt64.size) ∧
    ∀ n, (a.sessionState turns).exactValue = some n →
      n.toNat = reportedSum (a.counted turns.flatten) := by
  have hvalue := exactValue_roundsTotal (a.counted turns.flatten)
  rw [← turnState_eq, ← sessionState_flatten] at hvalue
  exact ⟨sessionState_flatten a turns, hvalue⟩

/-- Without a round that counts there is nothing to tell. -/
theorem exactValue_noRounds : ∃ turns : List (List (Option UInt64)),
    (∀ round ∈ turnIo.counted turns.flatten, round.isSome) ∧
    reportedSum (turnIo.counted turns.flatten) < UInt64.size ∧
    (turnIo.sessionState turns).exactValue = none :=
  ⟨[[none], []], nofun, by decide, rfl⟩

end Accumulator

/-- A response of a run is a round of its output. -/
theorem Turn.recordOutput_outputTokens (r : LlmResponse) (t : Turn) :
    (t.recordOutput r).usage.outputTokens =
      Accumulator.turnIo.fold t.usage.outputTokens r.outputTokens := by
  rw [recordOutput]
  cases r.outputTokens with
  | none | some => rfl

end Buzz.Agent
