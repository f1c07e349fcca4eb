import Buzz.Agent.SteersCarried
import Buzz.Agent.TurnRun

namespace Buzz.Agent
set_option autoImplicit true

/-- Whether the provider answers a request, other than by a rejection of its context. -/
def TurnEvent.answers : TurnEvent → Bool
  | .completed (.error (.llmContextExceeded _)) => false
  | .completed _ => true
  | _ => false

namespace Phase

/-- A handoff that a rejection forces. -/
def forced : Phase → Bool
  | .summarizing (.recovery _ _) => true
  | _ => false

/-- A handoff that is attempted before a request. -/
def attempted : Phase → Bool
  | .summarizing .preflight => true
  | _ => false

/-- Whether a rejected request waits for the handoff that gives its round back. -/
def refundable : Phase → Bool
  | .summarizing (.recovery _ _) => true
  | .postCompact (.recovery _ _) _ _ => true
  | _ => false

/-- Whether the last request may not have been answered. -/
def unanswered : Phase → Bool
  | .completing => true
  | .done _ => true
  | phase => phase.refundable

/-- Whether no handoff is under way and no request out, and the rounds are not what ends the run. -/
def quiet : Phase → Bool
  | .done (.ok stop) => stop ≠ .maxTurnRequests
  | .summarizing _ => false
  | .postCompact _ _ _ => false
  | .completing => false
  | _ => true

theorem unanswered_of_compacting {phase : Phase} (h : phase.compacting = true) :
    phase.unanswered = false := by
  cases phase with
  | summarizing reason | postCompact reason =>
    cases reason with
    | preflight => rfl
    | recovery => cases h
  | _ => cases h

end Phase

namespace Move

def answers : Move → Bool
  | .steps _ e _ => e.answers
  | _ => false

def forces : Move → Bool
  | .steps _ _ t' => t'.phase.forced
  | _ => false

def attempts : Move → Bool
  | .steps _ _ t' => t'.phase.attempted
  | _ => false

end Move

/-- The counts that a step keeps. -/
structure SameCounts (t t' : Turn) : Prop where
  requests : t'.requests = t.requests
  round : t'.round = t.round
  contextRecoveries : t'.contextRecoveries = t.contextRecoveries
  handoffAttempts : t'.handoffAttempts = t.handoffAttempts

/-- What a step does to the counts. -/
inductive Accounts (cfg : Config) (t : Turn) (e : TurnEvent) (t' : Turn) : Prop where
  | spent (hphase : t.phase = .boundary) (hspent : cfg.maxRounds ≤ t.round)
      (hphase' : t'.phase = .done (.ok .maxTurnRequests)) (hsame : SameCounts t t')
  | attempt (hphase : t.phase = .boundary) (hrounds : 0 < cfg.maxRounds → t.round < cfg.maxRounds)
      (hspare : t.handoffAttempts < cfg.maxHandoffs)
      (hphase' : t'.phase = .summarizing .preflight)
      (hsame : SameCounts { t with handoffAttempts := t.handoffAttempts + 1 } t')
  | request (hfrom : t.phase.compacting = true ∨
        t.phase = .boundary ∧ (0 < cfg.maxRounds → t.round < cfg.maxRounds))
      (hphase' : t'.phase = .completing) (hrequests : t'.requests.length = t.requests.length + 1)
      (hsame : SameCounts { t with requests := t'.requests, round := t.round + 1 } t')
  | rung (hspare : t.contextRecoveries < maxContextRecoveriesPerRun)
      (hphase' : (∃ bytes error, t'.phase = .summarizing (.recovery bytes error)) ∨
        ∃ error, t'.phase = .done (.error error))
      (hsame : SameCounts { t with contextRecoveries := t.contextRecoveries + 1 } t')
  | refund (hphase : t.phase.refundable = true) (hphase' : t'.phase = .boundary)
      (hsame : SameCounts { t with round := t.round - 1 } t')
  | kept (hrefundable : t'.phase.refundable → t.phase.refundable)
      (hcompacting : t'.phase.compacting → t.phase.compacting)
      (hunanswered : t.phase.unanswered → e.answers ∨ t'.phase.unanswered)
      (hhandoff : t'.phase.forced = false ∧ t'.phase.attempted = false)
      (hdone : t'.phase ≠ .done (.ok .maxTurnRequests)) (hsame : SameCounts t t')

namespace Accounts

variable {cfg : Config} {t t' : Turn} {e : TurnEvent}

/-- A step to where no handoff is under way. -/
theorem quiet (hunanswered : t.phase.unanswered = true → e.answers = true ∨ ∃ result, t'.phase = .done result)
    (hquiet : t'.phase.quiet = true) (hsame : SameCounts t t') : Accounts cfg t e t' := by
  have hphase : t'.phase.refundable = false ∧ t'.phase.compacting = false ∧
      t'.phase.forced = false ∧ t'.phase.attempted = false ∧
      t'.phase ≠ .done (.ok .maxTurnRequests) := by
    cases hphase : t'.phase with
    | done result =>
      refine ⟨rfl, rfl, rfl, rfl, ?_⟩
      intro hdone
      rw [hphase, hdone] at hquiet
      cases hquiet
    | summarizing => rw [hphase] at hquiet; cases hquiet
    | postCompact => rw [hphase] at hquiet; cases hquiet
    | completing => rw [hphase] at hquiet; cases hquiet
    | boundary | stopHooks | preflight | executing =>
      refine ⟨rfl, rfl, rfl, rfl, ?_⟩
      intro hdone
      cases hdone
  obtain ⟨hrefundable, hcompacting, hforced, hattempted, hdone⟩ := hphase
  refine .kept ?_ ?_ ?_ ⟨hforced, hattempted⟩ hdone hsame
  · rw [hrefundable]
    intro h
    cases h
  · rw [hcompacting]
    intro h
    cases h
  · intro h
    rcases hunanswered h with hanswers | ⟨result, hresult⟩
    · exact .inl hanswers
    · right
      rw [hresult]
      rfl

theorem recoveryRung (rejectedBytes : Nat) (error : String) :
    Accounts cfg t e (t.recoveryRung rejectedBytes error) := by
  rw [Turn.recoveryRung]
  split
  · exact .quiet (fun _ => .inr ⟨_, rfl⟩) rfl ⟨rfl, rfl, rfl, rfl⟩
  · rename_i hspare
    have hspare := Nat.not_le.mp hspare
    dsimp only
    split
    · exact .rung hspare (.inr ⟨_, rfl⟩) ⟨rfl, rfl, rfl, rfl⟩
    · exact .rung hspare (.inl ⟨_, _, rfl⟩) ⟨rfl, rfl, rfl, rfl⟩

theorem roundBoundary (hphase : t.phase = .boundary) :
    Accounts cfg t .boundary (t.roundBoundary cfg) := by
  rw [Turn.roundBoundary]
  split
  · rename_i hspent
    exact .spent hphase hspent.2 rfl ⟨rfl, rfl, rfl, rfl⟩
  · rename_i hrounds
    have hspare : 0 < cfg.maxRounds → t.round < cfg.maxRounds := by
      intro hpos
      by_contra hfull
      exact hrounds ⟨hpos, Nat.not_lt.mp hfull⟩
    split
    · exact quiet (fun _ => .inr ⟨_, rfl⟩) rfl ⟨rfl, rfl, rfl, rfl⟩
    · dsimp only
      split
      · rename_i hhandoff
        exact .attempt hphase hspare hhandoff.2 rfl ⟨rfl, rfl, rfl, rfl⟩
      · exact .request (.inr ⟨hphase, hspare⟩) rfl List.length_append ⟨rfl, rfl, rfl, rfl⟩

theorem handoffSkipped (reason : HandoffReason) (hphase : t.phase = .summarizing reason) :
    Accounts cfg t e (t.handoffSkipped cfg reason) := by
  cases reason with
  | preflight =>
    have hfrom : t.phase.compacting = true := by
      rw [hphase]
      rfl
    exact .request (.inl hfrom) rfl List.length_append ⟨rfl, rfl, rfl, rfl⟩
  | recovery bytes error => exact recoveryRung bytes error

theorem summarized (reason : HandoffReason) (summary : Except AgentError String)
    (hphase : t.phase = .summarizing reason) :
    Accounts cfg t (.summarized summary) (t.summarized cfg reason summary) := by
  cases summary with
  | error => exact handoffSkipped reason hphase
  | ok s =>
    rw [Turn.summarized]
    split
    · exact handoffSkipped reason hphase
    · refine .kept ?_ ?_ ?_ ⟨rfl, rfl⟩ ?_ ⟨rfl, rfl, rfl, rfl⟩
      · rw [hphase]
        cases reason with
        | preflight | recovery => exact id
      · rw [hphase]
        cases reason with
        | preflight | recovery => exact id
      · rw [hphase]
        cases reason with
        | preflight | recovery => exact fun h => .inr h
      · intro h
        cases h

theorem handoffPerformed (reason : HandoffReason) (summary : String) (prompt : Option String)
    (outputs : List (String × String)) (hphase : t.phase = .postCompact reason summary prompt) :
    Accounts cfg t e (t.handoffPerformed reason summary prompt outputs) := by
  cases reason with
  | preflight =>
    have hfrom : t.phase.compacting = true := by
      rw [hphase]
      rfl
    exact .request (.inl hfrom) rfl List.length_append ⟨rfl, rfl, rfl, rfl⟩
  | recovery bytes error =>
    have hrefundable : t.phase.refundable = true := by
      rw [hphase]
      rfl
    exact .refund hrefundable rfl ⟨rfl, rfl, rfl, rfl⟩

theorem rejected (error : AgentError) :
    Accounts cfg t (.completed (.error error)) (t.rejected error) := by
  cases error with
  | unsupportedImageInput text =>
    rw [Turn.rejected]
    dsimp only
    split
    · exact quiet (fun _ => .inl rfl) rfl ⟨rfl, rfl, rfl, rfl⟩
    · exact quiet (fun _ => .inl rfl) rfl ⟨rfl, rfl, rfl, rfl⟩
  | llmContextExceeded error => exact recoveryRung _ error
  | _ => exact quiet (fun _ => .inl rfl) rfl ⟨rfl, rfl, rfl, rfl⟩

theorem responded (r : LlmResponse) :
    Accounts cfg t (.completed (.ok r)) (t.responded cfg r) := by
  obtain ⟨usage, pricingIdentity, tokens, bytes, hrecord⟩ := Turn.recordUsage_eq cfg r t
  rw [Turn.responded, hrecord]
  split
  · rw [Turn.maxTokensResponse]
    dsimp only
    split
    · exact quiet (fun _ => .inl rfl) rfl ⟨rfl, rfl, rfl, rfl⟩
    · exact quiet (fun _ => .inl rfl) rfl ⟨rfl, rfl, rfl, rfl⟩
  · split
    · rw [Turn.finalResponse]
      split
      · exact quiet (fun _ => .inl rfl) rfl ⟨rfl, rfl, rfl, rfl⟩
      · dsimp only
        split
        · exact quiet (fun _ => .inl rfl) rfl ⟨rfl, rfl, rfl, rfl⟩
        · have hquiet : (Phase.done (.ok (mapStop r.stop))).quiet = true := by
            cases r.stop with
            | endTurn | toolUse | maxTokens | refusal | other => rfl
          exact quiet (fun _ => .inl rfl) hquiet ⟨rfl, rfl, rfl, rfl⟩
    · exact quiet (fun _ => .inl rfl) rfl ⟨rfl, rfl, rfl, rfl⟩

theorem stopHooksReturned (outputs : List (String × String)) (nonce : Nat → Nat)
    (hphase : t.phase = .stopHooks) : Accounts cfg t e (t.stopHooksReturned cfg outputs nonce) := by
  have hunanswered : t.phase.unanswered = false := by
    rw [hphase]
    rfl
  rw [Turn.stopHooksReturned]
  split
  · exact quiet (fun _ => .inr ⟨_, rfl⟩) rfl ⟨rfl, rfl, rfl, rfl⟩
  · exact quiet (fun h => absurd h (by rw [hunanswered]; decide)) rfl ⟨rfl, rfl, rfl, rfl⟩

theorem preflightCall (batch : Batch) (idx : Nat) (call : ToolCall) (skill : ToolResult)
    (hunanswered : t.phase.unanswered = false) :
    Accounts cfg t e (t.preflightCall cfg batch idx call skill) := by
  have hanswered : ∀ {P : Prop}, t.phase.unanswered = true → P := by
    intro P h
    rw [hunanswered] at h
    cases h
  rw [Turn.preflightCall]
  split_ifs
  · exact quiet hanswered rfl ⟨rfl, rfl, rfl, rfl⟩
  · exact quiet hanswered rfl ⟨rfl, rfl, rfl, rfl⟩
  · exact quiet hanswered rfl ⟨rfl, rfl, rfl, rfl⟩
  · exact quiet hanswered rfl ⟨rfl, rfl, rfl, rfl⟩

theorem tasksFinished (batch : Batch) (hunanswered : t.phase.unanswered = false) :
    Accounts cfg t e (t.tasksFinished batch) := by
  rw [Turn.tasksFinished]
  split
  · exact quiet (fun _ => .inr ⟨_, rfl⟩) rfl ⟨rfl, rfl, rfl, rfl⟩
  · exact quiet (fun h => absurd h (by rw [hunanswered]; decide)) rfl ⟨rfl, rfl, rfl, rfl⟩

end Accounts

theorem TurnStep.accounts {cfg : Config} {t t' : Turn} {e : TurnEvent} (h : TurnStep cfg t e t') :
    Accounts cfg t e t' := by
  have hcalm : ∀ {phase : Phase}, t.phase = phase → phase.unanswered = false →
      t.phase.unanswered = false := by
    rintro phase rfl hphase
    exact hphase
  cases h with
  | boundary hphase => exact .roundBoundary hphase
  | cancelled => exact .quiet (fun _ => .inr ⟨_, rfl⟩) rfl ⟨rfl, rfl, rfl, rfl⟩
  | summarized hphase => exact .summarized _ _ hphase
  | postCompacted hphase => exact .handoffPerformed _ _ _ _ hphase
  | @completed result hphase =>
    cases result with
    | ok r => exact .responded r
    | error error => exact .rejected error
  | stopHooks hphase => exact .stopHooksReturned _ _ hphase
  | preflight hphase => exact .preflightCall _ _ _ _ (hcalm hphase rfl)
  | finished hphase => exact .tasksFinished _ (hcalm hphase rfl)
  | spawned hphase | joined hphase | lost hphase | drain hphase =>
    have hunanswered := hcalm hphase rfl
    exact .quiet (fun h => absurd h (by rw [hunanswered]; decide)) rfl ⟨rfl, rfl, rfl, rfl⟩

/-- What a run has used of its rounds, its recoveries and its handoffs. -/
structure Budgeted (cfg : Config) (moves : List Move) (t : Turn) : Prop where
  requests : t.requests.length + t.phase.refundable.toNat ≤ t.round + t.contextRecoveries
  recoveries : t.contextRecoveries ≤ maxContextRecoveriesPerRun
  forced : moves.countP Move.forces ≤ t.contextRecoveries
  attempted : moves.countP Move.attempts ≤ t.handoffAttempts
  attempts : t.handoffAttempts ≤ cfg.maxHandoffs
  rounds : 0 < cfg.maxRounds → t.round + t.phase.compacting.toNat ≤ cfg.maxRounds
  answered : t.round ≤ moves.countP Move.answers + t.phase.unanswered.toNat
  spent : t.phase = .done (.ok .maxTurnRequests) → cfg.maxRounds ≤ moves.countP Move.answers

namespace Budgeted

variable {cfg : Config} {moves : List Move} {t t' : Turn} {e : TurnEvent}

theorem start (session : Session) (prompt : List ContentBlock) :
    Budgeted cfg [] ((session.turn cfg).start prompt) := by
  have hstart : ((session.turn cfg).start prompt).phase = .boundary ∨
      ∃ error, ((session.turn cfg).start prompt).phase = .done (.error error) := by
    rw [Turn.start]
    split
    · exact .inr ⟨_, rfl⟩
    · split
      · exact .inr ⟨_, rfl⟩
      · exact .inl rfl
  have hcounts : ((session.turn cfg).start prompt).requests = [] ∧
      ((session.turn cfg).start prompt).round = 0 ∧
      ((session.turn cfg).start prompt).contextRecoveries = 0 ∧
      ((session.turn cfg).start prompt).handoffAttempts = 0 := by
    rw [Turn.start]
    split
    · exact ⟨rfl, rfl, rfl, rfl⟩
    · split
      · exact ⟨rfl, rfl, rfl, rfl⟩
      · exact ⟨rfl, rfl, rfl, rfl⟩
  generalize (session.turn cfg).start prompt = t at hstart hcounts
  obtain ⟨hrequests, hround, hrecoveries, hattempts⟩ := hcounts
  have hphase : t.phase.refundable = false ∧ t.phase.compacting = false ∧
      t.phase ≠ .done (.ok .maxTurnRequests) := by
    rcases hstart with hphase | ⟨error, hphase⟩
    · rw [hphase]
      exact ⟨rfl, rfl, fun h => by cases h⟩
    · rw [hphase]
      exact ⟨rfl, rfl, fun h => by cases h⟩
  obtain ⟨hrefundable, hcompacting, hdone⟩ := hphase
  constructor
  · rw [hrequests, hrefundable]
    exact Nat.zero_le _
  · rw [hrecoveries]
    exact Nat.zero_le _
  · exact Nat.zero_le _
  · exact Nat.zero_le _
  · rw [hattempts]
    exact Nat.zero_le _
  · rw [hround, hcompacting]
    exact fun _ => Nat.zero_le _
  · rw [hround]
    exact Nat.zero_le _
  · exact fun h => absurd h hdone

/-- What the client does is no step of the run. -/
theorem client {move : Move} {cancel : Bool} {steer : List (List ContentBlock)}
    (h : Budgeted cfg moves t) (hforces : move.forces = false) (hattempts : move.attempts = false)
    (hanswers : move.answers = false) : Budgeted cfg (moves ++ [move]) { t with cancel, steer } := by
  have hcount : ∀ p : Move → Bool, p move = false → (moves ++ [move]).countP p = moves.countP p := by
    intro p hp
    rw [List.countP_append, List.countP_singleton, hp]
    rfl
  constructor
  · exact h.requests
  · exact h.recoveries
  · rw [hcount _ hforces]
    exact h.forced
  · rw [hcount _ hattempts]
    exact h.attempted
  · exact h.attempts
  · exact h.rounds
  · rw [hcount _ hanswers]
    exact h.answered
  · rw [hcount _ hanswers]
    exact h.spent

theorem step (h : Budgeted cfg moves t) (hstep : TurnStep cfg t e t') :
    Budgeted cfg (moves ++ [.steps t e t']) t' := by
  have hcount : ∀ p : Move → Bool, (moves ++ [Move.steps t e t']).countP p =
      moves.countP p + (p (.steps t e t')).toNat := by
    intro p
    rw [List.countP_append, List.countP_singleton, Bool.toNat]
    cases p (.steps t e t') with
    | true | false => rfl
  have hforces : Move.forces (.steps t e t') = t'.phase.forced := rfl
  have hattempts : Move.attempts (.steps t e t') = t'.phase.attempted := rfl
  have hanswers : Move.answers (.steps t e t') = e.answers := rfl
  obtain ⟨hrequests, hrecoveries, hforced, hattempted, hmax, hrounds, hanswered, _⟩ := h
  rcases hstep.accounts with ⟨hphase, hspent, hphase', hsame⟩ |
    ⟨hphase, hroom, hspare, hphase', hsame⟩ | ⟨hfrom, hphase', hmade, hsame⟩ |
    ⟨hspare, hphase', hsame⟩ | ⟨hphase, hphase', hsame⟩ |
    ⟨hrefundable, hcompacting, hunanswered, hhandoff, hdone, hsame⟩
  · obtain ⟨hsameRequests, hsameRound, hsameRecoveries, hsameAttempts⟩ := hsame
    have hall : t.round ≤ moves.countP Move.answers := by
      rw [hphase] at hanswered
      exact hanswered
    constructor
    all_goals simp only [hcount, hforces, hattempts, hanswers, hphase', hsameRequests, hsameRound,
      hsameRecoveries, hsameAttempts, Phase.refundable, Phase.compacting, Phase.forced,
      Phase.attempted, Phase.unanswered, Bool.toNat_false, Bool.toNat_true]
    all_goals omega
  · obtain ⟨hsameRequests, hsameRound, hsameRecoveries, hsameAttempts⟩ := hsame
    have hall : t.round ≤ moves.countP Move.answers := by
      rw [hphase] at hanswered
      exact hanswered
    constructor
    case spent =>
      rw [hphase']
      nofun
    all_goals simp only [hcount, hforces, hattempts, hanswers, hphase', hsameRequests, hsameRound,
      hsameRecoveries, hsameAttempts, Phase.refundable, Phase.compacting, Phase.forced,
      Phase.attempted, Phase.unanswered, Bool.toNat_false, Bool.toNat_true]
    all_goals omega
  · obtain ⟨_, hsameRound, hsameRecoveries, hsameAttempts⟩ := hsame
    have hroom : 0 < cfg.maxRounds → t.round + 1 ≤ cfg.maxRounds := by
      rcases hfrom with hfrom | ⟨_, hroom⟩
      · rw [hfrom] at hrounds
        exact hrounds
      · exact hroom
    have hall : t.round ≤ moves.countP Move.answers := by
      have hnone : t.phase.unanswered = false := by
        rcases hfrom with hfrom | ⟨hphase, _⟩
        · exact Phase.unanswered_of_compacting hfrom
        · rw [hphase]
          rfl
      rw [hnone] at hanswered
      exact hanswered
    constructor
    case spent =>
      rw [hphase']
      nofun
    all_goals simp only [hcount, hforces, hattempts, hanswers, hphase', hmade, hsameRound,
      hsameRecoveries, hsameAttempts, Phase.refundable, Phase.compacting, Phase.forced,
      Phase.attempted, Phase.unanswered, Bool.toNat_false, Bool.toNat_true]
    all_goals omega
  · obtain ⟨hsameRequests, hsameRound, hsameRecoveries, hsameAttempts⟩ := hsame
    have hone := Bool.toNat_le t.phase.unanswered
    have hphases : t'.phase.refundable.toNat ≤ 1 ∧ t'.phase.forced.toNat ≤ 1 ∧
        t'.phase.compacting = false ∧ t'.phase.attempted = false ∧ t'.phase.unanswered = true ∧
        t'.phase ≠ .done (.ok .maxTurnRequests) := by
      rcases hphase' with ⟨bytes, error, hphase'⟩ | ⟨error, hphase'⟩
      · rw [hphase']
        exact ⟨le_rfl, le_rfl, rfl, rfl, rfl, nofun⟩
      · rw [hphase']
        exact ⟨Nat.zero_le _, Nat.zero_le _, rfl, rfl, rfl, nofun⟩
    obtain ⟨hrefundable, hforcing, hcompacting, hattempting, hunanswered, hdone⟩ := hphases
    constructor
    case spent => exact fun h => absurd h hdone
    all_goals simp only [hcount, hforces, hattempts, hanswers, hsameRequests, hsameRound,
      hsameRecoveries, hsameAttempts, hcompacting, hattempting, hunanswered, Bool.toNat_false,
      Bool.toNat_true]
    all_goals omega
  · obtain ⟨hsameRequests, hsameRound, hsameRecoveries, hsameAttempts⟩ := hsame
    have hone := Bool.toNat_le t.phase.unanswered
    rw [hphase] at hrequests
    rw [Bool.toNat_true] at hrequests
    constructor
    case spent =>
      rw [hphase']
      nofun
    all_goals simp only [hcount, hforces, hattempts, hanswers, hphase', hsameRequests, hsameRound,
      hsameRecoveries, hsameAttempts, Phase.refundable, Phase.compacting, Phase.forced,
      Phase.attempted, Phase.unanswered, Bool.toNat_false]
    all_goals omega
  · obtain ⟨hsameRequests, hsameRound, hsameRecoveries, hsameAttempts⟩ := hsame
    have hlessRefundable := Bool.toNat_le_toNat hrefundable
    have hlessCompacting := Bool.toNat_le_toNat hcompacting
    have hlessUnanswered : t.phase.unanswered.toNat ≤
        e.answers.toNat + t'.phase.unanswered.toNat := by
      cases hout : t.phase.unanswered with
      | false => exact Nat.zero_le _
      | true =>
        rcases hunanswered hout with hanswers | hout'
        · rw [hanswers]
          exact Nat.le_add_right _ _
        · rw [hout']
          exact Nat.le_add_left _ _
    constructor
    case spent => exact fun h => absurd h hdone
    all_goals simp only [hcount, hforces, hattempts, hanswers, hsameRequests, hsameRound,
      hsameRecoveries, hsameAttempts, hhandoff.1, hhandoff.2, Bool.toNat_false]
    all_goals omega

end Budgeted

theorem PromptRun.budgeted {cfg : Config} {session : Session} {prompt : List ContentBlock}
    {moves : List Move} {t : Turn} (h : PromptRun cfg session prompt moves t) :
    Budgeted cfg moves t := by
  apply Run.history h (.start session prompt)
  intro moves t move t' ih hstep
  cases hstep with
  | steps hstep => exact ih.step hstep
  | cancel => exact ih.client rfl rfl rfl
  | steer => exact ih.client rfl rfl rfl

/-- A run asks the provider at most once a round, but for the requests whose rounds are given back,
and it does not end for its rounds before as many requests are answered. -/
theorem promptRun_budget {cfg : Config} {session : Session} {prompt : List ContentBlock}
    {moves : List Move} {t : Turn} (hrounds : 0 < cfg.maxRounds)
    (h : PromptRun cfg session prompt moves t) :
    t.requests.length ≤ cfg.maxRounds + maxContextRecoveriesPerRun ∧
    moves.countP Move.forces ≤ maxContextRecoveriesPerRun ∧
    moves.countP Move.attempts ≤ cfg.maxHandoffs ∧
    (t.phase = .done (.ok .maxTurnRequests) → cfg.maxRounds ≤ moves.countP Move.answers) := by
  have hbudget := h.budgeted
  refine ⟨?_, ?_, ?_, hbudget.spent⟩
  · have hround := hbudget.rounds hrounds
    have hrequests := hbudget.requests
    have hrecoveries := hbudget.recoveries
    omega
  · exact hbudget.forced.trans hbudget.recoveries
  · exact hbudget.attempted.trans hbudget.attempts

def oneRound : Config :=
  ⟨"model", 1, 1000, 1000, 10, 3, 3, false, none, []⟩

def cutOff : LlmResponse :=
  ⟨"", [], .maxTokens, none, false, none, none, none, none, none, none⟩

theorem promptRun_budget_oneRound : ∃ moves t, PromptRun oneRound Session.new [.text "hi"] moves t ∧
    t.phase = .done (.ok .maxTurnRequests) ∧ 1 ≤ moves.countP Move.answers := by
  have hrun : ∃ moves t, PromptRun oneRound Session.new [.text "hi"] moves t ∧
      t.phase = .done (.ok .maxTurnRequests) :=
    ⟨_, _, ((Run.nil.snoc (.steps (.boundary rfl))).snoc
      (.steps (@TurnStep.completed oneRound _ (.ok cutOff) rfl rfl))).snoc (.steps (.boundary rfl)), rfl⟩
  obtain ⟨moves, t, hrun, hdone⟩ := hrun
  exact ⟨moves, t, hrun, hdone, (promptRun_budget (by decide) hrun).2.2.2 hdone⟩

end Buzz.Agent
