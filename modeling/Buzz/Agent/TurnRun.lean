import Buzz.Agent.ToolPairing

namespace Buzz.Agent
set_option autoImplicit true

/-- What happens to a run: it takes a step, or the client cancels or steers it. -/
inductive Move where
  | steps (t : Turn) (e : TurnEvent) (t' : Turn)
  | cancel
  | steer (blocks : List ContentBlock)

inductive MoveStep (cfg : Config) : Turn → Move → Turn → Prop where
  | steps {t t' : Turn} {e : TurnEvent} (h : TurnStep cfg t e t') :
      MoveStep cfg t (.steps t e t') t'
  | cancel {t : Turn} : MoveStep cfg t .cancel { t with cancel := true }
  | steer {t : Turn} {blocks : List ContentBlock} :
      MoveStep cfg t (.steer blocks) { t with steer := t.steer ++ [blocks] }

/-- What a run is given of its session. -/
def Session.turn (cfg : Config) (session : Session) : Turn where
  phase := .boundary
  cancel := false
  steer := []
  history := session.history
  requests := []
  originalTask := session.originalTask
  handoffCount := session.handoffCount
  lastRequestInputTokens := session.lastRequestInputTokens
  lastRequestHistoryBytes := session.lastRequestHistoryBytes
  usage := .unseen
  pricingIdentity := none
  usageBaseline := session.accumulated
  effectiveModel := session.effectiveModel.getD cfg.model
  handoffAttempts := 0
  round := 0
  stopRejections := 0
  buzzReplyCallSeen := false
  replyNags := 0
  contextRecoveries := 0
  maxTokensRecoveries := 0

/-- The run of a prompt, as far as some moves. -/
def PromptRun (cfg : Config) (session : Session) (prompt : List ContentBlock) (moves : List Move)
    (t : Turn) : Prop :=
  Run (MoveStep cfg) ((session.turn cfg).start prompt) moves t

/-- A task of a session is the run of a prompt. -/
def Task.Runs (cfg : Config) (task : Task) : Prop :=
  ∃ session prompt moves, PromptRun cfg session prompt moves task.turn

section Tasks

variable {cfg : Config} {s : System}

theorem runs_queue (h : ∀ task ∈ s.tasks, task.Runs cfg) (k : Nat) (blocks : List ContentBlock) :
    ∀ task ∈ (s.queue k blocks).tasks, task.Runs cfg := by
  apply forall_mem_modify k h
  rintro task ⟨session, prompt, moves, hrun⟩
  exact ⟨session, prompt, _, hrun.snoc .steer⟩

theorem runs_cancelSession (h : ∀ task ∈ s.tasks, task.Runs cfg) :
    ∀ task ∈ s.cancelSession.tasks, task.Runs cfg := by
  rw [System.cancelSession]
  split
  · apply forall_mem_modify _ h
    rintro task ⟨session, prompt, moves, hrun⟩
    exact ⟨session, prompt, _, hrun.snoc .cancel⟩
  · exact h

theorem runs_prompt (h : ∀ task ∈ s.tasks, task.Runs cfg) (runId : String)
    (blocks : List ContentBlock) : ∀ task ∈ (s.prompt cfg runId blocks).tasks, task.Runs cfg := by
  rw [System.prompt]
  split
  · exact h
  · intro task htask
    rcases List.mem_append.mp htask with hold | hnew
    · exact h task hold
    · rw [List.mem_singleton.mp hnew]
      exact ⟨s.session, blocks, [], .nil⟩

theorem runs_step (h : ∀ task ∈ s.tasks, task.Runs cfg) (hstep : Step cfg s e s') :
    ∀ task ∈ s'.tasks, task.Runs cfg := by
  cases hstep with
  | prompt => exact runs_prompt h _ _
  | @steer runId blocks =>
    rw [System.steerSession]
    split
    · exact h
    · split
      · split
        · exact runs_queue h _ blocks
        · exact h
      · exact h
  | cancel => exact runs_cancelSession h
  | @setModel modelId =>
    rw [System.setModel]
    split
    · exact h
    · exact h
  | turn hk _ hturn =>
    obtain ⟨session, prompt, moves, hrun⟩ := h _ (List.mem_of_getElem? hk)
    exact forall_mem_set _ h ⟨session, prompt, _, hrun.snoc (.steps hturn)⟩
  | release hk =>
    have htask := h _ (List.mem_of_getElem? hk)
    exact forall_mem_set _ h htask
  | merge hk =>
    have htask := h _ (List.mem_of_getElem? hk)
    rw [System.merge]
    split
    · exact forall_mem_set _ h htask
    · exact forall_mem_set _ h htask
  | sendUpdate hk =>
    have htask := h _ (List.mem_of_getElem? hk)
    exact forall_mem_set _ h htask

end Tasks

/-- Each prompt of a session is a run of its own: steers, cancels and the other prompts only ever
move it as a client does. -/
theorem tasks_run {cfg : Config} {events : List Event} {s : System}
    (h : Run (Step cfg) System.init events s) : ∀ task ∈ s.tasks, task.Runs cfg := by
  induction h with
  | nil =>
    intro task htask
    cases htask
  | snoc _ hstep ih => exact runs_step ih hstep

end Buzz.Agent
