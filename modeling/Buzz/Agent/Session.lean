import Buzz.Agent.Turn
import Buzz.Lib.Run

namespace Buzz.Agent
set_option autoImplicit true

/-- A session of the agent. `cancelTx` and `steerTx` are the prompts at the other ends. -/
structure Session where
  history : List HistoryItem
  cancelTx : Option Nat
  busy : Bool
  activeRunId : Option String
  steerTx : Option Nat
  originalTask : Option String
  handoffCount : Nat
  lastRequestInputTokens : Option UInt64
  lastRequestHistoryBytes : Option Nat
  effectiveModel : Option String
  accumulated : SessionUsageBaseline

def Session.new : Session :=
  ⟨[], none, false, none, none, none, 0, none, none, none, .unseen⟩

/-- How far a prompt is: its run, the release of the session, the merge of its usage and the last
report of it. -/
inductive Stage where
  | running
  | released
  | merged (update : UsageUpdate)
  | finished

/-- An accepted prompt, with the steers that each round boundary took in. -/
structure Task where
  turn : Turn
  stage : Stage
  drains : List (List String)

/-- A session with its prompts in the order of their acceptance, the reports of its usage and the
steers that were answered ok, each with the prompt that it went to. -/
structure System where
  session : Session
  tasks : List Task
  wire : List UsageUpdate
  acknowledged : List (Nat × List ContentBlock)

namespace System

def init : System :=
  ⟨.new, [], [], []⟩

/-- A `session/prompt`, with the run id that is drawn for it. -/
def prompt (cfg : Config) (runId : String) (blocks : List ContentBlock) (s : System) : System :=
  if s.session.busy then s
  else
    let turn : Turn :=
      { phase := .boundary
        cancel := false
        steer := []
        history := s.session.history
        requests := []
        originalTask := s.session.originalTask
        handoffCount := s.session.handoffCount
        lastRequestInputTokens := s.session.lastRequestInputTokens
        lastRequestHistoryBytes := s.session.lastRequestHistoryBytes
        usage := .unseen
        pricingIdentity := none
        usageBaseline := s.session.accumulated
        effectiveModel := s.session.effectiveModel.getD cfg.model
        handoffAttempts := 0
        round := 0
        stopRejections := 0
        buzzReplyCallSeen := false
        replyNags := 0
        contextRecoveries := 0
        maxTokensRecoveries := 0 }
    { s with
      session := { s.session with
        history := []
        originalTask := none
        busy := true
        cancelTx := some s.tasks.length
        activeRunId := some runId
        steerTx := some s.tasks.length }
      tasks := s.tasks ++ [⟨turn.start blocks, .running, []⟩] }

/-- Put a steer into the queue of a prompt. -/
def queue (k : Nat) (blocks : List ContentBlock) (s : System) : System :=
  { s with
    tasks := s.tasks.modify k fun task =>
      { task with turn := { task.turn with steer := task.turn.steer ++ [blocks] } }
    acknowledged := s.acknowledged ++ [(k, blocks)] }

/-- A steer, and whether it is answered ok. -/
def steerSession (expectedRunId : String) (blocks : List ContentBlock) (s : System) :
    Bool × System :=
  if blocks.isEmpty ∨ expectedRunId = "" then (false, s)
  else if s.session.activeRunId = some expectedRunId then
    match s.session.steerTx with
    | some k => (true, s.queue k blocks)
    | none => (false, s)
  else (false, s)

def cancelSession (s : System) : System :=
  match s.session.cancelTx with
  | some k =>
    { s with
      tasks := s.tasks.modify k fun task => { task with turn := { task.turn with cancel := true } } }
  | none => s

def setModel (modelId : String) (s : System) : System :=
  if isBlank modelId then s
  else { s with session := { s.session with effectiveModel := some modelId } }

/-- The first critical section at the end of a prompt. -/
def release (k : Nat) (task : Task) (s : System) : System :=
  { s with
    session := { s.session with
      busy := false
      activeRunId := none
      steerTx := none
      history := task.turn.history
      originalTask := task.turn.originalTask
      handoffCount := task.turn.handoffCount
      lastRequestInputTokens := task.turn.lastRequestInputTokens
      lastRequestHistoryBytes := task.turn.lastRequestHistoryBytes }
    tasks := s.tasks.set k { task with stage := .released } }

end System

/-- Whether there is any usage to report. -/
def SessionUsageBaseline.seen (usage : SessionUsageBaseline) : Bool :=
  usage.inputTokens ≠ .unseen || usage.outputTokens ≠ .unseen

namespace System

/-- The second critical section: the usage of the turn is merged, where there is any. -/
def merge (k : Nat) (task : Task) (s : System) : System :=
  if task.turn.usage.seen then
    let accumulated := s.session.accumulated.mergeSession task.turn.usage
    let update := usageUpdatePayload accumulated task.turn.effectiveModel
      (task.turn.pricingIdentity.bind id)
    { s with
      session := { s.session with accumulated }
      tasks := s.tasks.set k { task with stage := .merged update } }
  else { s with tasks := s.tasks.set k { task with stage := .finished } }

def sendUpdate (k : Nat) (task : Task) (update : UsageUpdate) (s : System) : System :=
  { s with
    tasks := s.tasks.set k { task with stage := .finished }
    wire := s.wire ++ [update] }

/-- The steers that a round boundary takes in, where the run gets past its checks. -/
def drained (cfg : Config) (e : TurnEvent) (t : Turn) : List (List String) :=
  match e with
  | .boundary =>
    if (0 < cfg.maxRounds ∧ cfg.maxRounds ≤ t.round) ∨ t.cancel then []
    else [t.steer.filterMap steerText]
  | _ => []

/-- The report of a response that tells what it used. -/
def reported (e : TurnEvent) (t : Turn) : List UsageUpdate :=
  match e with
  | .completed (.ok r) => if Turn.usageBearing r then [t.usageUpdate] else []
  | _ => []

/-- A run goes on. -/
def advance (cfg : Config) (k : Nat) (task : Task) (e : TurnEvent) (t : Turn) (s : System) :
    System :=
  { s with
    tasks := s.tasks.set k { task with turn := t, drains := task.drains ++ drained cfg e task.turn }
    wire := s.wire ++ reported e t }

end System

inductive Event where
  | prompt (runId : String) (blocks : List ContentBlock)
  | steer (expectedRunId : String) (blocks : List ContentBlock)
  | cancel
  | setModel (modelId : String)
  | turn (k : Nat) (e : TurnEvent)
  | release (k : Nat)
  | merge (k : Nat)
  | sendUpdate (k : Nat)

/-- Requests of a session, steps of its prompts and their ends, in any order. -/
inductive Step (cfg : Config) : System → Event → System → Prop where
  | prompt {s : System} {runId : String} {blocks : List ContentBlock} :
      Step cfg s (.prompt runId blocks) (s.prompt cfg runId blocks)
  | steer {s : System} {expectedRunId : String} {blocks : List ContentBlock} :
      Step cfg s (.steer expectedRunId blocks) (s.steerSession expectedRunId blocks).2
  | cancel {s : System} : Step cfg s .cancel s.cancelSession
  | setModel {s : System} {modelId : String} : Step cfg s (.setModel modelId) (s.setModel modelId)
  | turn {s : System} {k : Nat} {task : Task} {e : TurnEvent} {t : Turn}
      (hk : s.tasks[k]? = some task) (hstage : task.stage = .running)
      (hstep : TurnStep cfg task.turn e t) : Step cfg s (.turn k e) (s.advance cfg k task e t)
  | release {s : System} {k : Nat} {task : Task} {result : Except AgentError StopReason}
      (hk : s.tasks[k]? = some task) (hstage : task.stage = .running)
      (hdone : task.turn.phase = .done result) : Step cfg s (.release k) (s.release k task)
  | merge {s : System} {k : Nat} {task : Task}
      (hk : s.tasks[k]? = some task) (hstage : task.stage = .released) :
      Step cfg s (.merge k) (s.merge k task)
  | sendUpdate {s : System} {k : Nat} {task : Task} {update : UsageUpdate}
      (hk : s.tasks[k]? = some task) (hstage : task.stage = .merged update) :
      Step cfg s (.sendUpdate k) (s.sendUpdate k task update)

end Buzz.Agent
