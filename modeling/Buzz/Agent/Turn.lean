import Buzz.Agent.Types

namespace Buzz.Agent
set_option autoImplicit true

def errorReflectionSuffix : String :=
  "\n\n[Reflect] Before retrying, identify the cause and change your approach."

def unsupportedImageToolMessage : String :=
  "The current model does not support image input. The image was removed from conversation " ++
  "history so this turn can continue. Use a text-based inspection tool or ask the user for a " ++
  "textual description instead."

def maxTokensRecoveryMessage : String :=
  "Your previous response reached the model's output token limit and was truncated. Any " ++
  "incomplete tool calls were discarded and were not run. Stop prolonged internal reasoning now. " ++
  "Use the available tools immediately: write a script or artifact to a file and run it in small, " ++
  "verifiable steps instead of emitting the entire solution inline. Continue the task concisely " ++
  "from the preserved text."

def replyGuardServer : String := "buzz-agent"

def replyGuardNag : String :=
  "You are about to end this turn without calling `buzz messages send`. Your assistant text and " ++
  "reasoning are never shown to anyone — if you did work, found an answer, or hit a blocker that " ++
  "someone is waiting on, it exists only if you publish it. If you already posted, or if silence " ++
  "is genuinely correct for this turn, ignore this and end your turn."

def maxPromptBytes : Nat := 1024 * 1024
def maxToolCallsPerTurn : Nat := 64
def maxReplyNags : Nat := 2
def maxContextRecoveriesPerRun : Nat := 3
def handoffMinPromptBudgetBytes : Nat := 4 * 1024
def loadSkillTool : String := "load_skill"

structure Config where
  model : String
  maxRounds : Nat
  maxHistoryBytes : Nat
  maxContextTokens : Nat
  maxHandoffs : Nat
  maxTokenRecoveries : Nat
  stopMaxRejections : Nat
  requireReply : Bool
  -- the billing namespace of the base URL, where it is an official one
  pricingAuthority : Option String
  -- the tools of the MCP servers, by qualified name, each with its bare name
  registry : List (String × String)

namespace Config

def has (cfg : Config) (name : String) : Bool :=
  (cfg.registry.lookup name).isSome

/-- Bare names that start with `_` are hooks. -/
def isHook (cfg : Config) (name : String) : Bool :=
  (cfg.registry.lookup name).any fun bare => bare.toList.head? = some '_'

end Config

def imageCount : HistoryItem → Nat
  | .toolResult r => (r.content.filter ToolResultContent.isImage).length
  | _ => 0

/-- Remove the images, and say so where there were any. -/
def withoutImages : HistoryItem → HistoryItem
  | .toolResult r =>
    if 0 < imageCount (.toolResult r) then
      .toolResult { r with
        content := r.content.filter (fun c => !c.isImage) ++ [.text unsupportedImageToolMessage]
        isError := true }
    else .toolResult r
  | item => item

/-- Remove the images of the tool results, and say how many there were. -/
def replaceUnsupportedImages (history : List HistoryItem) : Nat × List HistoryItem :=
  ((history.map imageCount).sum, history.map withoutImages)

/-- Whether a call has the shape of a publish command. -/
def isReplyShaped (name : String) (arguments : Value) : Bool :=
  "__shell".toList.isSuffixOf name.toList &&
    match arguments with
    | .object members =>
      match members.lookup "command" with
      | some (.string cmd) =>
        decide ("messages send".toList <:+: cmd.toList) ||
          decide ("reactions add".toList <:+: cmd.toList)
      | _ => false
    | _ => false

def isBuzzReplyCall (cfg : Config) (call : ToolCall) : Bool :=
  cfg.has call.name && !cfg.isHook call.name && isReplyShaped call.name call.arguments

def syntheticToolResult (call : ToolCall) (msg : String) : ToolResult :=
  ⟨call.providerId, [.text msg], true⟩

inductive InvokeOutcome where
  | done (result : ToolResult)
  | failed (msg : String)

def outcomeToResult (call : ToolCall) : InvokeOutcome → ToolResult
  | .done r => r
  | .failed m => syntheticToolResult call m

/-- The tail of a history from its next user message on. -/
def nextSegment (history : List HistoryItem) : List HistoryItem :=
  history.tail.dropWhile fun item => !item.isUser

/-- The loop of `truncateHistory`. Each round drops an item, so that `fuel` items are enough. -/
def truncateLoop (maxBytes : Nat) : Nat → Nat → List HistoryItem → List HistoryItem
  | 0, _, history => history
  | fuel + 1, total, history =>
    if total ≤ maxBytes then history
    else
      match nextSegment history with
      | [] => history
      | rest =>
        let dropped := estimatedBytes (history.take (history.length - rest.length))
        truncateLoop maxBytes fuel (total - dropped) rest

/-- Drop the oldest segments, each up to the next user message, while there is too much. -/
def truncateHistory (maxBytes : Nat) (history : List HistoryItem) : List HistoryItem :=
  truncateLoop maxBytes history.length (estimatedBytes history) history

def formatHookOutputBody (hook server text : String) : String :=
  String.ofList (Json.printObject
    [Json.printMember "hook" (Json.printString hook),
      Json.printMember "server" (Json.printString server),
      Json.printMember "text" (Json.printString text)])

def syntheticHookId (hook server : String) (ordinal : Nat) : String :=
  "buzz_hook_" ++ hook ++ "_" ++ server ++ "_" ++ String.ofList (Json.printNat ordinal)

/-- A synthetic call with its result for each hook output. `nonce` is what the process's counter
gives for each of them. -/
def pushHookOutputsAsToolResults (hook : String) (nonce : Nat → Nat)
    (outputs : List (String × String)) (history : List HistoryItem) : List HistoryItem :=
  history ++ outputs.zipIdx.flatMap fun ((server, text), i) =>
    let providerId := syntheticHookId hook server (nonce i)
    [.assistant "" [⟨providerId, server ++ "__" ++ hook, .object [], []⟩] none,
      .toolResult ⟨providerId, [.text (formatHookOutputBody hook server text)], false⟩]

def hookOutputsText (outputs : List (String × String)) : String :=
  "\n\n".intercalate (outputs.map fun (name, text) => "[" ++ name ++ "]\n" ++ text)

/-- The calls of a response that are being executed. -/
structure Batch where
  calls : List ToolCall
  results : List (Option ToolResult)
  runnable : List Nat

/-- Why a handoff is under way: before a request, or after one was too large. -/
inductive HandoffReason where
  | preflight
  | recovery (rejectedBytes : Nat) (error : String)

/-- Where a run stands: at the top of its loop or where it waits. -/
inductive Phase where
  | boundary
  | summarizing (reason : HandoffReason)
  | postCompact (reason : HandoffReason) (summary : String) (currentPrompt : Option String)
  | completing
  | stopHooks
  | preflight (batch : Batch) (idx : Nat)
  | executing (batch : Batch) (pending : List Nat) (draining : Bool)
  | done (result : Except AgentError StopReason)

/-- A run, with what it shares with the session's handler: the cancel flag and the steer queue. -/
structure Turn where
  phase : Phase
  cancel : Bool
  steer : List (List ContentBlock)
  history : List HistoryItem
  -- the history of each request made
  requests : List (List HistoryItem)
  originalTask : Option String
  handoffCount : Nat
  lastRequestInputTokens : Option UInt64
  lastRequestHistoryBytes : Option Nat
  usage : SessionUsageBaseline
  pricingIdentity : Option (Option PricingIdentity)
  usageBaseline : SessionUsageBaseline
  effectiveModel : String
  handoffAttempts : Nat
  round : Nat
  stopRejections : Nat
  buzzReplyCallSeen : Bool
  replyNags : Nat
  contextRecoveries : Nat
  maxTokensRecoveries : Nat

namespace Turn

/-- The start of `run`. -/
def start (t : Turn) (prompt : List ContentBlock) : Turn :=
  match promptToText prompt with
  | .error e => { t with phase := .done (.error e) }
  | .ok userText =>
    if maxPromptBytes < userText.utf8ByteSize then
      { t with phase := .done (.error (.invalidParams "prompt: exceeds 1048576 bytes")) }
    else
      { t with
        phase := .boundary
        originalTask := t.originalTask.orElse fun _ => some userText
        history := t.history ++ [.user userText]
        usage := .unseen
        pricingIdentity := none
        handoffAttempts := 0
        round := 0
        stopRejections := 0
        buzzReplyCallSeen := false
        replyNags := 0
        contextRecoveries := 0
        maxTokensRecoveries := 0 }

/-- Append each queued steer as a user message. -/
def drainSteers (t : Turn) : Turn :=
  { t with
    history := t.history ++ (t.steer.filterMap steerText).map .user
    steer := [] }

def tokenThreshold (maxContextTokens : Nat) : Nat :=
  maxContextTokens / 10 * 9

def byteFallbackThreshold (maxContextTokens maxHistoryBytes : Nat) : Nat :=
  min (tokenThreshold maxContextTokens) (maxHistoryBytes / 10 * 9)

def projectedHandoffInputTokens (t : Turn) : Nat :=
  match t.lastRequestInputTokens with
  | some measured =>
    let grown := contextPressureBytes t.history - t.lastRequestHistoryBytes.getD 0
    min (measured.toNat + grown) (UInt64.size - 1)
  | none => contextPressureBytes t.history

def shouldHandoff (cfg : Config) (t : Turn) : Bool :=
  match t.lastRequestInputTokens with
  | some _ => tokenThreshold cfg.maxContextTokens ≤ t.projectedHandoffInputTokens
  | none =>
    byteFallbackThreshold cfg.maxContextTokens cfg.maxHistoryBytes < contextPressureBytes t.history

/-- Call the provider with the history as it is. -/
def request (t : Turn) : Turn :=
  { t with
    phase := .completing
    round := t.round + 1
    requests := t.requests ++ [t.history] }

def truncate (cfg : Config) (t : Turn) : Turn :=
  { t with history := truncateHistory cfg.maxHistoryBytes t.history }

/-- The top of the loop, up to the handoff gate or the request. -/
def roundBoundary (cfg : Config) (t : Turn) : Turn :=
  if 0 < cfg.maxRounds ∧ cfg.maxRounds ≤ t.round then
    { t with phase := .done (.ok .maxTurnRequests) }
  else if t.cancel then { t with phase := .done (.ok .cancelled) }
  else
    let t := t.drainSteers
    if t.shouldHandoff cfg ∧ t.handoffAttempts < cfg.maxHandoffs then
      { t with phase := .summarizing .preflight, handoffAttempts := t.handoffAttempts + 1 }
    else (t.truncate cfg).request

/-- The next rung of the recovery ladder. -/
def recoveryRung (rejectedBytes : Nat) (error : String) (t : Turn) : Turn :=
  if maxContextRecoveriesPerRun ≤ t.contextRecoveries then
    { t with phase := .done (.error (.llmContextExceeded error)) }
  else
    let budget := rejectedBytes / 2 ^ min (t.contextRecoveries + 1) 63
    let t := { t with contextRecoveries := t.contextRecoveries + 1 }
    if budget < handoffMinPromptBudgetBytes then
      { t with phase := .done (.error (.llmContextExceeded error)) }
    else { t with phase := .summarizing (.recovery rejectedBytes error) }

/-- A handoff without a summary. -/
def handoffSkipped (cfg : Config) (reason : HandoffReason) (t : Turn) : Turn :=
  match reason with
  | .preflight => (t.truncate cfg).request
  | .recovery rejectedBytes error => t.recoveryRung rejectedBytes error

def currentPrompt (history : List HistoryItem) : Option String :=
  history.reverse.findSome? fun
    | .user s => some s
    | _ => none

/-- What the summarizer returned. -/
def summarized (cfg : Config) (reason : HandoffReason) (summary : Except AgentError String)
    (t : Turn) : Turn :=
  match summary with
  | .ok s =>
    if isBlank s then t.handoffSkipped cfg reason
    else { t with phase := .postCompact reason s (currentPrompt t.history), history := [] }
  | .error _ => t.handoffSkipped cfg reason

/-- The fresh history after the hooks have run. -/
def handoffPerformed (reason : HandoffReason) (summary : String) (prompt : Option String)
    (postCompact : List (String × String)) (t : Turn) : Turn :=
  let handoffText := "[Context Handoff]\n" ++ summary ++
    if postCompact.isEmpty then ""
    else "\n\n[Post-compact hook output — untrusted]\n" ++ hookOutputsText postCompact
  let t := { t with
    history := t.history ++ [HistoryItem.user handoffText] ++ (prompt.map HistoryItem.user).toList
    handoffCount := t.handoffCount + 1
    lastRequestInputTokens := none
    lastRequestHistoryBytes := none }
  match reason with
  | .preflight => t.request
  -- the round of the rejected request is given back
  | .recovery _ _ => { t with phase := .boundary, round := t.round - 1 }

/-- Whether a response tells what it used. -/
def usageBearing (r : LlmResponse) : Bool :=
  r.inputTokens.isSome || r.inputTokensOverflowed || r.outputTokens.isSome

def recordInput (r : LlmResponse) (t : Turn) : Turn :=
  if r.inputTokensOverflowed then { t with usage := { t.usage with inputTokens := .unknown } }
  else
    match r.inputTokens with
    | some tokens =>
      { t with
        lastRequestInputTokens := some tokens
        lastRequestHistoryBytes := some (contextPressureBytes t.history)
        usage := { t.usage with inputTokens := TurnIOState.foldRound t.usage.inputTokens tokens } }
    | none => t

def recordOutput (r : LlmResponse) (t : Turn) : Turn :=
  match r.outputTokens with
  | some out =>
    { t with
      usage := { t.usage with outputTokens := TurnIOState.foldRound t.usage.outputTokens out } }
  | none => t

def roundIdentity (cfg : Config) (r : LlmResponse) : Option PricingIdentity :=
  r.requestModel.bind fun model =>
    cfg.pricingAuthority.map fun authority => ⟨authority, model, none⟩

def recordUsage (cfg : Config) (r : LlmResponse) (t : Turn) : Turn :=
  let t := (t.recordInput r).recordOutput r
  if usageBearing r then
    { t with
      usage := { t.usage with
        totalState := t.usage.totalState.fold r.totalTokens
        cachedInputTokens := t.usage.cachedInputTokens.fold r.cachedInputTokens
        cacheWriteTokens := t.usage.cacheWriteTokens.fold r.cacheWriteTokens }
      pricingIdentity := foldPricingIdentity t.pricingIdentity (roundIdentity cfg r) }
  else t

/-- Recording usage changes the counts only. -/
theorem recordUsage_eq (cfg : Config) (r : LlmResponse) (t : Turn) :
    ∃ usage pricingIdentity tokens bytes, t.recordUsage cfg r =
      { t with
        usage, pricingIdentity
        lastRequestInputTokens := tokens
        lastRequestHistoryBytes := bytes } := by
  have hinput : ∃ usage tokens bytes, t.recordInput r =
      { t with usage, lastRequestInputTokens := tokens, lastRequestHistoryBytes := bytes } := by
    rw [recordInput]
    split
    · exact ⟨_, _, _, rfl⟩
    · split
      · exact ⟨_, _, _, rfl⟩
      · exact ⟨_, _, _, rfl⟩
  obtain ⟨usage, tokens, bytes, hinput⟩ := hinput
  have houtput : ∃ usage, (t.recordInput r).recordOutput r =
      { t with usage, lastRequestInputTokens := tokens, lastRequestHistoryBytes := bytes } := by
    rw [hinput, recordOutput]
    split
    · exact ⟨_, rfl⟩
    · exact ⟨_, rfl⟩
  obtain ⟨usage', houtput⟩ := houtput
  rw [recordUsage, houtput]
  dsimp only
  split
  · exact ⟨_, _, _, _, rfl⟩
  · exact ⟨_, _, _, _, rfl⟩

@[simp]
theorem recordUsage_history (cfg : Config) (r : LlmResponse) (t : Turn) :
    (t.recordUsage cfg r).history = t.history := by
  obtain ⟨_, _, _, _, h⟩ := recordUsage_eq cfg r t
  rw [h]

@[simp]
theorem recordUsage_requests (cfg : Config) (r : LlmResponse) (t : Turn) :
    (t.recordUsage cfg r).requests = t.requests := by
  obtain ⟨_, _, _, _, h⟩ := recordUsage_eq cfg r t
  rw [h]

/-- The `usage_update` of the counts so far. -/
def usageUpdate (t : Turn) : UsageUpdate :=
  usageUpdatePayload (t.usageBaseline.mergeSession t.usage) t.effectiveModel
    (t.pricingIdentity.bind id)

/-- A response that was cut off at the output limit. -/
def maxTokensResponse (cfg : Config) (r : LlmResponse) (t : Turn) : Turn :=
  let t := { t with history := t.history ++ [HistoryItem.assistant r.text [] r.reasoningDetails] }
  if cfg.maxTokenRecoveries ≤ t.maxTokensRecoveries then
    { t with phase := .done (.ok .maxTokens) }
  else
    { t with
      phase := .boundary
      maxTokensRecoveries := t.maxTokensRecoveries + 1
      history := t.history ++ [HistoryItem.user maxTokensRecoveryMessage] }

/-- A response without tool calls. -/
def finalResponse (cfg : Config) (r : LlmResponse) (t : Turn) : Turn :=
  if r.stop = .toolUse then
    { t with phase := .done (.error (.llm "provider: stop=tool_use but zero tool_calls")) }
  else
    let t := { t with history := t.history ++ [HistoryItem.assistant r.text [] r.reasoningDetails] }
    let stop := mapStop r.stop
    if stop = .endTurn ∧ t.stopRejections < cfg.stopMaxRejections then
      { t with phase := .stopHooks }
    else { t with phase := .done (.ok stop) }

def toolResponse (cfg : Config) (r : LlmResponse) (t : Turn) : Turn :=
  let calls := r.toolCalls.take maxToolCallsPerTurn
  { t with
    buzzReplyCallSeen := t.buzzReplyCallSeen ||
      (cfg.requireReply && calls.any (isBuzzReplyCall cfg))
    history := t.history ++ [.assistant r.text calls r.reasoningDetails]
    phase := .preflight ⟨calls, List.replicate calls.length none, []⟩ 0 }

def responded (cfg : Config) (r : LlmResponse) (t : Turn) : Turn :=
  let t := t.recordUsage cfg r
  if r.stop = .maxTokens then t.maxTokensResponse cfg r
  else if r.toolCalls.isEmpty then t.finalResponse cfg r
  else t.toolResponse cfg r

/-- An error of the provider. -/
def rejected (error : AgentError) (t : Turn) : Turn :=
  match error with
  | .unsupportedImageInput _ =>
    let (removed, history) := replaceUnsupportedImages t.history
    if removed = 0 then { t with phase := .done (.error error) }
    else { t with phase := .boundary, history }
  | .llmContextExceeded e => t.recoveryRung (contextPressureBytes t.history) e
  | _ => { t with phase := .done (.error error) }

def completed (cfg : Config) (result : Except AgentError LlmResponse) (t : Turn) : Turn :=
  match result with
  | .ok r => t.responded cfg r
  | .error e => t.rejected e

/-- Whether the reply guard reminds once more. -/
def nags (cfg : Config) (t : Turn) : Bool :=
  cfg.requireReply && !t.buzzReplyCallSeen && t.replyNags < maxReplyNags

/-- What the `_Stop` hooks and the reply guard say at the end of a turn. -/
def objections (cfg : Config) (outputs : List (String × String)) (t : Turn) :
    List (String × String) :=
  outputs ++ if t.nags cfg then [(replyGuardServer, replyGuardNag)] else []

def stopHooksReturned (cfg : Config) (outputs : List (String × String)) (nonce : Nat → Nat)
    (t : Turn) : Turn :=
  if (t.objections cfg outputs).isEmpty then { t with phase := .done (.ok .endTurn) }
  else
    { t with
      phase := .boundary
      replyNags := if t.nags cfg then t.replyNags + 1 else t.replyNags
      stopRejections := t.stopRejections + 1
      history := pushHookOutputsAsToolResults "_Stop" nonce (t.objections cfg outputs) t.history }

/-- The result of a call, with a prompt to reflect where it is an error. -/
def appendedResult (call : ToolCall) (result : Option ToolResult) : ToolResult :=
  let result := result.getD ⟨call.providerId, [.text "internal error: missing result"], true⟩
  if result.isError then
    { result with content := result.content ++ [.text errorReflectionSuffix] }
  else result

def appendResults (batch : Batch) (t : Turn) : Turn :=
  { t with
    history := t.history ++
      (List.zipWith appendedResult batch.calls batch.results).map .toolResult }

/-- Results for the calls at some positions that have none. -/
def fillCancelled (batch : Batch) (fills : Nat → Bool) : Batch :=
  { batch with
    results := batch.results.zipIdx.map fun (result, i) =>
      if fills i then result.orElse fun _ =>
        batch.calls[i]?.map fun call => syntheticToolResult call "cancelled"
      else result }

/-- One call of the preflight loop. `skill` is what `load_skill` returns, where it is called. -/
def preflightCall (cfg : Config) (batch : Batch) (idx : Nat) (call : ToolCall)
    (skill : ToolResult) (t : Turn) : Turn :=
  if t.cancel then
    let t := t.appendResults (fillCancelled batch fun _ => true)
    { t with phase := .done (.ok .cancelled) }
  else if call.name = loadSkillTool then
    let result := { skill with providerId := call.providerId }
    { t with
      phase := .preflight { batch with results := batch.results.set idx (some result) } (idx + 1) }
  else if !cfg.has call.name || cfg.isHook call.name then
    let result := syntheticToolResult call ("unknown tool: " ++ call.name)
    { t with
      phase := .preflight { batch with results := batch.results.set idx (some result) } (idx + 1) }
  else
    { t with
      phase := .preflight { batch with runnable := batch.runnable ++ [idx] } (idx + 1) }

/-- The calls are through the preflight: each runnable one becomes a task. -/
def spawnTasks (batch : Batch) (t : Turn) : Turn :=
  { t with phase := .executing batch batch.runnable t.cancel }

/-- A task has reported. In the drain a result that is there stays. -/
def taskJoined (batch : Batch) (pending : List Nat) (draining : Bool) (i : Nat)
    (result : ToolResult) (t : Turn) : Turn :=
  let results :=
    if draining ∧ (batch.results[i]?.join).isSome then batch.results
    else batch.results.set i (some result)
  { t with phase := .executing { batch with results } (pending.erase i) draining }

/-- A task has panicked. -/
def taskLost (batch : Batch) (pending : List Nat) (draining : Bool) (i : Nat) (t : Turn) : Turn :=
  { t with phase := .executing batch (pending.erase i) draining }

/-- No more tasks are waited for. -/
def tasksFinished (batch : Batch) (t : Turn) : Turn :=
  let t := t.appendResults (fillCancelled batch fun i => batch.runnable.contains i)
  if t.cancel then { t with phase := .done (.ok .cancelled) } else { t with phase := .boundary }

end Turn

/-- What a run waits for. -/
inductive TurnEvent where
  | boundary
  | cancelled
  | summarized (summary : Except AgentError String)
  | postCompacted (outputs : List (String × String))
  | completed (result : Except AgentError LlmResponse)
  | stopHooks (outputs : List (String × String)) (nonce : Nat → Nat)
  | preflight (skill : ToolResult)
  | spawned
  | joined (i : Nat) (outcome : InvokeOutcome)
  | lost (i : Nat)
  | drain
  | finished

inductive TurnStep (cfg : Config) : Turn → TurnEvent → Turn → Prop where
  | boundary {t : Turn} (hphase : t.phase = .boundary) :
      TurnStep cfg t .boundary (t.roundBoundary cfg)
  | cancelled {t : Turn} (hphase : t.phase = .completing ∨ ∃ reason, t.phase = .summarizing reason)
      (hcancel : t.cancel = true) :
      TurnStep cfg t .cancelled { t with phase := .done (.ok .cancelled) }
  -- a cancel is seen before what else is there
  | summarized {t : Turn} {reason : HandoffReason} {summary : Except AgentError String}
      (hphase : t.phase = .summarizing reason) (hcancel : t.cancel = false) :
      TurnStep cfg t (.summarized summary) (t.summarized cfg reason summary)
  | postCompacted {t : Turn} {reason : HandoffReason} {summary : String} {prompt : Option String}
      {outputs : List (String × String)} (hphase : t.phase = .postCompact reason summary prompt) :
      TurnStep cfg t (.postCompacted outputs) (t.handoffPerformed reason summary prompt outputs)
  | completed {t : Turn} {result : Except AgentError LlmResponse}
      (hphase : t.phase = .completing) (hcancel : t.cancel = false) :
      TurnStep cfg t (.completed result) (t.completed cfg result)
  | stopHooks {t : Turn} {outputs : List (String × String)} {nonce : Nat → Nat}
      (hphase : t.phase = .stopHooks) :
      TurnStep cfg t (.stopHooks outputs nonce) (t.stopHooksReturned cfg outputs nonce)
  | preflight {t : Turn} {batch : Batch} {idx : Nat} {call : ToolCall} {skill : ToolResult}
      (hphase : t.phase = .preflight batch idx) (hcall : batch.calls[idx]? = some call) :
      TurnStep cfg t (.preflight skill) (t.preflightCall cfg batch idx call skill)
  | spawned {t : Turn} {batch : Batch} {idx : Nat}
      (hphase : t.phase = .preflight batch idx) (hcall : batch.calls[idx]? = none) :
      TurnStep cfg t .spawned (t.spawnTasks batch)
  -- `mcp.call` returns a result under the id that it was given
  | joined {t : Turn} {batch : Batch} {pending : List Nat} {draining : Bool} {i : Nat}
      {call : ToolCall} {outcome : InvokeOutcome}
      (hphase : t.phase = .executing batch pending draining) (hi : i ∈ pending)
      (hcall : batch.calls[i]? = some call) (hcancel : draining = true ∨ t.cancel = false)
      (hid : ∀ r, outcome = .done r → r.providerId = call.providerId) :
      TurnStep cfg t (.joined i outcome)
        (t.taskJoined batch pending draining i (outcomeToResult call outcome))
  | lost {t : Turn} {batch : Batch} {pending : List Nat} {draining : Bool} {i : Nat}
      (hphase : t.phase = .executing batch pending draining) (hi : i ∈ pending)
      (hcancel : draining = true ∨ t.cancel = false) :
      TurnStep cfg t (.lost i) (t.taskLost batch pending draining i)
  | drain {t : Turn} {batch : Batch} {pending : List Nat}
      (hphase : t.phase = .executing batch pending false) (hcancel : t.cancel = true) :
      TurnStep cfg t .drain { t with phase := .executing batch pending true }
  -- all tasks are joined, or the drain has timed out
  | finished {t : Turn} {batch : Batch} {pending : List Nat} {draining : Bool}
      (hphase : t.phase = .executing batch pending draining)
      (hend : pending = [] ∨ draining = true) :
      TurnStep cfg t .finished (t.tasksFinished batch)

end Buzz.Agent
