import Buzz.Agent.Session

namespace Buzz.Agent
set_option autoImplicit true

/-- Each message with tool calls is followed by their results in order, and no other result is. -/
inductive WellPaired : List HistoryItem → Prop where
  | nil : WellPaired []
  | user {text : String} {rest : List HistoryItem} (h : WellPaired rest) :
      WellPaired (.user text :: rest)
  | assistant {text : String} {calls : List ToolCall} {details : Option Value}
      {results : List ToolResult} {rest : List HistoryItem}
      (hids : results.map ToolResult.providerId = calls.map ToolCall.providerId)
      (h : WellPaired rest) :
      WellPaired (.assistant text calls details :: (results.map .toolResult ++ rest))

/-- A tool result without images is one for the same call. -/
theorem map_withoutImages (results : List ToolResult) :
    ∃ replaced : List ToolResult,
      (results.map HistoryItem.toolResult).map withoutImages = replaced.map .toolResult ∧
        replaced.map ToolResult.providerId = results.map ToolResult.providerId := by
  induction results with
  | nil => exact ⟨[], rfl, rfl⟩
  | cons r results ih =>
    obtain ⟨replaced, hreplaced, hsame⟩ := ih
    obtain ⟨r', hr', hid⟩ : ∃ r', withoutImages (.toolResult r) = .toolResult r' ∧
        r'.providerId = r.providerId := by
      rw [withoutImages]
      split
      · exact ⟨_, rfl, rfl⟩
      · exact ⟨r, rfl, rfl⟩
    refine ⟨r' :: replaced, ?_, ?_⟩
    · rw [List.map_cons, List.map_cons, List.map_cons, hr', hreplaced]
    · rw [List.map_cons, List.map_cons, hid, hsame]

namespace WellPaired

theorem append (h : WellPaired before) (h' : WellPaired after) : WellPaired (before ++ after) := by
  induction h with
  | nil => exact h'
  | user _ ih => exact .user ih
  | assistant hids _ ih =>
    rw [List.cons_append, List.append_assoc]
    exact .assistant hids ih

theorem users (texts : List String) : WellPaired (texts.map .user) := by
  induction texts with
  | nil => exact .nil
  | cons text texts ih => exact .user ih

theorem exchange (results : List ToolResult)
    (hids : results.map ToolResult.providerId = calls.map ToolCall.providerId) :
    WellPaired (.assistant text calls details :: results.map .toolResult) := by
  have h : WellPaired (.assistant text calls details :: (results.map .toolResult ++ [])) :=
    .assistant hids .nil
  rwa [List.append_nil] at h

/-- A message without tool calls. -/
theorem plain (text : String) (details : Option Value) :
    WellPaired [.assistant text [] details] :=
  exchange [] rfl

theorem withoutImages (h : WellPaired history) : WellPaired (history.map withoutImages) := by
  induction h with
  | nil => exact .nil
  | user _ ih => exact .user ih
  | @assistant text calls details results rest hids _ ih =>
    obtain ⟨replaced, hreplaced, hsame⟩ := map_withoutImages results
    rw [List.map_cons, List.map_append, hreplaced]
    exact .assistant (hsame.trans hids) ih

theorem dropWhile (h : WellPaired history) :
    WellPaired (history.dropWhile fun item => !item.isUser) := by
  induction h with
  | nil => exact .nil
  | user h _ => exact .user h
  | @assistant text calls details results rest _ _ ih =>
    have hresults : ∀ item ∈ results.map HistoryItem.toolResult, (!item.isUser) = true := by
      intro item hitem
      obtain ⟨r, _, rfl⟩ := List.mem_map.mp hitem
      rfl
    rw [List.dropWhile_cons_of_pos rfl, List.dropWhile_append_of_pos hresults]
    exact ih

theorem nextSegment (h : WellPaired history) : WellPaired (nextSegment history) := by
  cases h with
  | nil => exact .nil
  | user h => exact h.dropWhile
  | @assistant text calls details results rest hids h =>
    have hwhole : WellPaired (.assistant text calls details ::
        (results.map HistoryItem.toolResult ++ rest)) := .assistant hids h
    exact hwhole.dropWhile

theorem truncateLoop (h : WellPaired history) (maxBytes fuel total : Nat) :
    WellPaired (truncateLoop maxBytes fuel total history) := by
  induction fuel generalizing total history with
  | zero => exact h
  | succ fuel ih =>
    rw [Agent.truncateLoop]
    split
    · exact h
    · have hnext := h.nextSegment
      cases hrest : Agent.nextSegment history with
      | nil => exact h
      | cons item rest =>
        rw [hrest] at hnext
        exact ih hnext _

theorem truncateHistory (h : WellPaired history) (maxBytes : Nat) :
    WellPaired (truncateHistory maxBytes history) :=
  h.truncateLoop maxBytes _ _

theorem pushHookOutputs (h : WellPaired history) (hook : String) (nonce : Nat → Nat)
    (outputs : List (String × String)) :
    WellPaired (pushHookOutputsAsToolResults hook nonce outputs history) := by
  apply h.append
  induction outputs.zipIdx with
  | nil => exact .nil
  | cons output outputs ih =>
    rw [List.flatMap_cons]
    exact (exchange [_] rfl).append ih

end WellPaired

/-- The calls of a batch are the last message, and the results that are there are theirs. -/
structure Open (batch : Batch) (history : List HistoryItem) : Prop where
  answers : ∃ before text details, WellPaired before ∧
    history = before ++ [.assistant text batch.calls details]
  length : batch.results.length = batch.calls.length
  ids : ∀ (i : Nat) (call : ToolCall) (r : ToolResult), batch.calls[i]? = some call → batch.results[i]? = some (some r) →
    r.providerId = call.providerId

def Holds : Phase → List HistoryItem → Prop
  | .preflight batch _, history => Open batch history
  | .executing batch _ _, history => Open batch history
  | _, history => WellPaired history

/-- What the provider was given is well paired, and so is the history but for open calls. -/
structure Turn.Paired (t : Turn) : Prop where
  requests : ∀ history ∈ t.requests, WellPaired history
  history : Holds t.phase t.history

theorem appendedResult_providerId {call : ToolCall} {result : Option ToolResult} (h : ∀ r, result = some r → r.providerId = call.providerId) :
    (Turn.appendedResult call result).providerId = call.providerId := by
  have hid : (result.getD ⟨call.providerId, [.text "internal error: missing result"], true⟩).providerId =
      call.providerId := by
    cases result with
    | none => rfl
    | some r => exact h r rfl
  rw [Turn.appendedResult]
  split
  · exact hid
  · exact hid

theorem Open.appended (h : Open batch history) :
    WellPaired (history ++
      (List.zipWith Turn.appendedResult batch.calls batch.results).map .toolResult) := by
  obtain ⟨before, text, details, hbefore, rfl⟩ := h.answers
  rw [List.append_assoc]
  apply hbefore.append
  apply WellPaired.exchange (List.zipWith Turn.appendedResult batch.calls batch.results)
  apply List.ext_getElem
  · simp [h.length]
  · intro i hi hi'
    rw [List.getElem_map, List.getElem_zipWith, List.getElem_map]
    apply appendedResult_providerId
    intro r hr
    apply h.ids i _ r (List.getElem?_eq_getElem _)
    rw [← hr]
    exact List.getElem?_eq_getElem _

/-- A call gets its result. -/
theorem Open.set {result : ToolResult} (h : Open batch history)
    (hcall : batch.calls[i]? = some call) (hid : result.providerId = call.providerId) :
    Open { batch with results := batch.results.set i (some result) } history := by
  refine ⟨h.answers, ?_, ?_⟩
  · exact (List.length_set ..).trans h.length
  · intro j c r hc hr
    by_cases hij : i = j
    · subst hij
      cases hcall.symm.trans hc
      rw [List.getElem?_set_self'] at hr
      obtain ⟨_, _, hr⟩ := Option.map_eq_some_iff.mp hr
      cases hr
      exact hid
    · rw [List.getElem?_set_ne hij] at hr
      exact h.ids j c r hc hr

theorem Open.runnable (h : Open batch history) (runnable : List Nat) :
    Open { batch with runnable } history :=
  ⟨h.answers, h.length, h.ids⟩

theorem Open.fillCancelled (h : Open batch history) (fills : Nat → Bool) :
    Open (Turn.fillCancelled batch fills) history := by
  refine ⟨h.answers, ?_, ?_⟩
  · rw [Turn.fillCancelled, List.length_map, List.length_zipIdx]
    exact h.length
  · intro i call r hcall hr
    change batch.calls[i]? = some call at hcall
    rw [Turn.fillCancelled, List.getElem?_map, List.getElem?_zipIdx, Option.map_map] at hr
    obtain ⟨result, hresult, hr⟩ := Option.map_eq_some_iff.mp hr
    simp only [Function.comp, Nat.zero_add, hcall, Option.map_some] at hr
    cases result with
    | some r' =>
      have hsame : r' = r := by
        split at hr
        · exact Option.some.inj hr
        · exact Option.some.inj hr
      rw [← hsame]
      exact h.ids i call r' hcall hresult
    | none =>
      split at hr
      · rw [← Option.some.inj hr]
        rfl
      · cases hr

namespace Turn.Paired

variable {t : Turn} {cfg : Config}

theorem request (hrequests : ∀ history ∈ t.requests, WellPaired history)
    (h : WellPaired t.history) : t.request.Paired := by
  refine ⟨?_, h⟩
  intro history hmem
  rcases List.mem_append.mp hmem with hold | hnew
  · exact hrequests history hold
  · rw [List.mem_singleton.mp hnew]
    exact h

theorem skipped (hrequests : ∀ history ∈ t.requests, WellPaired history)
    (h : WellPaired t.history) : (t.truncate cfg).request.Paired :=
  request (t := t.truncate cfg) hrequests (h.truncateHistory _)

theorem roundBoundary (hrequests : ∀ history ∈ t.requests, WellPaired history)
    (h : WellPaired t.history) : (t.roundBoundary cfg).Paired := by
  have hdrained : WellPaired t.drainSteers.history := h.append (.users _)
  rw [Turn.roundBoundary]
  split
  · exact ⟨hrequests, h⟩
  · split
    · exact ⟨hrequests, h⟩
    · dsimp only
      split
      · exact ⟨hrequests, hdrained⟩
      · exact skipped (t := t.drainSteers) hrequests hdrained

theorem recoveryRung (hrequests : ∀ history ∈ t.requests, WellPaired history)
    (h : WellPaired t.history) (rejectedBytes : Nat) (error : String) :
    (t.recoveryRung rejectedBytes error).Paired := by
  rw [Turn.recoveryRung]
  split
  · exact ⟨hrequests, h⟩
  · dsimp only
    split
    · exact ⟨hrequests, h⟩
    · exact ⟨hrequests, h⟩

theorem handoffSkipped (hrequests : ∀ history ∈ t.requests, WellPaired history)
    (h : WellPaired t.history) (reason : HandoffReason) : (t.handoffSkipped cfg reason).Paired := by
  cases reason with
  | preflight => exact skipped hrequests h
  | recovery rejectedBytes error => exact recoveryRung hrequests h rejectedBytes error

theorem summarized (hrequests : ∀ history ∈ t.requests, WellPaired history)
    (h : WellPaired t.history) (reason : HandoffReason) (summary : Except AgentError String) :
    (t.summarized cfg reason summary).Paired := by
  cases summary with
  | error e => exact handoffSkipped hrequests h reason
  | ok s =>
    rw [Turn.summarized]
    split
    · exact handoffSkipped hrequests h reason
    · exact ⟨hrequests, .nil⟩

theorem handoffPerformed (hrequests : ∀ history ∈ t.requests, WellPaired history)
    (h : WellPaired t.history) (reason : HandoffReason) (summary : String)
    (prompt : Option String) (outputs : List (String × String)) :
    (t.handoffPerformed reason summary prompt outputs).Paired := by
  have hprompt : WellPaired (prompt.map HistoryItem.user).toList := by
    cases prompt with
    | none => exact .nil
    | some text => exact .users [text]
  have hfresh (text : String) :
      WellPaired (t.history ++ [.user text] ++ (prompt.map HistoryItem.user).toList) :=
    (h.append (.users [text])).append hprompt
  cases reason with
  | preflight => exact request hrequests (hfresh _)
  | recovery rejectedBytes error => exact ⟨hrequests, hfresh _⟩

theorem maxTokensResponse (hrequests : ∀ history ∈ t.requests, WellPaired history)
    (h : WellPaired t.history) (r : LlmResponse) : (t.maxTokensResponse cfg r).Paired := by
  have hplain := h.append (.plain r.text r.reasoningDetails)
  rw [Turn.maxTokensResponse]
  dsimp only
  split
  · exact ⟨hrequests, hplain⟩
  · exact ⟨hrequests, hplain.append (.users [maxTokensRecoveryMessage])⟩

theorem finalResponse (hrequests : ∀ history ∈ t.requests, WellPaired history)
    (h : WellPaired t.history) (r : LlmResponse) : (t.finalResponse cfg r).Paired := by
  have hplain := h.append (.plain r.text r.reasoningDetails)
  rw [Turn.finalResponse]
  split
  · exact ⟨hrequests, h⟩
  · dsimp only
    split
    · exact ⟨hrequests, hplain⟩
    · exact ⟨hrequests, hplain⟩

theorem toolResponse (hrequests : ∀ history ∈ t.requests, WellPaired history)
    (h : WellPaired t.history) (r : LlmResponse) : (t.toolResponse cfg r).Paired := by
  refine ⟨hrequests, ⟨t.history, r.text, r.reasoningDetails, h, rfl⟩, List.length_replicate, ?_⟩
  intro i call result _ hresult
  have hnone := List.eq_of_mem_replicate (List.mem_of_getElem? hresult)
  cases hnone

theorem responded (hrequests : ∀ history ∈ t.requests, WellPaired history)
    (h : WellPaired t.history) (r : LlmResponse) : (t.responded cfg r).Paired := by
  rw [← recordUsage_requests cfg r t] at hrequests
  rw [← recordUsage_history cfg r t] at h
  rw [Turn.responded]
  split
  · exact maxTokensResponse hrequests h r
  · split
    · exact finalResponse hrequests h r
    · exact toolResponse hrequests h r

theorem rejected (hrequests : ∀ history ∈ t.requests, WellPaired history)
    (h : WellPaired t.history) (error : AgentError) :
    (t.rejected error).Paired := by
  cases error with
  | unsupportedImageInput text =>
    rw [Turn.rejected, replaceUnsupportedImages]
    dsimp only
    split
    · exact ⟨hrequests, h⟩
    · exact ⟨hrequests, h.withoutImages⟩
  | llmContextExceeded e => exact recoveryRung hrequests h _ e
  | _ => exact ⟨hrequests, h⟩

theorem stopHooksReturned (hrequests : ∀ history ∈ t.requests, WellPaired history)
    (h : WellPaired t.history) (outputs : List (String × String)) (nonce : Nat → Nat) :
    (t.stopHooksReturned cfg outputs nonce).Paired := by
  rw [Turn.stopHooksReturned]
  split
  · exact ⟨hrequests, h⟩
  · exact ⟨hrequests, h.pushHookOutputs _ _ _⟩

theorem preflightCall (hrequests : ∀ history ∈ t.requests, WellPaired history)
    (h : Open batch t.history) (hcall : batch.calls[idx]? = some call) (skill : ToolResult) :
    (t.preflightCall cfg batch idx call skill).Paired := by
  rw [Turn.preflightCall]
  split_ifs
  · exact ⟨hrequests, (h.fillCancelled fun _ => true).appended⟩
  · exact ⟨hrequests, h.set hcall rfl⟩
  · exact ⟨hrequests, h.set hcall rfl⟩
  · exact ⟨hrequests, h.runnable _⟩

theorem taskJoined (hrequests : ∀ history ∈ t.requests, WellPaired history)
    (h : Open batch t.history) (hcall : batch.calls[i]? = some call)
    (hid : result.providerId = call.providerId) (pending : List Nat) (draining : Bool) :
    (t.taskJoined batch pending draining i result).Paired := by
  refine ⟨hrequests, ?_⟩
  change Open _ t.history
  split
  · exact h
  · exact h.set hcall hid

theorem tasksFinished (hrequests : ∀ history ∈ t.requests, WellPaired history)
    (h : Open batch t.history) : (t.tasksFinished batch).Paired := by
  have hanswered := (h.fillCancelled fun i => batch.runnable.contains i).appended
  rw [Turn.tasksFinished]
  split
  · exact ⟨hrequests, hanswered⟩
  · exact ⟨hrequests, hanswered⟩

end Turn.Paired

theorem outcomeToResult_providerId (h : ∀ r, outcome = .done r → r.providerId = call.providerId) :
    (outcomeToResult call outcome).providerId = call.providerId := by
  cases outcome with
  | done r => exact h r rfl
  | failed msg => rfl

/-- A step of a run keeps its histories paired. -/
theorem Turn.Paired.step (h : t.Paired) (hstep : TurnStep cfg t e t') : t'.Paired := by
  obtain ⟨hrequests, hheld⟩ := h
  cases hstep with
  | boundary hphase =>
    rw [hphase] at hheld
    exact .roundBoundary hrequests hheld
  | cancelled hphase =>
    refine ⟨hrequests, ?_⟩
    rcases hphase with hphase | ⟨reason, hphase⟩
    · rw [hphase] at hheld
      exact hheld
    · rw [hphase] at hheld
      exact hheld
  | summarized hphase =>
    rw [hphase] at hheld
    exact .summarized hrequests hheld _ _
  | postCompacted hphase =>
    rw [hphase] at hheld
    exact .handoffPerformed hrequests hheld _ _ _ _
  | @completed result hphase =>
    rw [hphase] at hheld
    cases result with
    | ok r => exact .responded hrequests hheld r
    | error e => exact .rejected hrequests hheld e
  | stopHooks hphase =>
    rw [hphase] at hheld
    exact .stopHooksReturned hrequests hheld _ _
  | preflight hphase hcall =>
    rw [hphase] at hheld
    exact .preflightCall hrequests hheld hcall _
  | spawned hphase =>
    rw [hphase] at hheld
    exact ⟨hrequests, hheld⟩
  | joined hphase _ hcall _ hid =>
    rw [hphase] at hheld
    exact .taskJoined hrequests hheld hcall (outcomeToResult_providerId hid) _ _
  | lost hphase =>
    rw [hphase] at hheld
    exact ⟨hrequests, hheld⟩
  | drain hphase =>
    rw [hphase] at hheld
    exact ⟨hrequests, hheld⟩
  | finished hphase =>
    rw [hphase] at hheld
    exact .tasksFinished hrequests hheld

theorem Turn.Paired.start {t : Turn} (hrequests : ∀ history ∈ t.requests, WellPaired history)
    (h : WellPaired t.history) (prompt : List ContentBlock) : (t.start prompt).Paired := by
  rw [Turn.start]
  split
  · exact ⟨hrequests, h⟩
  · split
    · exact ⟨hrequests, h⟩
    · exact ⟨hrequests, h.append (.users [_])⟩

theorem forall_mem_modify {P : α → Prop} {f : α → α} {l : List α} (k : Nat)
    (h : ∀ a ∈ l, P a) (hf : ∀ a, P a → P (f a)) : ∀ a ∈ l.modify k f, P a := by
  intro a ha
  obtain ⟨i, hi⟩ := List.mem_iff_getElem?.mp ha
  rw [List.getElem?_modify] at hi
  obtain ⟨b, hb, rfl⟩ := Option.map_eq_some_iff.mp hi
  have hPb := h b (List.mem_of_getElem? hb)
  split
  · exact hf b hPb
  · exact hPb

theorem forall_mem_set {P : α → Prop} {l : List α} {b : α} (k : Nat) (h : ∀ a ∈ l, P a)
    (hb : P b) : ∀ a ∈ l.set k b, P a := by
  intro a ha
  rcases List.mem_or_eq_of_mem_set ha with hold | rfl
  · exact h a hold
  · exact hb

structure System.Paired (s : System) : Prop where
  session : WellPaired s.session.history
  tasks : ∀ task ∈ s.tasks, task.turn.Paired

section Requests

variable {s : System}

theorem System.Paired.prompt (h : s.Paired) (cfg : Config) (runId : String)
    (blocks : List ContentBlock) : (s.prompt cfg runId blocks).Paired := by
  rw [System.prompt]
  split
  · exact h
  · refine ⟨.nil, ?_⟩
    intro task htask
    rcases List.mem_append.mp htask with hold | hnew
    · exact h.tasks task hold
    · rw [List.mem_singleton.mp hnew]
      apply Turn.Paired.start _ h.session
      intro history hmem
      cases hmem

theorem System.Paired.queue (h : s.Paired) (k : Nat) (blocks : List ContentBlock) :
    (s.queue k blocks).Paired :=
  ⟨h.session, forall_mem_modify k h.tasks fun _ htask => ⟨htask.requests, htask.history⟩⟩

theorem System.Paired.steerSession (h : s.Paired) (expectedRunId : String)
    (blocks : List ContentBlock) : (s.steerSession expectedRunId blocks).2.Paired := by
  rw [System.steerSession]
  split
  · exact h
  · split
    · split
      · exact h.queue _ blocks
      · exact h
    · exact h

theorem System.Paired.cancelSession (h : s.Paired) : s.cancelSession.Paired := by
  rw [System.cancelSession]
  split
  · exact ⟨h.session, forall_mem_modify _ h.tasks fun _ htask => ⟨htask.requests, htask.history⟩⟩
  · exact h

end Requests

theorem Holds.done {history : List HistoryItem} (h : Holds phase history)
    (hphase : phase = .done result) : WellPaired history := by
  rw [hphase] at h
  exact h

theorem System.Paired.step (h : s.Paired) (hstep : Step cfg s e s') : s'.Paired := by
  cases hstep with
  | prompt => exact h.prompt cfg _ _
  | steer => exact h.steerSession _ _
  | cancel => exact h.cancelSession
  | setModel =>
    rw [System.setModel]
    split
    · exact h
    · exact ⟨h.session, h.tasks⟩
  | turn hk _ hturn =>
    have htask := h.tasks _ (List.mem_of_getElem? hk)
    exact ⟨h.session, forall_mem_set _ h.tasks (htask.step hturn)⟩
  | release hk _ hdone =>
    have htask := h.tasks _ (List.mem_of_getElem? hk)
    exact ⟨htask.history.done hdone, forall_mem_set _ h.tasks htask⟩
  | merge hk =>
    have htask := h.tasks _ (List.mem_of_getElem? hk)
    rw [System.merge]
    split
    · exact ⟨h.session, forall_mem_set _ h.tasks htask⟩
    · exact ⟨h.session, forall_mem_set _ h.tasks htask⟩
  | sendUpdate hk =>
    have htask := h.tasks _ (List.mem_of_getElem? hk)
    exact ⟨h.session, forall_mem_set _ h.tasks htask⟩

/-- Whatever the provider, the tools, the hooks and the client do, every history that the provider
is given is well paired, and so is the one that is left when a run returns. -/
theorem histories_wellPaired {events : List Event}
    (h : Run (Step cfg) System.init events s) :
    WellPaired s.session.history ∧ ∀ task ∈ s.tasks,
      (∀ history ∈ task.turn.requests, WellPaired history) ∧
      ∀ result, task.turn.phase = .done result → WellPaired task.turn.history := by
  have hpaired : s.Paired := by
    induction h with
    | nil => exact ⟨.nil, fun _ hmem => by cases hmem⟩
    | snoc _ hstep ih => exact ih.step hstep
  refine ⟨hpaired.session, ?_⟩
  intro task htask
  have hturn := hpaired.tasks task htask
  exact ⟨hturn.requests, fun _ hdone => hturn.history.done hdone⟩

def smallConfig : Config :=
  ⟨"model", 0, 1000, 1000, 10, 3, 3, false, none, []⟩

def unknownCall : LlmResponse :=
  ⟨"", [⟨"call", "nothing", .null, []⟩], .toolUse, none, false, none, none, none, none, none, none⟩

def callEvents : List Event :=
  [.prompt "run" [.text "hi"], .turn 0 .boundary, .turn 0 (.completed (.ok unknownCall)),
    .turn 0 (.preflight ⟨"", [], false⟩), .turn 0 .spawned, .turn 0 .finished, .turn 0 .boundary]

theorem run_callEvents : ∃ s, Run (Step smallConfig) .init callEvents s :=
  ⟨_, ((((((Run.nil.snoc .prompt).snoc (.turn (k := 0) rfl rfl (.boundary rfl))).snoc
    (.turn (k := 0) rfl rfl (.completed rfl rfl))).snoc
    (.turn (k := 0) rfl rfl (.preflight rfl rfl))).snoc
    (.turn (k := 0) rfl rfl (.spawned rfl rfl))).snoc
    (.turn (k := 0) rfl rfl (.finished rfl (.inl rfl)))).snoc
    (.turn (k := 0) rfl rfl (.boundary rfl))⟩

theorem histories_wellPaired_call : ∃ s, Run (Step smallConfig) .init callEvents s ∧
    ∀ task ∈ s.tasks, ∀ history ∈ task.turn.requests, WellPaired history := by
  obtain ⟨s, hrun⟩ := run_callEvents
  exact ⟨s, hrun, fun task htask => ((histories_wellPaired hrun).2 task htask).1⟩

end Buzz.Agent
