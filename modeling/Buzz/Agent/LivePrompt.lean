import Buzz.Agent.Truncation
import Buzz.Agent.TurnRun

namespace Buzz.Agent
set_option autoImplicit true

def HistoryItem.userText : HistoryItem → Option String
  | user s => some s
  | _ => none

/-- What the user messages of a history say. -/
def userTexts (history : List HistoryItem) : List String :=
  history.filterMap HistoryItem.userText

theorem userTexts_append (history more : List HistoryItem) :
    userTexts (history ++ more) = userTexts history ++ userTexts more :=
  List.filterMap_append

theorem userTexts_users (texts : List String) : userTexts (texts.map .user) = texts := by
  rw [userTexts, List.filterMap_map]
  exact List.filterMap_some

theorem mem_userTexts {text : String} {history : List HistoryItem} :
    text ∈ userTexts history ↔ .user text ∈ history := by
  rw [userTexts, List.mem_filterMap]
  constructor
  · rintro ⟨item, hmem, hitem⟩
    cases item with
    | user s =>
      cases hitem
      exact hmem
    | assistant | toolResult => cases hitem
  · intro hmem
    exact ⟨_, hmem, rfl⟩

/-- A handoff keeps the last message of the user. -/
theorem currentPrompt_eq (history : List HistoryItem) :
    Turn.currentPrompt history = (userTexts history).getLast? := by
  rw [Turn.currentPrompt, userTexts, ← List.head?_reverse, ← List.filterMap_reverse,
    List.head?_filterMap]
  rfl

theorem userTexts_eq_nil {items : List HistoryItem} (h : ∀ item ∈ items, item.isUser = false) :
    userTexts items = [] := by
  rw [userTexts, List.filterMap_eq_nil_iff]
  intro item hitem
  cases item with
  | user => cases h _ hitem
  | assistant | toolResult => rfl

theorem userTexts_withoutImages (history : List HistoryItem) :
    userTexts (history.map withoutImages) = userTexts history := by
  rw [userTexts, userTexts, List.filterMap_map]
  congr 1
  funext item
  cases item with
  | user | assistant => rfl
  | toolResult r =>
    rw [Function.comp_apply, withoutImages.eq_def]
    dsimp only
    split
    · rfl
    · rfl

/-- A truncation keeps the last message of the user. -/
theorem getLast?_userTexts_truncateLoop (maxBytes fuel total : Nat) (history : List HistoryItem) :
    (userTexts (truncateLoop maxBytes fuel total history)).getLast? =
      (userTexts history).getLast? := by
  induction fuel generalizing total history with
  | zero => rfl
  | succ fuel ih =>
    rw [truncateLoop]
    split
    · rfl
    · cases hnext : nextSegment history with
      | nil => rfl
      | cons item rest =>
        obtain ⟨text, rfl⟩ := nextSegment_cons hnext
        obtain ⟨dropped, hhistory⟩ := nextSegment_suffix history
        rw [hnext] at hhistory
        dsimp only
        rw [ih, ← hhistory, userTexts_append, List.getLast?_append]
        cases hlast : (userTexts (.user text :: rest)).getLast? with
        | none => cases List.getLast?_eq_none_iff.mp hlast
        | some => rfl

/-- The messages of the user that a step takes into the history. -/
def taken (cfg : Config) (t : Turn) : TurnEvent → List String
  | .boundary => (System.drained cfg .boundary t).flatten
  | .completed (.ok r) =>
    if r.stop = .maxTokens ∧ t.maxTokensRecoveries < cfg.maxTokenRecoveries then
      [maxTokensRecoveryMessage]
    else []
  | _ => []

def Move.taken (cfg : Config) : Move → List String
  | .steps t e _ => Agent.taken cfg t e
  | _ => []

/-- The last of the messages is where a handoff finds it, or where it has put it. -/
def Seated (messages : List String) (t : Turn) : Prop :=
  match t.phase with
  | .postCompact _ _ prompt => prompt = messages.getLast? ∧ t.history = []
  | .done _ => True
  | _ => (userTexts t.history).getLast? = messages.getLast?

/-- Whether a run goes on with its history as it is. -/
def Phase.seating : Phase → Bool
  | .postCompact _ _ _ => false
  | .done _ => false
  | _ => true

namespace Seated

variable {cfg : Config} {messages : List String} {t t' : Turn} {e : TurnEvent} {phase : Phase}

theorem last (h : Seated messages t) (hphase : t.phase = phase) (hseating : phase.seating = true) :
    (userTexts t.history).getLast? = messages.getLast? := by
  subst hphase
  rw [Seated] at h
  cases hphase : t.phase with
  | postCompact | done => rw [hphase] at hseating; cases hseating
  | _ =>
    rw [hphase] at h
    exact h

theorem done {result : Except AgentError StopReason} (h : t.phase = .done result) :
    Seated messages t := by
  rw [Seated, h]
  trivial

theorem of_last (hphase : t.phase = phase) (hseating : phase.seating = true)
    (h : (userTexts t.history).getLast? = messages.getLast?) : Seated messages t := by
  subst hphase
  rw [Seated]
  cases hphase : t.phase with
  | postCompact | done => rw [hphase] at hseating; cases hseating
  | _ => exact h

/-- What is added to the history last is what was taken in last. -/
theorem append {history more : List HistoryItem} {texts : List String}
    (h : (userTexts history).getLast? = messages.getLast?) (hmore : userTexts more = texts) :
    (userTexts (history ++ more)).getLast? = (messages ++ texts).getLast? := by
  rw [userTexts_append, hmore, List.getLast?_append, List.getLast?_append, h]

/-- Answers and results are no messages of the user. -/
theorem keep {history more : List HistoryItem}
    (h : (userTexts history).getLast? = messages.getLast?)
    (hmore : ∀ item ∈ more, item.isUser = false) :
    (userTexts (history ++ more)).getLast? = messages.getLast? := by
  rw [userTexts_append, userTexts_eq_nil hmore, List.append_nil]
  exact h

theorem truncated (h : (userTexts t.history).getLast? = messages.getLast?) :
    Seated messages (t.truncate cfg).request := by
  apply of_last rfl rfl
  change (userTexts (truncateHistory cfg.maxHistoryBytes t.history)).getLast? = _
  rw [truncateHistory, getLast?_userTexts_truncateLoop]
  exact h

theorem roundBoundary (h : Seated messages t) (hphase : t.phase = .boundary) :
    Seated (messages ++ taken cfg t .boundary) (t.roundBoundary cfg) := by
  have hlast := h.last hphase rfl
  rw [Turn.roundBoundary]
  by_cases hrounds : 0 < cfg.maxRounds ∧ cfg.maxRounds ≤ t.round
  · rw [if_pos hrounds]
    exact done rfl
  · rw [if_neg hrounds]
    by_cases hcancel : t.cancel = true
    · rw [if_pos hcancel]
      exact done rfl
    · have hdrained : (userTexts t.drainSteers.history).getLast? =
          (messages ++ t.steer.filterMap steerText).getLast? :=
        append hlast (userTexts_users _)
      rw [if_neg hcancel, taken, System.drained, if_neg (not_or.mpr ⟨hrounds, hcancel⟩),
        List.flatten_singleton]
      dsimp only
      split
      · exact of_last rfl rfl hdrained
      · exact truncated hdrained

theorem recoveryRung (h : (userTexts t.history).getLast? = messages.getLast?)
    (rejectedBytes : Nat) (error : String) : Seated messages (t.recoveryRung rejectedBytes error) := by
  rw [Turn.recoveryRung]
  split
  · exact done rfl
  · dsimp only
    split
    · exact done rfl
    · exact of_last rfl rfl h

theorem handoffSkipped (reason : HandoffReason)
    (h : (userTexts t.history).getLast? = messages.getLast?) :
    Seated messages (t.handoffSkipped cfg reason) := by
  cases reason with
  | preflight => exact truncated h
  | recovery bytes error => exact recoveryRung h bytes error

theorem summarized (reason : HandoffReason) (summary : Except AgentError String)
    (h : (userTexts t.history).getLast? = messages.getLast?) :
    Seated messages (t.summarized cfg reason summary) := by
  cases summary with
  | error => exact handoffSkipped reason h
  | ok s =>
    rw [Turn.summarized]
    split
    · exact handoffSkipped reason h
    · exact ⟨(currentPrompt_eq t.history).trans h, rfl⟩

end Seated

/-- The message that a handoff opens the fresh history with. -/
def handoffText (summary : String) (postCompact : List (String × String)) : String :=
  "[Context Handoff]\n" ++ summary ++
    if postCompact.isEmpty then ""
    else "\n\n[Post-compact hook output — untrusted]\n" ++ hookOutputsText postCompact

theorem handoffPerformed_history (reason : HandoffReason) (summary : String)
    (prompt : Option String) (outputs : List (String × String)) (t : Turn) :
    (t.handoffPerformed reason summary prompt outputs).history =
      t.history ++ [.user (handoffText summary outputs)] ++ (prompt.map .user).toList := by
  cases reason with
  | preflight | recovery => rfl

namespace Seated

variable {cfg : Config} {messages : List String} {t t' : Turn} {e : TurnEvent}

theorem postCompact {reason : HandoffReason} {summary : String} {prompt : Option String}
    (h : Seated messages t) (hphase : t.phase = .postCompact reason summary prompt) :
    prompt = messages.getLast? ∧ t.history = [] := by
  rw [Seated, hphase] at h
  exact h

theorem handoffPerformed (reason : HandoffReason) (summary : String) (prompt : Option String)
    (outputs : List (String × String)) (h : Seated messages t) (hne : messages ≠ [])
    (hphase : t.phase = .postCompact reason summary prompt) :
    Seated messages (t.handoffPerformed reason summary prompt outputs) := by
  obtain ⟨rfl, hhistory⟩ := h.postCompact hphase
  have hlast : (userTexts (t.handoffPerformed reason summary messages.getLast? outputs).history).getLast? =
      messages.getLast? := by
    rw [handoffPerformed_history, userTexts_append, List.getLast?_append]
    obtain ⟨message, hmessage⟩ := Option.ne_none_iff_exists'.mp (mt List.getLast?_eq_none_iff.mp hne)
    rw [hmessage]
    rfl
  cases reason with
  | preflight => exact of_last rfl rfl hlast
  | recovery => exact of_last rfl rfl hlast

theorem rejected (error : AgentError) (h : (userTexts t.history).getLast? = messages.getLast?) :
    Seated messages (t.rejected error) := by
  cases error with
  | unsupportedImageInput text =>
    rw [Turn.rejected]
    dsimp only
    split
    · exact done rfl
    · apply of_last rfl rfl
      dsimp only [replaceUnsupportedImages]
      rw [userTexts_withoutImages]
      exact h
  | llmContextExceeded error => exact recoveryRung h _ error
  | _ => exact done rfl

theorem responded (r : LlmResponse) (h : (userTexts t.history).getLast? = messages.getLast?) :
    Seated (messages ++ taken cfg t (.completed (.ok r))) (t.responded cfg r) := by
  obtain ⟨usage, pricingIdentity, tokens, bytes, hrecord⟩ := Turn.recordUsage_eq cfg r t
  have hanswer : ∀ calls details, (userTexts
      (t.history ++ [HistoryItem.assistant r.text calls details])).getLast? =
        messages.getLast? := by
    intro calls details
    apply keep h
    intro item hitem
    rw [List.mem_singleton.mp hitem]
    rfl
  rw [Turn.responded, hrecord, taken]
  by_cases hstop : r.stop = .maxTokens
  · rw [if_pos hstop, Turn.maxTokensResponse]
    dsimp only
    by_cases hspent : cfg.maxTokenRecoveries ≤ t.maxTokensRecoveries
    · rw [if_pos hspent]
      exact done rfl
    · rw [if_neg hspent, if_pos ⟨hstop, Nat.not_le.mp hspent⟩]
      exact of_last rfl rfl (append (hanswer [] _) rfl)
  · rw [if_neg hstop, if_neg fun hboth => hstop hboth.1, List.append_nil]
    split
    · rw [Turn.finalResponse]
      split
      · exact done rfl
      · dsimp only
        split
        · exact of_last rfl rfl (hanswer [] _)
        · exact done rfl
    · exact of_last rfl rfl (hanswer _ _)

theorem stopHooksReturned (outputs : List (String × String)) (nonce : Nat → Nat)
    (h : (userTexts t.history).getLast? = messages.getLast?) :
    Seated messages (t.stopHooksReturned cfg outputs nonce) := by
  rw [Turn.stopHooksReturned]
  split
  · exact done rfl
  · apply of_last rfl rfl
    apply keep h
    intro item hitem
    obtain ⟨output, _, hitem⟩ := List.mem_flatMap.mp hitem
    rcases List.mem_pair.mp hitem with rfl | rfl
    · rfl
    · rfl

theorem appendResults (batch : Batch) (h : (userTexts t.history).getLast? = messages.getLast?) :
    (userTexts (t.appendResults batch).history).getLast? = messages.getLast? := by
  apply keep h
  intro item hitem
  obtain ⟨result, _, rfl⟩ := List.mem_map.mp hitem
  rfl

theorem preflightCall (batch : Batch) (idx : Nat) (call : ToolCall) (skill : ToolResult)
    (h : (userTexts t.history).getLast? = messages.getLast?) :
    Seated messages (t.preflightCall cfg batch idx call skill) := by
  rw [Turn.preflightCall]
  split_ifs
  · exact done rfl
  · exact of_last rfl rfl h
  · exact of_last rfl rfl h
  · exact of_last rfl rfl h

theorem tasksFinished (batch : Batch) (h : (userTexts t.history).getLast? = messages.getLast?) :
    Seated messages (t.tasksFinished batch) := by
  rw [Turn.tasksFinished]
  split
  · exact done rfl
  · exact of_last rfl rfl (appendResults _ h)

/-- The client changes neither the phase nor the history. -/
theorem client {cancel : Bool} {steer : List (List ContentBlock)} (h : Seated messages t) :
    Seated messages { t with cancel, steer } := by
  rw [Seated] at h ⊢
  exact h

/-- A step that takes nothing in. -/
theorem quiet (h : Seated messages t') (hnone : taken cfg t e = []) :
    Seated (messages ++ taken cfg t e) t' := by
  rw [hnone, List.append_nil]
  exact h

theorem step (h : Seated messages t) (hne : messages ≠ []) (hstep : TurnStep cfg t e t') :
    Seated (messages ++ taken cfg t e) t' := by
  cases hstep with
  | boundary hphase => exact h.roundBoundary hphase
  | @completed result hphase =>
    cases result with
    | ok r => exact responded r (h.last hphase rfl)
    | error error => exact (rejected error (h.last hphase rfl)).quiet rfl
  | cancelled => exact done rfl
  | summarized hphase => exact (summarized _ _ (h.last hphase rfl)).quiet rfl
  | postCompacted hphase => exact (handoffPerformed _ _ _ _ h hne hphase).quiet rfl
  | stopHooks hphase => exact (stopHooksReturned _ _ (h.last hphase rfl)).quiet rfl
  | preflight hphase => exact (preflightCall _ _ _ _ (h.last hphase rfl)).quiet rfl
  | finished hphase => exact (tasksFinished _ (h.last hphase rfl)).quiet rfl
  | spawned hphase | joined hphase | lost hphase | drain hphase =>
    have hlast := h.last hphase rfl
    apply quiet _ rfl
    exact of_last rfl rfl hlast

end Seated

theorem Seated.start {cfg : Config} {text : String} (session : Session)
    {prompt : List ContentBlock} (hprompt : promptToText prompt = .ok text) :
    Seated [text] ((session.turn cfg).start prompt) := by
  rw [Turn.start, hprompt]
  dsimp only
  split
  · exact .done rfl
  · apply Seated.of_last rfl rfl
    dsimp only
    rw [userTexts_append, List.getLast?_append]
    rfl

/-- A handoff in a run of a prompt finds, or has put, what the run took in last. -/
theorem PromptRun.seated {cfg : Config} {session : Session} {prompt : List ContentBlock}
    {text : String} {moves : List Move} {t : Turn} (hprompt : promptToText prompt = .ok text)
    (h : PromptRun cfg session prompt moves t) :
    Seated (text :: moves.flatMap (Move.taken cfg)) t := by
  apply Run.history h
  · exact .start session hprompt
  · intro moves t move t' ih hstep
    rw [List.flatMap_append, List.flatMap_singleton, ← List.cons_append]
    cases hstep with
    | steps hstep => exact ih.step (List.cons_ne_nil _ _) hstep
    | cancel =>
      rw [show Move.taken cfg .cancel = [] from rfl, List.append_nil]
      exact ih.client
    | @steer blocks =>
      rw [show Move.taken cfg (.steer blocks) = [] from rfl, List.append_nil]
      exact ih.client

/-- A run with a handoff before each request. -/
def compactingConfig : Config :=
  ⟨"model", 0, 1000, 0, 10, 3, 3, false, none, []⟩

/-- The provider cuts a response off, and says that it read five tokens. -/
def cutOffResponse : LlmResponse :=
  ⟨"", [], .maxTokens, some 5, false, none, none, none, none, none, none⟩

theorem roundBoundary_compacting {t : Turn} {tokens : UInt64} (hcancel : t.cancel = false)
    (htokens : t.lastRequestInputTokens = some tokens) (hattempts : t.handoffAttempts < 10) :
    t.roundBoundary compactingConfig =
      { t.drainSteers with
        phase := .summarizing .preflight, handoffAttempts := t.handoffAttempts + 1 } := by
  have hhandoff : t.drainSteers.shouldHandoff compactingConfig = true := by
    rw [Turn.shouldHandoff, show t.drainSteers.lastRequestInputTokens = some tokens from htokens]
    exact decide_eq_true (Nat.zero_le _)
  rw [Turn.roundBoundary, if_neg fun h => absurd h.1 (lt_irrefl _), hcancel,
    if_neg Bool.false_ne_true]
  exact if_pos ⟨hhandoff, hattempts⟩

end Buzz.Agent
