import Buzz.Agent.TurnFrame

namespace Buzz.Agent
set_option autoImplicit true

/-- Texts that a truncation does not cut into. -/
def Fits (maxBytes : Nat) (texts : List String) : Prop :=
  texts.length ≤ 1 ∨ estimatedBytes (texts.map .user) ≤ maxBytes

theorem estimatedBytes_append (history more : List HistoryItem) :
    estimatedBytes (history ++ more) = estimatedBytes history + estimatedBytes more := by
  rw [estimatedBytes, List.map_append, List.sum_append]
  rfl

/-- The next segment is at the end of a history. -/
theorem nextSegment_suffix (history : List HistoryItem) : nextSegment history <:+ history :=
  (List.dropWhile_suffix _).trans (List.tail_suffix _)

/-- A segment is dropped before the last messages of the user, or is one of them. -/
theorem suffix_nextSegment {texts : List String} (h : texts.map .user <:+ history)
    (hne : texts.map .user ≠ history) : texts.map .user <:+ nextSegment history := by
  obtain ⟨before, rfl⟩ := h
  cases before with
  | nil => exact absurd rfl hne
  | cons item before =>
    rw [nextSegment, List.cons_append, List.tail_cons]
    cases texts with
    | nil => exact List.nil_suffix
    | cons text texts =>
      rw [List.dropWhile_append]
      split
      · rw [List.map_cons, List.dropWhile_cons_of_neg (by simp [HistoryItem.isUser])]
      · exact List.suffix_append _ _

theorem suffix_truncateLoop {texts : List String} (hfits : Fits maxBytes texts) (fuel : Nat)
    (h : texts.map .user <:+ history) :
    texts.map .user <:+ truncateLoop maxBytes fuel (estimatedBytes history) history := by
  induction fuel generalizing history with
  | zero => exact h
  | succ fuel ih =>
    rw [truncateLoop]
    split
    · exact h
    · rename_i hlarge
      cases hnext : nextSegment history with
      | nil => exact h
      | cons item rest =>
        have hkept : texts.map .user <:+ item :: rest := by
          rw [← hnext]
          apply suffix_nextSegment h
          -- the texts are not all there is: they would fit, or have no next segment
          rintro rfl
          rcases hfits with hone | hbytes
          · match texts with
            | [] => cases hnext
            | [text] => cases hnext
          · exact hlarge hbytes
        obtain ⟨dropped, hhistory⟩ := nextSegment_suffix history
        rw [hnext] at hhistory
        have hbytes : estimatedBytes history -
            estimatedBytes (history.take (history.length - (item :: rest).length)) =
              estimatedBytes (item :: rest) := by
          rw [← hhistory, List.length_append, Nat.add_sub_cancel, List.take_left,
            estimatedBytes_append, Nat.add_sub_cancel_left]
        dsimp only
        rw [hbytes]
        exact ih hkept

/-- Truncation keeps the last messages of the user where they fit. -/
theorem suffix_truncateHistory {texts : List String} (hfits : Fits maxBytes texts)
    (h : texts.map .user <:+ history) : texts.map .user <:+ truncateHistory maxBytes history :=
  suffix_truncateLoop hfits _ h

/-- The steers that wait for the next round boundary. -/
def Turn.queued (t : Turn) : List String :=
  t.steer.filterMap steerText

/-- A handoff before a request. -/
def Phase.compacting : Phase → Bool
  | .summarizing .preflight => true
  | .postCompact .preflight _ _ => true
  | _ => false

/-- Whether a run goes on and has made a request of all that it took in. -/
def Phase.settled : Phase → Bool
  | .done _ => false
  | phase => !phase.compacting

/-- Whether a run ends here, other than by a cancel or an error. -/
def EndsRun (cfg : Config) (e : TurnEvent) (t : Turn) : Prop :=
  match e with
  | .boundary => 0 < cfg.maxRounds ∧ cfg.maxRounds ≤ t.round
  | .completed (.ok r) =>
    if r.stop = .maxTokens then cfg.maxTokenRecoveries ≤ t.maxTokensRecoveries
    else r.toolCalls.isEmpty ∧ r.stop ≠ .toolUse ∧
      ¬ (mapStop r.stop = .endTurn ∧ t.stopRejections < cfg.stopMaxRejections)
  | .stopHooks outputs _ => (t.objections cfg outputs).isEmpty
  | _ => False

/-- A step with no handoff before a request and with no request. -/
structure Settles (cfg : Config) (e : TurnEvent) (t t' : Turn) : Prop where
  requests : t'.requests = t.requests
  compacting : t'.phase.compacting = false
  ends : ∀ stop, t'.phase = .done (.ok stop) → stop ≠ .cancelled → EndsRun cfg e t

namespace Settles

variable {cfg : Config} {e : TurnEvent}

theorem recoveryRung (rejectedBytes : Nat) (error : String) (t : Turn) :
    Settles cfg e t (t.recoveryRung rejectedBytes error) := by
  rw [Turn.recoveryRung]
  split
  · exact ⟨rfl, rfl, by intro stop h; cases h⟩
  · dsimp only
    split
    · exact ⟨rfl, rfl, by intro stop h; cases h⟩
    · exact ⟨rfl, rfl, by intro stop h; cases h⟩

theorem rejected (error : AgentError) (t : Turn) :
    Settles cfg (.completed (.error error)) t (t.rejected error) := by
  cases error with
  | unsupportedImageInput text =>
    rw [Turn.rejected]
    dsimp only
    split
    · exact ⟨rfl, rfl, by intro stop h; cases h⟩
    · exact ⟨rfl, rfl, by intro stop h; cases h⟩
  | llmContextExceeded e => exact recoveryRung _ e t
  | _ => exact ⟨rfl, rfl, by intro stop h; cases h⟩

theorem responded (r : LlmResponse) (t : Turn) :
    Settles cfg (.completed (.ok r)) t (t.responded cfg r) := by
  obtain ⟨usage, pricingIdentity, tokens, bytes, hrecord⟩ := Turn.recordUsage_eq cfg r t
  rw [Turn.responded, hrecord]
  split
  · rename_i hstop
    rw [Turn.maxTokensResponse]
    dsimp only
    split
    · rename_i hend
      exact ⟨rfl, rfl, fun _ _ _ => by rwa [EndsRun, if_pos hstop]⟩
    · exact ⟨rfl, rfl, by intro stop h; cases h⟩
  · rename_i hstop
    split
    · rename_i hcalls
      rw [Turn.finalResponse]
      split
      · exact ⟨rfl, rfl, by intro stop h; cases h⟩
      · rename_i htool
        dsimp only
        split
        · exact ⟨rfl, rfl, by intro stop h; cases h⟩
        · rename_i hend
          exact ⟨rfl, rfl, fun _ _ _ => by rw [EndsRun, if_neg hstop]; exact ⟨hcalls, htool, hend⟩⟩
    · exact ⟨rfl, rfl, by intro stop h; cases h⟩

theorem stopHooksReturned (outputs : List (String × String)) (nonce : Nat → Nat) (t : Turn) :
    Settles cfg (.stopHooks outputs nonce) t (t.stopHooksReturned cfg outputs nonce) := by
  rw [Turn.stopHooksReturned]
  split
  · rename_i hend
    exact ⟨rfl, rfl, fun _ _ _ => hend⟩
  · exact ⟨rfl, rfl, by intro stop h; cases h⟩

theorem preflightCall (batch : Batch) (idx : Nat) (call : ToolCall) (skill : ToolResult)
    (t : Turn) : Settles cfg e t (t.preflightCall cfg batch idx call skill) := by
  rw [Turn.preflightCall]
  split_ifs
  · exact ⟨rfl, rfl, by rintro stop ⟨⟩ hstop; exact absurd rfl hstop⟩
  · exact ⟨rfl, rfl, by intro stop h; cases h⟩
  · exact ⟨rfl, rfl, by intro stop h; cases h⟩
  · exact ⟨rfl, rfl, by intro stop h; cases h⟩

theorem tasksFinished (batch : Batch) (t : Turn) :
    Settles cfg e t (t.tasksFinished batch) := by
  rw [Turn.tasksFinished]
  split
  · exact ⟨rfl, rfl, by rintro stop ⟨⟩ hstop; exact absurd rfl hstop⟩
  · exact ⟨rfl, rfl, by intro stop h; cases h⟩

end Settles

/-- The texts are, in their order, the last messages of the user in a request. -/
def Carries (requests : List (List HistoryItem)) (texts : List String) : Prop :=
  ∃ request ∈ requests, texts.map .user <:+ request

/-- What was taken in last is at the end of what the next request is made of, and the rest is in
requests. -/
def Pending (requests : List (List HistoryItem)) (drains : List (List String))
    (history : List HistoryItem) : Prop :=
  ∃ before texts, drains = before ++ [texts] ∧
    (∀ earlier ∈ before, Carries requests earlier) ∧ texts.map .user <:+ history

/-- Where the steers are that round boundaries took in. -/
def Carried (t : Turn) (drains : List (List String)) : Prop :=
  match t.phase with
  | .summarizing .preflight => Pending t.requests drains t.history
  | .postCompact .preflight _ prompt => Pending t.requests drains (prompt.map .user).toList
  | .done (.ok .cancelled) => True
  | .done (.error _) => True
  | _ => ∀ texts ∈ drains, Carries t.requests texts

/-- A round boundary and the end of a handoff keep what was taken in: it fits the request, or it
is one steer at most. -/
def Seats (cfg : Config) (e : TurnEvent) (t : Turn) (drains : List (List String)) : Prop :=
  match e with
  | .boundary => t.cancel = false →
      ¬ (t.drainSteers.shouldHandoff cfg ∧ t.handoffAttempts < cfg.maxHandoffs) →
      Fits cfg.maxHistoryBytes t.queued
  | .summarized (.ok summary) => t.phase = .summarizing .preflight →
      ∀ texts ∈ drains.getLast?,
        if isBlank summary then Fits cfg.maxHistoryBytes texts else texts.length ≤ 1
  | .summarized (.error _) => t.phase = .summarizing .preflight →
      ∀ texts ∈ drains.getLast?, Fits cfg.maxHistoryBytes texts
  | _ => True

theorem Carries.mono (h : Carries requests texts) (hmore : requests <+: more) :
    Carries more texts := by
  obtain ⟨request, hrequest, hsuffix⟩ := h
  exact ⟨request, hmore.subset hrequest, hsuffix⟩

namespace Carried

variable {cfg : Config} {t t' : Turn} {drains : List (List String)}

theorem of_settled (hcompacting : t.phase.compacting = false)
    (h : ∀ texts ∈ drains, Carries t.requests texts) : Carried t drains := by
  rw [Carried]
  split
  · rename_i hphase
    rw [hphase] at hcompacting
    cases hcompacting
  · rename_i hphase
    rw [hphase] at hcompacting
    cases hcompacting
  · trivial
  · trivial
  · exact h

theorem settled (h : Carried t drains) (hphase : t.phase = phase) (hsettled : phase.settled = true) :
    ∀ texts ∈ drains, Carries t.requests texts := by
  rw [Carried, hphase] at h
  split at h
  · cases hsettled
  · cases hsettled
  · cases hsettled
  · cases hsettled
  · exact h

/-- A step without a request and without a handoff before one. -/
theorem settles {e : TurnEvent} (h : Carried t drains) (hphase : t.phase = phase)
    (hsettled : phase.settled = true) (hstep : Settles cfg e t t') : Carried t' drains := by
  apply of_settled hstep.compacting
  rw [hstep.requests]
  exact h.settled hphase hsettled

/-- A request carries what was taken in last. -/
theorem request (h : Pending t.requests drains t.history) : Carried t.request drains := by
  obtain ⟨before, texts, rfl, hbefore, hsuffix⟩ := h
  apply of_settled rfl
  intro taken htaken
  rcases List.mem_append.mp htaken with htaken | htaken
  · exact (hbefore taken htaken).mono (List.prefix_append _ _)
  · rw [List.mem_singleton] at htaken
    rw [htaken]
    exact ⟨t.history, List.mem_append_right _ (List.mem_singleton_self _), hsuffix⟩

/-- A request after a truncation. -/
theorem truncated (h : Pending t.requests drains t.history)
    (hfits : ∀ texts ∈ drains.getLast?, Fits cfg.maxHistoryBytes texts) :
    Carried (t.truncate cfg).request drains := by
  apply request
  obtain ⟨before, texts, rfl, hbefore, hsuffix⟩ := h
  exact ⟨before, texts, rfl, hbefore,
    suffix_truncateHistory (hfits texts List.getLast?_concat) hsuffix⟩

theorem roundBoundary (h : Carried t drains) (hphase : t.phase = .boundary)
    (hseats : Seats cfg .boundary t drains) :
    Carried (t.roundBoundary cfg) (drains ++ System.drained cfg .boundary t) := by
  have hsettled := h.settled hphase rfl
  rw [Turn.roundBoundary, System.drained]
  by_cases hrounds : 0 < cfg.maxRounds ∧ cfg.maxRounds ≤ t.round
  · rw [if_pos hrounds, if_pos (.inl hrounds), List.append_nil]
    exact hsettled
  · rw [if_neg hrounds]
    by_cases hcancel : t.cancel = true
    · rw [if_pos hcancel]
      trivial
    · rw [if_neg hcancel, if_neg (not_or.mpr ⟨hrounds, hcancel⟩)]
      have hpending : Pending t.drainSteers.requests (drains ++ [t.queued]) t.drainSteers.history :=
        ⟨drains, t.queued, rfl, hsettled, List.suffix_append _ _⟩
      dsimp only
      split
      · exact hpending
      · rename_i hhandoff
        apply truncated hpending
        intro texts htexts
        rw [List.getLast?_concat] at htexts
        cases htexts
        exact hseats (Bool.not_eq_true _ ▸ hcancel) hhandoff

/-- One message of the user at the end of a history is what a handoff keeps. -/
theorem currentPrompt_suffix {texts : List String} (hone : texts.length ≤ 1)
    (h : texts.map HistoryItem.user <:+ history) :
    texts.map .user <:+ ((Turn.currentPrompt history).map HistoryItem.user).toList := by
  match texts with
  | [] => exact List.nil_suffix
  | [text] =>
    obtain ⟨before, rfl⟩ := h
    rw [Turn.currentPrompt, List.map_singleton, List.reverse_append]
    exact List.suffix_rfl

theorem handoffSkipped (reason : HandoffReason) (h : Carried t drains)
    (hphase : t.phase = .summarizing reason)
    (hfits : reason = .preflight → ∀ texts ∈ drains.getLast?, Fits cfg.maxHistoryBytes texts) :
    Carried (t.handoffSkipped cfg reason) drains := by
  cases reason with
  | preflight =>
    rw [Carried, hphase] at h
    exact truncated h (hfits rfl)
  | recovery rejectedBytes error =>
    have hstep : Settles cfg .boundary t (t.recoveryRung rejectedBytes error) :=
      .recoveryRung rejectedBytes error t
    exact h.settles hphase rfl hstep

theorem summarized (reason : HandoffReason) (h : Carried t drains)
    (hphase : t.phase = .summarizing reason) (hseats : Seats cfg (.summarized summary) t drains) :
    Carried (t.summarized cfg reason summary) drains := by
  cases summary with
  | error e =>
    apply h.handoffSkipped reason hphase
    rintro rfl
    exact hseats hphase
  | ok s =>
    rw [Turn.summarized]
    split
    · rename_i hblank
      apply h.handoffSkipped reason hphase
      rintro rfl texts htexts
      have hfits := hseats hphase texts htexts
      rwa [if_pos hblank] at hfits
    · rename_i hblank
      cases reason with
      | preflight =>
        rw [Carried, hphase] at h
        obtain ⟨before, texts, rfl, hbefore, hsuffix⟩ := h
        have hone := hseats hphase texts List.getLast?_concat
        rw [if_neg hblank] at hone
        exact ⟨before, texts, rfl, hbefore, currentPrompt_suffix hone hsuffix⟩
      | recovery rejectedBytes error =>
        exact of_settled rfl (h.settled hphase rfl)

theorem handoffPerformed (reason : HandoffReason) (outputs : List (String × String))
    (h : Carried t drains) (hphase : t.phase = .postCompact reason summary prompt) :
    Carried (t.handoffPerformed reason summary prompt outputs) drains := by
  cases reason with
  | preflight =>
    rw [Carried, hphase] at h
    apply request
    obtain ⟨before, texts, rfl, hbefore, hsuffix⟩ := h
    exact ⟨before, texts, rfl, hbefore, hsuffix.trans (List.suffix_append _ _)⟩
  | recovery rejectedBytes error =>
    exact of_settled rfl (h.settled hphase rfl)

end Carried

/-- What a step is: one from where all that was taken in is in requests, or one that a handoff may
come before or after. -/
theorem TurnStep.settles {cfg : Config} {e : TurnEvent} (h : TurnStep cfg t e t') :
    (∃ phase, t.phase = phase ∧ phase.settled = true ∧ Settles cfg e t t' ∧
      System.drained cfg e t = []) ∨
    (e = .boundary ∧ t.phase = .boundary ∧ t' = t.roundBoundary cfg) ∨
    (e = .cancelled ∧ t' = { t with phase := .done (.ok .cancelled) }) ∨
    (∃ reason summary, e = .summarized summary ∧ t.phase = .summarizing reason ∧
      t' = t.summarized cfg reason summary) ∨
    (∃ reason summary prompt outputs, e = .postCompacted outputs ∧
      t.phase = .postCompact reason summary prompt ∧
      t' = t.handoffPerformed reason summary prompt outputs) := by
  cases h with
  | boundary hphase => exact .inr (.inl ⟨rfl, hphase, rfl⟩)
  | cancelled => exact .inr (.inr (.inl ⟨rfl, rfl⟩))
  | summarized hphase => exact .inr (.inr (.inr (.inl ⟨_, _, rfl, hphase, rfl⟩)))
  | postCompacted hphase => exact .inr (.inr (.inr (.inr ⟨_, _, _, _, rfl, hphase, rfl⟩)))
  | @completed result hphase =>
    cases result with
    | ok r => exact .inl ⟨_, hphase, rfl, .responded r t, rfl⟩
    | error e => exact .inl ⟨_, hphase, rfl, .rejected e t, rfl⟩
  | stopHooks hphase => exact .inl ⟨_, hphase, rfl, .stopHooksReturned _ _ t, rfl⟩
  | preflight hphase => exact .inl ⟨_, hphase, rfl, .preflightCall _ _ _ _ t, rfl⟩
  | finished hphase => exact .inl ⟨_, hphase, rfl, .tasksFinished _ t, rfl⟩
  | spawned hphase | joined hphase | lost hphase | drain hphase =>
    exact .inl ⟨_, hphase, rfl, ⟨rfl, rfl, by intro stop h; cases h⟩, rfl⟩

/-- What a step keeps of where the steers are. -/
theorem Carried.step {cfg : Config} {e : TurnEvent} (h : Carried t drains)
    (hstep : TurnStep cfg t e t') (hseats : Seats cfg e t drains) :
    Carried t' (drains ++ System.drained cfg e t) := by
  rcases hstep.settles with ⟨phase, hphase, hsettled, hsettles, hdrained⟩ | ⟨rfl, hphase, rfl⟩ |
    ⟨rfl, rfl⟩ | ⟨reason, summary, rfl, hphase, rfl⟩ |
    ⟨reason, summary, prompt, outputs, rfl, hphase, rfl⟩
  · rw [hdrained, List.append_nil]
    exact h.settles hphase hsettled hsettles
  · exact h.roundBoundary hphase hseats
  · trivial
  · rw [System.drained, List.append_nil]
    · exact h.summarized reason hphase hseats
    · intro h'
      cases h'
  · rw [System.drained, List.append_nil]
    · exact h.handoffPerformed reason outputs hphase
    · intro h'
      cases h'

theorem recoveryRung_not_ok (rejectedBytes : Nat) (error : String) (t : Turn) :
    (t.recoveryRung rejectedBytes error).phase ≠ .done (.ok stop) := by
  rw [Turn.recoveryRung]
  split
  · intro h
    cases h
  · dsimp only
    split
    · intro h
      cases h
    · intro h
      cases h

theorem handoffSkipped_not_ok {cfg : Config} (reason : HandoffReason) (t : Turn) :
    (t.handoffSkipped cfg reason).phase ≠ .done (.ok stop) := by
  cases reason with
  | preflight =>
    intro h
    cases h
  | recovery rejectedBytes error => exact recoveryRung_not_ok rejectedBytes error t

theorem summarized_not_ok {cfg : Config} (reason : HandoffReason) (summary : Except AgentError String)
    (t : Turn) : (t.summarized cfg reason summary).phase ≠ .done (.ok stop) := by
  cases summary with
  | error e => exact handoffSkipped_not_ok reason t
  | ok s =>
    rw [Turn.summarized]
    split
    · exact handoffSkipped_not_ok reason t
    · intro h
      cases h

/-- A run that ends ok without a cancel ends by its own step. -/
theorem TurnStep.ends {cfg : Config} {e : TurnEvent} (h : TurnStep cfg t e t')
    (hdone : t'.phase = .done (.ok stop)) (hstop : stop ≠ .cancelled) : EndsRun cfg e t := by
  rcases h.settles with ⟨phase, _, _, hsettles, _⟩ | ⟨rfl, _, rfl⟩ | ⟨rfl, rfl⟩ |
    ⟨reason, summary, rfl, _, rfl⟩ | ⟨reason, summary, prompt, outputs, rfl, _, rfl⟩
  · exact hsettles.ends stop hdone hstop
  · rw [Turn.roundBoundary] at hdone
    split at hdone
    · assumption
    · split at hdone
      · cases hdone
        exact absurd rfl hstop
      · dsimp only at hdone
        split at hdone
        · cases hdone
        · cases hdone
  · cases hdone
    exact absurd rfl hstop
  · exact absurd hdone (summarized_not_ok reason summary t)
  · cases reason with
    | preflight => cases hdone
    | recovery => cases hdone

theorem Turn.roundBoundary_queued (cfg : Config) (t : Turn) :
    (System.drained cfg .boundary t).flatten ++ (t.roundBoundary cfg).queued = t.queued := by
  rw [roundBoundary, System.drained]
  by_cases hrounds : 0 < cfg.maxRounds ∧ cfg.maxRounds ≤ t.round
  · rw [if_pos hrounds, if_pos (.inl hrounds)]
    rfl
  · rw [if_neg hrounds]
    by_cases hcancel : t.cancel = true
    · rw [if_pos hcancel, if_pos (.inr hcancel)]
      rfl
    · rw [if_neg hcancel, if_neg (not_or.mpr ⟨hrounds, hcancel⟩), List.flatten_singleton]
      dsimp only
      split
      · exact List.append_nil _
      · exact List.append_nil _

/-- A step takes steers from the queue to the history, and loses none. -/
theorem TurnStep.queued {cfg : Config} {e : TurnEvent} (h : TurnStep cfg t e t') :
    (System.drained cfg e t).flatten ++ t'.queued = t.queued := by
  rcases h.frame with ⟨rfl, _, rfl⟩ | ⟨r, rfl, _, rfl⟩ | ⟨hframe, _, hdrained⟩
  · exact t.roundBoundary_queued cfg
  · obtain ⟨_, _, _, _, hrecord⟩ := Turn.recordUsage_eq cfg r t
    have hframe : Turn.Frame (t.recordUsage cfg r) (t.responded cfg r) := .answered r t
    rw [Turn.queued, hframe.steer, hrecord]
    rfl
  · rw [hdrained, Turn.queued, hframe.steer]
    rfl

end Buzz.Agent
