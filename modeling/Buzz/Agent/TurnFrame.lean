import Buzz.Agent.Session

namespace Buzz.Agent
set_option autoImplicit true

/-- The counts of a run, what they are added to, and its steer queue are as they were. -/
structure Turn.Frame (t t' : Turn) : Prop where
  usage : t'.usage = t.usage
  usageBaseline : t'.usageBaseline = t.usageBaseline
  steer : t'.steer = t.steer

namespace Turn.Frame

variable {cfg : Config}

theorem refl (t : Turn) : Frame t t :=
  ⟨rfl, rfl, rfl⟩

theorem skipped (t : Turn) : Frame t (t.truncate cfg).request :=
  ⟨rfl, rfl, rfl⟩

theorem recoveryRung (rejectedBytes : Nat) (error : String) (t : Turn) :
    Frame t (t.recoveryRung rejectedBytes error) := by
  rw [Turn.recoveryRung]
  split
  · exact ⟨rfl, rfl, rfl⟩
  · dsimp only
    split
    · exact ⟨rfl, rfl, rfl⟩
    · exact ⟨rfl, rfl, rfl⟩

theorem handoffSkipped (reason : HandoffReason) (t : Turn) :
    Frame t (t.handoffSkipped cfg reason) := by
  cases reason with
  | preflight => exact skipped t
  | recovery rejectedBytes error => exact recoveryRung rejectedBytes error t

theorem summarized (reason : HandoffReason) (summary : Except AgentError String) (t : Turn) :
    Frame t (t.summarized cfg reason summary) := by
  cases summary with
  | error e => exact handoffSkipped reason t
  | ok s =>
    rw [Turn.summarized]
    split
    · exact handoffSkipped reason t
    · exact ⟨rfl, rfl, rfl⟩

theorem handoffPerformed (reason : HandoffReason) (summary : String) (prompt : Option String)
    (outputs : List (String × String)) (t : Turn) :
    Frame t (t.handoffPerformed reason summary prompt outputs) := by
  cases reason with
  | preflight => exact ⟨rfl, rfl, rfl⟩
  | recovery => exact ⟨rfl, rfl, rfl⟩

theorem rejected (error : AgentError) (t : Turn) : Frame t (t.rejected error) := by
  cases error with
  | unsupportedImageInput text =>
    rw [Turn.rejected]
    dsimp only
    split
    · exact ⟨rfl, rfl, rfl⟩
    · exact ⟨rfl, rfl, rfl⟩
  | llmContextExceeded e => exact recoveryRung _ e t
  | _ => exact ⟨rfl, rfl, rfl⟩

theorem answered (r : LlmResponse) (t : Turn) :
    Frame (t.recordUsage cfg r) (t.responded cfg r) := by
  rw [Turn.responded]
  generalize t.recordUsage cfg r = t
  split
  · rw [maxTokensResponse]
    dsimp only
    split
    · exact ⟨rfl, rfl, rfl⟩
    · exact ⟨rfl, rfl, rfl⟩
  · split
    · rw [finalResponse]
      split
      · exact ⟨rfl, rfl, rfl⟩
      · dsimp only
        split
        · exact ⟨rfl, rfl, rfl⟩
        · exact ⟨rfl, rfl, rfl⟩
    · exact ⟨rfl, rfl, rfl⟩

theorem stopHooksReturned (outputs : List (String × String)) (nonce : Nat → Nat) (t : Turn) :
    Frame t (t.stopHooksReturned cfg outputs nonce) := by
  rw [Turn.stopHooksReturned]
  split
  · exact ⟨rfl, rfl, rfl⟩
  · exact ⟨rfl, rfl, rfl⟩

theorem preflightCall (batch : Batch) (idx : Nat) (call : ToolCall) (skill : ToolResult)
    (t : Turn) : Frame t (t.preflightCall cfg batch idx call skill) := by
  rw [Turn.preflightCall]
  split_ifs
  · exact ⟨rfl, rfl, rfl⟩
  · exact ⟨rfl, rfl, rfl⟩
  · exact ⟨rfl, rfl, rfl⟩
  · exact ⟨rfl, rfl, rfl⟩

theorem tasksFinished (batch : Batch) (t : Turn) : Frame t (t.tasksFinished batch) := by
  rw [Turn.tasksFinished]
  split
  · exact ⟨rfl, rfl, rfl⟩
  · exact ⟨rfl, rfl, rfl⟩

end Turn.Frame

/-- A round boundary keeps the counts. -/
theorem Turn.roundBoundary_usage (cfg : Config) (t : Turn) :
    (t.roundBoundary cfg).usage = t.usage ∧
      (t.roundBoundary cfg).usageBaseline = t.usageBaseline := by
  rw [roundBoundary]
  split
  · exact ⟨rfl, rfl⟩
  · split
    · exact ⟨rfl, rfl⟩
    · dsimp only
      split
      · exact ⟨rfl, rfl⟩
      · exact ⟨rfl, rfl⟩

/-- Only a round boundary changes the queue, and only a response the counts. -/
theorem TurnStep.frame (h : TurnStep cfg t e t') :
    (e = .boundary ∧ t.phase = .boundary ∧ t' = t.roundBoundary cfg) ∨
    (∃ r, e = .completed (.ok r) ∧ t.phase = .completing ∧ t' = t.responded cfg r) ∨
    (Turn.Frame t t' ∧ System.reported e t' = [] ∧ System.drained cfg e t = []) := by
  cases h with
  | boundary hphase => exact .inl ⟨rfl, hphase, rfl⟩
  | cancelled => exact .inr (.inr ⟨⟨rfl, rfl, rfl⟩, rfl, rfl⟩)
  | summarized => exact .inr (.inr ⟨.summarized _ _ t, rfl, rfl⟩)
  | postCompacted => exact .inr (.inr ⟨.handoffPerformed _ _ _ _ t, rfl, rfl⟩)
  | @completed result hphase =>
    cases result with
    | ok r => exact .inr (.inl ⟨r, rfl, hphase, rfl⟩)
    | error e => exact .inr (.inr ⟨.rejected e t, rfl, rfl⟩)
  | stopHooks => exact .inr (.inr ⟨.stopHooksReturned _ _ t, rfl, rfl⟩)
  | preflight => exact .inr (.inr ⟨.preflightCall _ _ _ _ t, rfl, rfl⟩)
  | spawned => exact .inr (.inr ⟨⟨rfl, rfl, rfl⟩, rfl, rfl⟩)
  | joined => exact .inr (.inr ⟨⟨rfl, rfl, rfl⟩, rfl, rfl⟩)
  | lost => exact .inr (.inr ⟨⟨rfl, rfl, rfl⟩, rfl, rfl⟩)
  | drain => exact .inr (.inr ⟨⟨rfl, rfl, rfl⟩, rfl, rfl⟩)
  | finished => exact .inr (.inr ⟨.tasksFinished _ t, rfl, rfl⟩)

end Buzz.Agent
