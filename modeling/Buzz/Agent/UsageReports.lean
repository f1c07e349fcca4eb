import Buzz.Agent.UsageLedger

namespace Buzz.Agent
set_option autoImplicit true

namespace Turn

theorem usageBearing_eq_false (h : usageBearing r = false) :
    r.inputTokens = none ∧ r.inputTokensOverflowed = false ∧ r.outputTokens = none := by
  rw [usageBearing, Bool.or_eq_false_iff, Bool.or_eq_false_iff] at h
  exact ⟨Option.isSome_eq_false_iff.mp h.1.1 |> Option.isNone_iff_eq_none.mp, h.1.2,
    Option.isSome_eq_false_iff.mp h.2 |> Option.isNone_iff_eq_none.mp⟩

/-- A response that tells nothing leaves the counts. -/
theorem recordUsage_quiet {cfg : Config} {t : Turn} (h : usageBearing r = false) :
    t.recordUsage cfg r = t := by
  obtain ⟨hinput, hoverflowed, houtput⟩ := usageBearing_eq_false h
  rw [recordUsage, recordInput, recordOutput, hoverflowed, h, if_neg Bool.false_ne_true,
    if_neg Bool.false_ne_true]
  simp only [hinput, houtput]

theorem recordUsage_usageBaseline (cfg : Config) (r : LlmResponse) (t : Turn) :
    (t.recordUsage cfg r).usageBaseline = t.usageBaseline := by
  obtain ⟨_, _, _, _, h⟩ := recordUsage_eq cfg r t
  rw [h]

theorem start_usage (t : Turn) (prompt : List ContentBlock) (h : t.usage = .unseen) :
    (t.start prompt).usage = .unseen ∧ (t.start prompt).usageBaseline = t.usageBaseline := by
  rw [start]
  split
  · exact ⟨h, rfl⟩
  · split
    · exact ⟨h, rfl⟩
    · exact ⟨rfl, rfl⟩

end Turn

theorem Tally.add_ne_unseen (t : Tally) (n : UInt64) : t.add n ≠ unseen := by
  cases t with
  | unseen =>
    intro h
    cases h
  | exact acc =>
    rw [add, checkedExactSum]
    split
    · intro h
      cases h
    · intro h
      cases h
  | unknown =>
    intro h
    cases h

namespace Turn

/-- Only the input of a response adds to the input. -/
theorem recordInput_usage (r : LlmResponse) (t : Turn) :
    (t.recordInput r).usage.outputTokens = t.usage.outputTokens ∧
    t.usage.inputTokens.rank ≤ (t.recordInput r).usage.inputTokens.rank ∧
    (r.inputTokens.isSome ∨ r.inputTokensOverflowed → (t.recordInput r).usage.inputTokens ≠ .unseen) := by
  rw [recordInput]
  split
  · refine ⟨rfl, Tally.le_unknown _, fun _ h => ?_⟩
    cases h
  · rename_i hoverflowed
    split
    · exact ⟨rfl, Tally.le_add _ _, fun _ => Tally.add_ne_unseen _ _⟩
    · rename_i hnone
      refine ⟨rfl, le_refl _, fun h => ?_⟩
      rw [hnone] at h
      rcases h with h | h
      · cases h
      · exact absurd h hoverflowed

theorem recordOutput_usage (r : LlmResponse) (t : Turn) :
    (t.recordOutput r).usage.inputTokens = t.usage.inputTokens ∧
    t.usage.outputTokens.rank ≤ (t.recordOutput r).usage.outputTokens.rank ∧
    (r.outputTokens.isSome → (t.recordOutput r).usage.outputTokens ≠ .unseen) := by
  rw [recordOutput]
  split
  · exact ⟨rfl, Tally.le_add _ _, fun _ => Tally.add_ne_unseen _ _⟩
  · rename_i hnone
    refine ⟨rfl, le_refl _, fun h => ?_⟩
    rw [hnone] at h
    cases h

/-- A response that tells what it used adds to the counts. -/
theorem recordUsage_bearing (cfg : Config) (t : Turn) (h : usageBearing r = true) :
    (t.recordUsage cfg r).usage.seen = true ∧
      SessionUsageBaseline.Le t.usage (t.recordUsage cfg r).usage := by
  obtain ⟨houtput, hinputLe, hinput⟩ := recordInput_usage r t
  obtain ⟨hinput', houtputLe, houtput'⟩ := recordOutput_usage r (t.recordInput r)
  have htokens : (t.recordUsage cfg r).usage.inputTokens = (t.recordInput r).usage.inputTokens ∧
      (t.recordUsage cfg r).usage.outputTokens =
        ((t.recordInput r).recordOutput r).usage.outputTokens := by
    rw [recordUsage, if_pos h]
    exact ⟨hinput', rfl⟩
  rw [SessionUsageBaseline.seen, SessionUsageBaseline.Le, htokens.1, htokens.2]
  rw [houtput] at houtputLe
  refine ⟨?_, hinputLe, houtputLe⟩
  rw [usageBearing, Bool.or_eq_true, Bool.or_eq_true] at h
  rw [Bool.or_eq_true, decide_eq_true_iff, decide_eq_true_iff]
  rcases h with h | h
  · exact .inl (hinput h)
  · exact .inr (houtput' h)

end Turn

/-- No prompt is accepted while there is usage to merge, and no response counted while an update
is still to be sent. -/
def Orderly (s : System) : Event → Prop
  | .prompt _ _ => s.session.busy = true ∨
      ∀ task ∈ s.tasks, task.stage = .released → task.turn.usage.seen = false
  | .turn _ (.completed (.ok r)) =>
    Turn.usageBearing r = true → ∀ task ∈ s.tasks, ∀ update, task.stage ≠ .merged update
  | _ => True

namespace System

variable {cfg : Config} {s : System}

/-- A change of a task that its account does not see. -/
theorem ledger_modify {change : Task → Task} (k : Nat) (acknowledged : List (Nat × List ContentBlock))
    (s : System) (h : ∀ task, (change task).account = task.account) :
    ({ s with tasks := s.tasks.modify k change, acknowledged } : System).ledger = s.ledger :=
  congrArg (fun accounts => Ledger.mk accounts s.session.accumulated s.session.busy s.wire)
    (ListAt.map_modify h)

theorem ledger_steerSession (expectedRunId : String) (blocks : List ContentBlock) (s : System) :
    (s.steerSession expectedRunId blocks).2.ledger = s.ledger := by
  rw [steerSession]
  split
  · rfl
  · split
    · split
      · exact ledger_modify _ _ s fun _ => rfl
      · rfl
    · rfl

theorem ledger_cancelSession (s : System) : s.cancelSession.ledger = s.ledger := by
  rw [cancelSession]
  split
  · exact ledger_modify _ _ s fun _ => rfl
  · rfl

theorem ledger_setModel (modelId : String) (s : System) :
    (s.setModel modelId).ledger = s.ledger := by
  rw [setModel]
  split
  · rfl
  · rfl

theorem account_of_task {s : System} {task : Task} {k : Nat} (hk : s.tasks[k]? = some task) :
    s.ledger.accounts[k]? = some task.account := by
  rw [ledger, List.getElem?_map, hk]
  rfl

/-- A task becomes one with another account. -/
theorem ledger_set (s : System) (session : Session) (k : Nat) (task : Task)
    (wire : List UsageUpdate) :
    ({ s with session, tasks := s.tasks.set k task, wire } : System).ledger =
      ⟨s.ledger.accounts.set k task.account, session.accumulated, session.busy, wire⟩ :=
  congrArg (fun accounts => Ledger.mk accounts session.accumulated session.busy wire) List.map_set

theorem forall_accounts {s : System} {P : Account → Prop} (h : ∀ task ∈ s.tasks, P task.account) :
    ∀ a ∈ s.ledger.accounts, P a := by
  intro a ha
  obtain ⟨task, htask, rfl⟩ := List.mem_map.mp ha
  exact h task htask

/-- The account of an accepted prompt. -/
theorem ledger_prompt (cfg : Config) (runId : String) (blocks : List ContentBlock) (s : System)
    (hbusy : ¬ s.session.busy) : (s.prompt cfg runId blocks).ledger =
      ⟨s.ledger.accounts ++ [⟨.running, .unseen, s.ledger.accumulated⟩], s.ledger.accumulated, true,
        s.ledger.wire⟩ := by
  have hstart : ∀ t : Turn, t.usage = .unseen →
      (⟨t.start blocks, .running, []⟩ : Task).account = ⟨.running, .unseen, t.usageBaseline⟩ := by
    intro t ht
    obtain ⟨husage, hbaseline⟩ := t.start_usage blocks ht
    rw [Task.account, husage, hbaseline]
  rw [prompt, if_neg hbusy, ledger]
  dsimp only
  rw [List.map_append, List.map_singleton, hstart]
  · rfl
  · rfl

theorem sound_prompt {cfg : Config} {s : System} (h : s.ledger.Sound)
    (horderly : Orderly s (.prompt runId blocks)) :
    (s.prompt cfg runId blocks).ledger.Sound := by
  by_cases hbusy : s.session.busy
  · rw [prompt, if_pos hbusy]
    exact h
  · rw [ledger_prompt cfg runId blocks s hbusy]
    apply h.accept (Bool.not_eq_true _ ▸ hbusy)
    exact forall_accounts (horderly.resolve_left hbusy)

/-- A run goes on. -/
theorem sound_advance {cfg : Config} {s : System} (h : s.ledger.Sound) (hk : s.tasks[k]? = some task)
    (hstage : task.stage = .running) (hstep : TurnStep cfg task.turn e t)
    (horderly : Orderly s (.turn k e)) : (s.advance cfg k task e t).ledger.Sound := by
  have haccount := account_of_task hk
  have hsame : t.usage = task.turn.usage → t.usageBaseline = task.turn.usageBaseline →
      reported e t = [] → (s.advance cfg k task e t).ledger.Sound := by
    intro husage hbaseline hreported
    have haccount' : (⟨t, task.stage, task.drains ++ drained cfg e task.turn⟩ : Task).account =
        task.account := by
      rw [Task.account, Task.account, husage, hbaseline]
    obtain ⟨hlt, ha⟩ := List.getElem?_eq_some_iff.mp haccount
    rw [advance, ledger_set, hreported, List.append_nil, haccount', ← ha, List.set_getElem_self]
    exact h
  rcases hstep.frame with ⟨rfl, _, rfl⟩ | ⟨r, rfl, _, rfl⟩ | ⟨hframe, hreported, _⟩
  · obtain ⟨husage, hbaseline⟩ := task.turn.roundBoundary_usage cfg
    exact hsame husage hbaseline rfl
  · have hframe : Turn.Frame (task.turn.recordUsage cfg r) (task.turn.responded cfg r) :=
      .answered r task.turn
    have hbaseline := hframe.usageBaseline.trans (Turn.recordUsage_usageBaseline cfg r task.turn)
    by_cases hbearing : Turn.usageBearing r = true
    · obtain ⟨hseen, hle⟩ := Turn.recordUsage_bearing cfg task.turn hbearing
      rw [← hframe.usage] at hseen hle
      rw [advance, ledger_set, reported, if_pos hbearing, Task.account, hbaseline]
      apply h.used haccount hstage hseen hle (forall_accounts (horderly hbearing))
      rw [Turn.usageUpdate, hbaseline]
      exact ⟨rfl, rfl⟩
    · rw [Bool.not_eq_true] at hbearing
      have husage := hframe.usage
      rw [Turn.recordUsage_quiet hbearing] at husage
      apply hsame husage hbaseline
      rw [reported, hbearing]
      rfl
  · exact hsame hframe.usage hframe.usageBaseline hreported

theorem sound_release {s : System} (h : s.ledger.Sound) (hk : s.tasks[k]? = some task)
    (hstage : task.stage = .running) : (s.release k task).ledger.Sound := by
  have haccount := account_of_task hk
  obtain ⟨hlast, hbusy⟩ := h.running k task.account haccount hstage
  rw [release, ledger_set]
  apply h.restage haccount
  · rw [Account.merged, Account.merged, Task.account, hstage]
  · intro h'
    cases h'
  · exact fun _ => hlast
  · intro update h'
    cases h'
  · intro j b hj hb hrunning
    have hj' := (h.running j b hb hrunning).1
    omega

theorem sound_merge {s : System} (h : s.ledger.Sound) (hk : s.tasks[k]? = some task)
    (hstage : task.stage = .released) : (s.merge k task).ledger.Sound := by
  have haccount := account_of_task hk
  rw [merge]
  split
  · rename_i hseen
    dsimp only
    rw [ledger_set]
    exact h.merge haccount hstage hseen ⟨rfl, rfl⟩
  · rename_i hseen
    rw [Bool.not_eq_true] at hseen
    have hunused := h.seen task.account (List.mem_of_getElem? haccount) hseen
    rw [ledger_set]
    apply h.restage haccount
    · rw [Account.merged, Account.merged, Task.account, hstage]
      exact hunused
    · intro h'
      cases h'
    · intro h'
      cases h'
    · intro update h'
      cases h'
    · exact fun j b _ hb hrunning => (h.running j b hb hrunning).2

theorem sound_sendUpdate {s : System} (h : s.ledger.Sound) (hk : s.tasks[k]? = some task)
    (hstage : task.stage = .merged update) : (s.sendUpdate k task update).ledger.Sound := by
  have haccount := account_of_task hk
  have hsent := h.sent (h.unsent task.account (List.mem_of_getElem? haccount) update hstage)
  rw [sendUpdate, ledger_set]
  apply hsent.restage haccount
  · rw [Account.merged, Account.merged, Task.account, hstage]
  · intro h'
    cases h'
  · intro h'
    cases h'
  · intro update h'
    cases h'
  · exact fun j b _ hb hrunning => (h.running j b hb hrunning).2

/-- What an orderly step keeps. -/
theorem sound_step {cfg : Config} {s : System} (h : s.ledger.Sound) (hstep : Step cfg s e s')
    (horderly : Orderly s e) : s'.ledger.Sound := by
  cases hstep with
  | prompt => exact sound_prompt h horderly
  | steer =>
    rw [ledger_steerSession]
    exact h
  | cancel =>
    rw [ledger_cancelSession]
    exact h
  | setModel =>
    rw [ledger_setModel]
    exact h
  | turn hk hstage hturn => exact sound_advance h hk hstage hturn horderly
  | release hk hstage => exact sound_release h hk hstage
  | merge hk hstage => exact sound_merge h hk hstage
  | sendUpdate hk hstage => exact sound_sendUpdate h hk hstage

end System

/-- Each turn was given the usage of the turns before it. -/
def BaselinesCurrent (s : System) : Prop :=
  ∀ (k : Nat) (task : Task), s.tasks[k]? = some task →
    task.turn.usageBaseline = totalUsage ((s.tasks.take k).map fun before => before.turn.usage)

/-- In an orderly session the counts that are told are those of all turns so far. -/
theorem usage_reports_nonDecreasing {cfg : Config}
    (h : Run (fun s e s' => Step cfg s e s' ∧ Orderly s e) System.init events s) :
    BaselinesCurrent s ∧ NonDecreasing (s.wire.map UsageUpdate.accumulatedInputTokens) ∧
      NonDecreasing (s.wire.map UsageUpdate.accumulatedOutputTokens) := by
  have hsound : s.ledger.Sound := by
    induction h with
    | nil => exact .init
    | snoc _ hstep ih => exact System.sound_step ih hstep.1 hstep.2
  refine ⟨?_, hsound.nonDecreasing⟩
  intro k task hk
  have hbaseline := hsound.baseline k task.account (System.account_of_task hk)
  rw [System.ledger, ← List.map_take, List.map_map] at hbaseline
  exact hbaseline

def plainConfig : Config :=
  ⟨"model", 0, 1000, 1000, 0, 0, 0, false, none, []⟩

/-- A response that ends its turn. -/
def answer (inputTokens : UInt64) : LlmResponse :=
  ⟨"", [], .endTurn, some inputTokens, false, none, none, some 1, none, none, none⟩

/-- One prompt after the other. -/
theorem usage_reports_nonDecreasing_two : ∃ s,
    Run (fun s e s' => Step plainConfig s e s' ∧ Orderly s e) System.init
      [.prompt "first" [.text "hi"], .turn 0 .boundary, .turn 0 (.completed (.ok (answer 100))),
        .release 0, .merge 0, .sendUpdate 0, .prompt "second" [.text "hi"], .turn 1 .boundary,
        .turn 1 (.completed (.ok (answer 10)))] s ∧
    s.wire.map UsageUpdate.accumulatedInputTokens = [some 100, some 100, some 110] ∧
    BaselinesCurrent s ∧ NonDecreasing (s.wire.map UsageUpdate.accumulatedInputTokens) ∧
      NonDecreasing (s.wire.map UsageUpdate.accumulatedOutputTokens) := by
  have hrun : ∃ s, Run (fun s e s' => Step plainConfig s e s' ∧ Orderly s e) System.init
      [.prompt "first" [.text "hi"], .turn 0 .boundary, .turn 0 (.completed (.ok (answer 100))),
        .release 0, .merge 0, .sendUpdate 0, .prompt "second" [.text "hi"], .turn 1 .boundary,
        .turn 1 (.completed (.ok (answer 10)))] s ∧
      s.wire.map UsageUpdate.accumulatedInputTokens = [some 100, some 100, some 110] := by
    refine ⟨_, (((((((((Run.nil.snoc ⟨.prompt, .inr ?first⟩).snoc
      ⟨.turn (k := 0) rfl rfl (.boundary rfl), trivial⟩).snoc
      ⟨.turn (k := 0) rfl rfl (.completed rfl rfl), ?answered⟩).snoc
      ⟨.release (k := 0) rfl rfl rfl, trivial⟩).snoc
      ⟨.merge (k := 0) rfl rfl, trivial⟩).snoc
      ⟨.sendUpdate (k := 0) rfl rfl, trivial⟩).snoc
      ⟨.prompt, .inr ?second⟩).snoc
      ⟨.turn (k := 1) rfl rfl (.boundary rfl), trivial⟩).snoc
      ⟨.turn (k := 1) rfl rfl (.completed rfl rfl), ?answeredAgain⟩), rfl⟩
    case first =>
      intro task htask
      cases htask
    case answered =>
      intro _ task htask update hstage
      cases List.mem_singleton.mp htask
      cases hstage
    case second =>
      intro task htask hstage
      cases List.mem_singleton.mp htask
      cases hstage
    case answeredAgain =>
      intro _ task htask update hstage
      rcases List.mem_pair.mp htask with rfl | rfl
      · cases hstage
      · cases hstage
  obtain ⟨s, hrun, htold⟩ := hrun
  exact ⟨s, hrun, htold, usage_reports_nonDecreasing hrun⟩

/-- A prompt that comes in before the last turn's usage is merged does not have it. -/
theorem usage_reports_stale : ∃ events s, Run (Step plainConfig) System.init events s ∧
    ¬ BaselinesCurrent s ∧ ¬ NonDecreasing (s.wire.map UsageUpdate.accumulatedInputTokens) := by
  refine ⟨[.prompt "first" [.text "hi"], .turn 0 .boundary, .turn 0 (.completed (.ok (answer 100))),
        .release 0, .prompt "second" [.text "hi"], .merge 0, .sendUpdate 0, .turn 1 .boundary,
        .turn 1 (.completed (.ok (answer 10)))], _, (((((((((Run.nil.snoc .prompt).snoc
      (.turn (k := 0) rfl rfl (.boundary rfl))).snoc
      (.turn (k := 0) rfl rfl (.completed rfl rfl))).snoc
      (.release (k := 0) rfl rfl rfl)).snoc .prompt).snoc
      (.merge (k := 0) rfl rfl)).snoc
      (.sendUpdate (k := 0) rfl rfl)).snoc
      (.turn (k := 1) rfl rfl (.boundary rfl))).snoc
      (.turn (k := 1) rfl rfl (.completed rfl rfl))), ?_, ?_⟩
  · intro h
    have hbaseline := congrArg SessionUsageBaseline.inputTokens (h 1 _ rfl)
    cases hbaseline
  · intro h
    have hle := h.1 0 2 100 10 (by omega) rfl rfl
    rw [UInt64.le_iff_toNat_le] at hle
    exact absurd hle (by decide)

end Buzz.Agent
