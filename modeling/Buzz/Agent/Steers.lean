import Buzz.Agent.SteersCarried
import Buzz.Agent.UsageReports

namespace Buzz.Agent
set_option autoImplicit true

/-- What a prompt owes the steers that were answered ok. -/
structure Task.Delivered (texts : List String) (task : Task) : Prop where
  accounted : texts = task.drains.flatten ++ task.turn.queued
  emptied : ∀ stop, task.turn.phase = .done (.ok stop) → stop ≠ .cancelled →
    task.turn.queued = []
  carried : Carried task.turn task.drains

/-- One more steer, where the run has not ended. -/
theorem Task.Delivered.queue {task : Task} {blocks : List ContentBlock} (h : task.Delivered texts)
    (hintime : steerText blocks ≠ none → ∀ stop, task.turn.phase = .done (.ok stop) →
      stop = .cancelled) :
    Task.Delivered (texts ++ (steerText blocks).toList)
      { task with turn := { task.turn with steer := task.turn.steer ++ [blocks] } } := by
  have hqueued : ({ task.turn with steer := task.turn.steer ++ [blocks] } : Turn).queued =
      task.turn.queued ++ (steerText blocks).toList := by
    rw [Turn.queued, List.filterMap_append, List.filterMap_cons, List.filterMap_nil]
    cases steerText blocks with
    | none => rfl
    | some text => rfl
  constructor
  case accounted =>
    dsimp only
    rw [hqueued, h.accounted, List.append_assoc]
  case emptied =>
    intro stop hdone hstop
    dsimp only
    rw [hqueued, h.emptied stop hdone hstop]
    cases htext : steerText blocks with
    | none => rfl
    | some text => exact absurd (hintime (by rw [htext]; simp) stop hdone) hstop
  case carried => exact h.carried

namespace System

/-- The texts of the steers to a prompt that were answered ok. -/
def acknowledgedTexts (s : System) (k : Nat) : List String :=
  s.acknowledged.filterMap fun a => if a.1 = k then steerText a.2 else none

theorem acknowledgedTexts_queue (s : System) (k j : Nat) (blocks : List ContentBlock) :
    (s.queue k blocks).acknowledgedTexts j =
      s.acknowledgedTexts j ++ if j = k then (steerText blocks).toList else [] := by
  rw [acknowledgedTexts, queue, List.filterMap_append, acknowledgedTexts]
  congr 1
  rw [List.filterMap_cons, List.filterMap_nil]
  by_cases hj : j = k
  · rw [if_pos hj, if_pos hj.symm]
    cases steerText blocks with
    | none => rfl
    | some text => rfl
  · rw [if_neg hj, if_neg (Ne.symm hj)]

end System

/-- No steer comes after the last round boundary of its run, and none that was taken in is cut from
the request. -/
def InTime (cfg : Config) (s : System) : Event → Prop
  | .steer expectedRunId blocks => s.session.activeRunId = some expectedRunId →
      steerText blocks ≠ none → ∀ (k : Nat) (task : Task) (stop : StopReason),
        s.session.steerTx = some k → s.tasks[k]? = some task →
          task.turn.phase = .done (.ok stop) → stop = .cancelled
  | .turn k e => ∀ task, s.tasks[k]? = some task →
      (EndsRun cfg e task.turn → task.turn.queued = []) ∧ Seats cfg e task.turn task.drains
  | _ => True

/-- The prompt that runs is the one that steers go to, and each prompt has what it owes. -/
structure SteersKept (s : System) : Prop where
  known : ∀ a ∈ s.acknowledged, a.1 < s.tasks.length
  target : ∀ k, s.session.steerTx = some k ↔ (s.tasks.map Task.stage)[k]? = some .running
  busy : s.session.busy = s.session.steerTx.isSome
  delivered : ∀ (k : Nat) (task : Task), s.tasks[k]? = some task → task.Delivered (s.acknowledgedTexts k)

namespace SteersKept

variable {cfg : Config} {s : System} {task : Task}

theorem init : SteersKept .init where
  known _ h := by cases h
  target k := by
    constructor
    · intro h
      cases h
    · intro h
      cases h
  busy := rfl
  delivered _ _ h := by cases h

theorem acknowledgedTexts_eq_nil (h : SteersKept s) (hk : s.tasks.length ≤ k) :
    s.acknowledgedTexts k = [] := by
  rw [System.acknowledgedTexts, List.filterMap_eq_nil_iff]
  intro a ha
  have hne : a.1 ≠ k := (lt_of_lt_of_le (h.known a ha) hk).ne
  exact if_neg hne

/-- A prompt starts without steers. -/
theorem delivered_start {t : Turn} (hsteer : t.steer = []) (prompt : List ContentBlock) :
    Task.Delivered [] ⟨t.start prompt, stage, []⟩ := by
  have hqueued : t.queued = [] := by
    rw [Turn.queued, hsteer]
    rfl
  have hstart : (t.start prompt).queued = t.queued ∧ ((t.start prompt).phase = .boundary ∨
      ∃ error, (t.start prompt).phase = .done (.error error)) := by
    rw [Turn.start]
    split
    · exact ⟨rfl, .inr ⟨_, rfl⟩⟩
    · split
      · exact ⟨rfl, .inr ⟨_, rfl⟩⟩
      · exact ⟨rfl, .inl rfl⟩
  rw [hqueued] at hstart
  constructor
  case accounted => exact hstart.1.symm
  case emptied => exact fun _ _ _ => hstart.1
  case carried =>
    rcases hstart.2 with hphase | ⟨error, hphase⟩
    · apply Carried.of_settled
      · dsimp only
        rw [hphase]
        rfl
      · intro texts h
        cases h
    · rw [Carried]
      dsimp only
      rw [hphase]
      trivial

theorem prompt (h : SteersKept s) (runId : String) (blocks : List ContentBlock) :
    SteersKept (s.prompt cfg runId blocks) := by
  rw [System.prompt]
  split
  · exact h
  · rename_i hbusy
    have hidle : s.session.steerTx = none := by
      rw [h.busy] at hbusy
      simpa using hbusy
    constructor
    case known =>
      intro a ha
      have := h.known a ha
      dsimp only
      rw [List.length_append]
      omega
    case target =>
      intro k
      constructor
      · intro hk
        cases hk
        rw [List.map_append, ← List.length_map Task.stage]
        exact List.getElem?_concat_length
      · intro hk
        rw [List.map_append, List.map_singleton] at hk
        rcases ListAt.getElem?_snoc hk with hk | ⟨hk, _⟩
        · have htarget := (h.target k).mpr hk
          rw [hidle] at htarget
          cases htarget
        · rw [hk, List.length_map]
    case busy => rfl
    case delivered =>
      intro k task hk
      rcases ListAt.getElem?_snoc hk with hk | ⟨rfl, rfl⟩
      · exact h.delivered k task hk
      · have hnone := h.acknowledgedTexts_eq_nil (le_refl _)
        rw [System.acknowledgedTexts] at hnone ⊢
        rw [hnone]
        exact delivered_start rfl blocks

/-- A steer goes to the prompt that runs. -/
theorem queue (h : SteersKept s) (hk : s.session.steerTx = some k) (blocks : List ContentBlock)
    (hintime : steerText blocks ≠ none → ∀ (task : Task) (stop : StopReason),
      s.tasks[k]? = some task → task.turn.phase = .done (.ok stop) → stop = .cancelled) :
    SteersKept (s.queue k blocks) := by
  have hrunning := (h.target k).mp hk
  constructor
  case known =>
    intro a ha
    rw [System.queue, List.length_modify]
    rcases List.mem_append.mp ha with ha | ha
    · exact h.known a ha
    · rw [List.mem_singleton] at ha
      rw [ha, ← List.length_map Task.stage]
      exact (List.getElem?_eq_some_iff.mp hrunning).1
  case target =>
    intro j
    have hstages : (s.queue k blocks).tasks.map Task.stage = s.tasks.map Task.stage :=
      ListAt.map_modify fun _ => rfl
    rw [hstages]
    exact h.target j
  case busy => exact h.busy
  case delivered =>
    intro j task hj
    obtain ⟨before, hbefore, rfl⟩ := ListAt.getElem?_modify hj
    have hdelivered := h.delivered j before hbefore
    rw [System.acknowledgedTexts_queue]
    split
    · rename_i hj
      rw [hj] at hbefore
      exact hdelivered.queue fun htext stop => hintime htext before stop hbefore
    · rwa [List.append_nil]

theorem steerSession (h : SteersKept s) (hintime : InTime cfg s (.steer expectedRunId blocks)) :
    SteersKept (s.steerSession expectedRunId blocks).2 := by
  rw [System.steerSession]
  split
  · exact h
  · split
    · rename_i hrun
      split
      · rename_i k hk
        apply h.queue hk
        intro htext task stop htask hdone
        exact hintime hrun htext k task stop hk htask hdone
      · exact h
    · exact h

/-- A change of a prompt that does not touch its steers. -/
theorem modify {change : Task → Task} (h : SteersKept s)
    (hstage : ∀ task, (change task).stage = task.stage)
    (hchange : ∀ texts task, Task.Delivered texts task → Task.Delivered texts (change task)) :
    SteersKept { s with tasks := s.tasks.modify k change } := by
  constructor
  case known =>
    intro a ha
    dsimp only
    rw [List.length_modify]
    exact h.known a ha
  case target =>
    intro j
    dsimp only
    rw [ListAt.map_modify hstage]
    exact h.target j
  case busy => exact h.busy
  case delivered =>
    intro j task hj
    obtain ⟨before, hbefore, rfl⟩ := ListAt.getElem?_modify hj
    have hdelivered := h.delivered j before hbefore
    split
    · exact hchange _ before hdelivered
    · exact hdelivered

theorem cancelSession (h : SteersKept s) : SteersKept s.cancelSession := by
  rw [System.cancelSession]
  split
  · exact h.modify (fun _ => rfl) fun _ _ h' => ⟨h'.accounted, h'.emptied, h'.carried⟩
  · exact h

theorem setModel (h : SteersKept s) (modelId : String) : SteersKept (s.setModel modelId) := by
  rw [System.setModel]
  split
  · exact h
  · exact ⟨h.known, h.target, h.busy, h.delivered⟩

/-- One prompt goes on, and `held` is the prompt that steers go to then. -/
theorem set {session : Session} {wire : List UsageUpdate} (h : SteersKept s)
    (hk : s.tasks[k]? = some task) (hdelivered : Task.Delivered (s.acknowledgedTexts k) after)
    (hbusy : session.busy = session.steerTx.isSome)
    (hself : session.steerTx = some k ↔ after.stage = .running)
    (hother : ∀ j, j ≠ k → (session.steerTx = some j ↔ s.session.steerTx = some j)) :
    SteersKept { s with session, tasks := s.tasks.set k after, wire } := by
  have hlen := (List.getElem?_eq_some_iff.mp hk).1
  constructor
  case known =>
    intro a ha
    dsimp only
    rw [List.length_set]
    exact h.known a ha
  case target =>
    intro j
    dsimp only
    rw [List.map_set, List.getElem?_set]
    split
    · rename_i hj
      rw [← hj, if_pos (by rwa [List.length_map]), Option.some_inj]
      exact hself
    · rename_i hj
      rw [hother j (Ne.symm hj)]
      exact h.target j
  case busy => exact hbusy
  case delivered =>
    intro j task' hj
    rcases ListAt.getElem?_set hj with ⟨rfl, rfl⟩ | ⟨_, hj⟩
    · exact hdelivered
    · exact h.delivered j task' hj

/-- A prompt that runs is the one that steers go to. -/
theorem target_of_running (h : SteersKept s) (hk : s.tasks[k]? = some task)
    (hstage : task.stage = .running) : s.session.steerTx = some k := by
  rw [h.target, List.getElem?_map, hk]
  exact congrArg some hstage

theorem not_target (h : SteersKept s) (hk : s.tasks[k]? = some task)
    (hstage : task.stage ≠ .running) : s.session.steerTx ≠ some k := by
  intro hk'
  rw [h.target, List.getElem?_map, hk] at hk'
  exact hstage (Option.some_inj.mp hk')

theorem advance (h : SteersKept s) (hk : s.tasks[k]? = some task) (hstage : task.stage = .running)
    (hstep : TurnStep cfg task.turn e t) (hintime : InTime cfg s (.turn k e)) :
    SteersKept (s.advance cfg k task e t) := by
  obtain ⟨hends, hseats⟩ := hintime task hk
  obtain ⟨haccounted, hemptied, hcarried⟩ := h.delivered k task hk
  have htarget := h.target_of_running hk hstage
  have hqueued := hstep.queued
  have hafter : Task.Delivered (s.acknowledgedTexts k)
      { task with turn := t, drains := task.drains ++ System.drained cfg e task.turn } := by
    constructor
    case accounted =>
      dsimp only
      rw [haccounted, ← hqueued, List.flatten_append, List.append_assoc]
    case emptied =>
      intro stop hdone hstop
      rw [hends (hstep.ends hdone hstop)] at hqueued
      exact (List.append_eq_nil_iff.mp hqueued).2
    case carried => exact hcarried.step hstep hseats
  exact h.set hk hafter h.busy (iff_of_true htarget hstage) fun _ _ => Iff.rfl

theorem release (h : SteersKept s) (hk : s.tasks[k]? = some task) (hstage : task.stage = .running) :
    SteersKept (s.release k task) := by
  have htarget := h.target_of_running hk hstage
  have hdelivered := h.delivered k task hk
  have hafter : Task.Delivered (s.acknowledgedTexts k) { task with stage := .released } :=
    ⟨hdelivered.accounted, hdelivered.emptied, hdelivered.carried⟩
  apply h.set hk hafter rfl
  · constructor
    · intro h'
      cases h'
    · intro h'
      cases h'
  · intro j hj
    constructor
    · intro h'
      cases h'
    · intro h'
      rw [htarget] at h'
      exact absurd (Option.some_inj.mp h').symm hj

/-- A prompt that does not run goes on to its next stage. -/
theorem restage {session : Session} {wire : List UsageUpdate} (h : SteersKept s)
    (hk : s.tasks[k]? = some task) (hstage : task.stage ≠ .running) (hstage' : stage ≠ .running)
    (hbusy : session.busy = s.session.busy) (hsteerTx : session.steerTx = s.session.steerTx) :
    SteersKept { s with session, tasks := s.tasks.set k { task with stage }, wire } := by
  have hdelivered := h.delivered k task hk
  have hafter : Task.Delivered (s.acknowledgedTexts k) { task with stage } :=
    ⟨hdelivered.accounted, hdelivered.emptied, hdelivered.carried⟩
  apply h.set hk hafter
  · rw [hbusy, hsteerTx, h.busy]
  · rw [hsteerTx]
    exact iff_of_false (h.not_target hk hstage) hstage'
  · intro j _
    rw [hsteerTx]

/-- What a step that is in time keeps. -/
theorem step (h : SteersKept s) (hstep : Step cfg s e s') (hintime : InTime cfg s e) :
    SteersKept s' := by
  cases hstep with
  | prompt => exact h.prompt _ _
  | steer => exact h.steerSession hintime
  | cancel => exact h.cancelSession
  | setModel => exact h.setModel _
  | turn hk hstage hturn => exact h.advance hk hstage hturn hintime
  | release hk hstage => exact h.release hk hstage
  | merge hk hstage =>
    have hreleased : ∀ stage, stage = Stage.released → stage ≠ .running := by
      intro stage h h'
      rw [h] at h'
      cases h'
    rw [System.merge]
    split
    · exact h.restage hk (hreleased _ hstage) (by intro h'; cases h') rfl rfl
    · exact h.restage hk (hreleased _ hstage) (by intro h'; cases h') rfl rfl
  | sendUpdate hk hstage =>
    apply h.restage hk _ (by intro h'; cases h') rfl rfl
    intro h'
    rw [hstage] at h'
    cases h'

end SteersKept

/-- In a session whose steers come in time, a prompt that ends without a cancel or an error has put
each of its steers into a request, and a steer that comes after it is not answered ok. -/
theorem steers_delivered {cfg : Config}
    (h : Run (fun s e s' => Step cfg s e s' ∧ InTime cfg s e) System.init events s) :
    (∀ (k : Nat) (task : Task) (stop : StopReason), s.tasks[k]? = some task →
      task.turn.phase = .done (.ok stop) → stop ≠ .cancelled →
        s.acknowledgedTexts k = task.drains.flatten ∧
          ∀ texts ∈ task.drains, Carries task.turn.requests texts) ∧
    ∀ expectedRunId blocks, (s.steerSession expectedRunId blocks).1 = true →
      ∃ k task, s.session.steerTx = some k ∧ s.tasks[k]? = some task ∧ task.stage = .running := by
  have hkept : SteersKept s := by
    induction h with
    | nil => exact .init
    | snoc _ hstep ih => exact ih.step hstep.1 hstep.2
  constructor
  · intro k task stop hk hdone hstop
    obtain ⟨haccounted, hemptied, hcarried⟩ := hkept.delivered k task hk
    rw [hemptied stop hdone hstop, List.append_nil] at haccounted
    refine ⟨haccounted, ?_⟩
    rw [Carried, hdone] at hcarried
    cases stop with
    | cancelled => exact absurd rfl hstop
    | _ => exact hcarried
  · intro expectedRunId blocks hok
    rw [System.steerSession] at hok
    split at hok
    · cases hok
    · split at hok
      · split at hok
        · rename_i k hk
          have hrunning := (hkept.target k).mp hk
          rw [List.getElem?_map, Option.map_eq_some_iff] at hrunning
          obtain ⟨task, htask, hstage⟩ := hrunning
          exact ⟨k, task, hk, htask, hstage⟩
        · cases hok
      · cases hok

/-- A steer that is there at the first round boundary. -/
theorem steers_delivered_first : ∃ s task,
    Run (fun s e s' => Step plainConfig s e s' ∧ InTime plainConfig s e) System.init
      [.prompt "run" [.text "hi"], .steer "run" [.text "wait"], .turn 0 .boundary,
        .turn 0 (.completed (.ok (answer 100)))] s ∧
    s.tasks[0]? = some task ∧ task.turn.phase = .done (.ok .endTurn) ∧
    s.acknowledgedTexts 0 = ["wait"] ∧ s.acknowledgedTexts 0 = task.drains.flatten ∧
      ∀ texts ∈ task.drains, Carries task.turn.requests texts := by
  have hrun : ∃ s task, Run (fun s e s' => Step plainConfig s e s' ∧ InTime plainConfig s e)
      System.init [.prompt "run" [.text "hi"], .steer "run" [.text "wait"], .turn 0 .boundary,
        .turn 0 (.completed (.ok (answer 100)))] s ∧
      s.tasks[0]? = some task ∧ task.turn.phase = .done (.ok .endTurn) ∧
      s.acknowledgedTexts 0 = ["wait"] := by
    refine ⟨_, _, (((Run.nil.snoc ⟨.prompt, trivial⟩).snoc ⟨.steer, ?steered⟩).snoc
      ⟨.turn (k := 0) rfl rfl (.boundary rfl), ?taken⟩).snoc
      ⟨.turn (k := 0) rfl rfl (.completed rfl rfl), ?answered⟩, rfl, rfl, rfl⟩
    case steered =>
      intro _ _ k task stop hk htask hdone
      cases hk
      cases htask
      cases hdone
    case taken =>
      intro task htask
      cases htask
      constructor
      · intro hends
        exact absurd hends.1 (lt_irrefl _)
      · intro _ _
        exact .inl (le_refl _)
    case answered =>
      intro task htask
      cases htask
      exact ⟨fun _ => rfl, trivial⟩
  obtain ⟨s, task, hrun, htask, hdone, hacknowledged⟩ := hrun
  have hdelivered := (steers_delivered hrun).1 0 task .endTurn htask hdone (by intro h; cases h)
  exact ⟨s, task, hrun, htask, hdone, hacknowledged, hdelivered⟩

/-- A steer that comes while the last response is awaited is answered ok, and no more. -/
theorem steers_lost : ∃ events s task, Run (Step plainConfig) System.init events s ∧
    s.tasks[0]? = some task ∧ task.turn.phase = .done (.ok .endTurn) ∧
    s.acknowledgedTexts 0 = ["wait"] ∧
    (∀ request ∈ task.turn.requests, .user "wait" ∉ request) ∧ .user "wait" ∉ s.session.history := by
  refine ⟨[.prompt "run" [.text "hi"], .turn 0 .boundary, .steer "run" [.text "wait"],
      .turn 0 (.completed (.ok (answer 100))), .release 0], _, _,
    ((((Run.nil.snoc .prompt).snoc (.turn (k := 0) rfl rfl (.boundary rfl))).snoc .steer).snoc
      (.turn (k := 0) rfl rfl (.completed rfl rfl))).snoc (.release (k := 0) rfl rfl rfl),
    rfl, rfl, rfl, ?_, ?_⟩
  · intro request hrequest
    cases List.mem_singleton.mp hrequest
    intro h
    have htext : "wait" = "hi" := HistoryItem.user.inj (List.mem_singleton.mp h)
    exact absurd htext (by decide)
  · intro h
    rcases List.mem_pair.mp h with h | h
    · have htext : "wait" = "hi" := HistoryItem.user.inj h
      exact absurd htext (by decide)
    · cases h

end Buzz.Agent
