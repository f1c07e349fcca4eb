import Buzz.Acp.DeadLetter
import Buzz.Lib.ListAt

namespace Buzz
set_option autoImplicit true

/-- The moves at which a batch of the channel fails. -/
def DispatchMove.fails : DispatchMove → Bool
  | .failure _ _ _ => true
  | _ => false

/-- The batch that a failed turn hands back. -/
def DispatchMove.failed : DispatchMove → Option FlushBatch
  | .failure _ _ batch => some batch
  | _ => none

/-- A turn of the channel ends only for a batch that is out, and only by a failure or because the
pool is exhausted. -/
def DispatchMove.Allowed (channelId : Uuid) (running : List FlushBatch) : DispatchMove → Prop
  | .call op => op.endsTurn channelId = false
  | .failure _ _ batch => batch ∈ running
  | .poolExhausted _ batch => batch ∈ running

def DispatchMove.runningAfter (channelId : Uuid) (q : EventQueue) (running : List FlushBatch) :
    DispatchMove → List FlushBatch
  | .call op =>
    running ++ ((q.apply op).2.flushed.filter fun batch => batch.channelId == channelId).toList
  | .failure _ _ batch => running.erase batch
  | .poolExhausted _ batch => running.erase batch

/-- A move on the tables, in the order of iteration in which it finds them. -/
structure Dispatched where
  tables : EventQueue
  move : DispatchMove

def Dispatched.deadLettered (a : Dispatched) : Option FlushBatch :=
  (a.tables.perform a.move).2

def failures (moves : List Dispatched) : Nat :=
  moves.countP fun a => a.move.fails

/-- The queue, with the batches of one channel that are out. -/
structure RetrySession where
  queue : EventQueue
  running : List FlushBatch

def RetrySession.new (dedupMode : DedupMode) : RetrySession :=
  ⟨.new dedupMode, []⟩

namespace RetrySession

def play (s : RetrySession) (channelId : Uuid) (a : Dispatched) : RetrySession :=
  ⟨(a.tables.perform a.move).1, a.move.runningAfter channelId a.tables s.running⟩

def Step (channelId : Uuid) (s : RetrySession) (a : Dispatched) (t : RetrySession) : Prop :=
  s.queue.Reordered a.tables ∧ a.move.Allowed channelId s.running ∧ t = s.play channelId a

end RetrySession

/-- The failure after the last retry is dead-lettered, and none before it. -/
def DeadLetteredOnTime (moves : List Dispatched) : Prop :=
  ∀ before a after, moves = before ++ a :: after → a.move.fails = true →
    (failures before < MAX_RETRIES → a.deadLettered = none) ∧
    (failures before = MAX_RETRIES → a.deadLettered = a.move.failed)

/-- From the first failure to the one after the last retry, no move takes the retry counter away. -/
def KeepsCount (channelId : Uuid) (moves : List Dispatched) : Prop :=
  ∀ before a after, moves = before ++ a :: after → 0 < failures before →
    failures before ≤ MAX_RETRIES → a.tables.forgets channelId a.move = false

theorem KeepsCount.earlier (h : KeepsCount c (moves ++ more)) : KeepsCount c moves := by
  intro before a after hsplit
  apply h before a (after ++ more)
  rw [hsplit, List.append_assoc, List.cons_append]

theorem failures_append (moves more : List Dispatched) :
    failures (moves ++ more) = failures moves + failures more :=
  List.countP_append

theorem failures_snoc (moves : List Dispatched) (a : Dispatched) :
    failures (moves ++ [a]) = failures moves + if a.move.fails then 1 else 0 := by
  rw [failures_append, failures, failures, List.countP_singleton]

namespace RetrySession

variable {c : Uuid} {s t : RetrySession}

/-- The batches that are out are the channel's. -/
def OnChannel (c : Uuid) (s : RetrySession) : Prop :=
  ∀ b ∈ s.running, b.channelId = c

theorem OnChannel.step (h : s.OnChannel c) (hstep : Step c s a t) : t.OnChannel c := by
  obtain ⟨_, _, rfl⟩ := hstep
  intro b hb
  rw [play] at hb
  cases hmove : a.move with
  | call op =>
    rw [hmove] at hb
    rcases List.mem_append.mp hb with hold | hnew
    · exact h b hold
    · have hflushed := Option.mem_toList.mp hnew
      rw [Option.filter_eq_some_iff] at hflushed
      exact eq_of_beq hflushed.2
  | failure now jitter b' =>
    rw [hmove] at hb
    exact h b (List.mem_of_mem_erase hb)
  | poolExhausted now b' =>
    rw [hmove] at hb
    exact h b (List.mem_of_mem_erase hb)

theorem OnChannel.run (h : s.OnChannel c) (hrun : Run (Step c) s moves t) : t.OnChannel c := by
  induction hrun with
  | nil => exact h
  | snoc _ hstep ih => exact ih.step hstep

/-- A move that is no failure keeps the retry counter or takes it away. -/
theorem Step.retryCount (h : s.OnChannel c) (hstep : Step c s a t) (ha : a.move.fails = false) :
    t.queue.retryCount c =
      if a.tables.forgets c a.move then 0 else s.queue.retryCount c := by
  obtain ⟨hr, hallowed, rfl⟩ := hstep
  rw [play, ← hr.retryCount]
  cases hmove : a.move with
  | call op =>
    rw [hmove] at hallowed
    exact a.tables.retryCount_apply op hallowed
  | failure now jitter b =>
    rw [hmove] at ha
    cases ha
  | poolExhausted now b =>
    rw [hmove] at hallowed
    have hb := a.tables.perform_poolExhausted now b
    rw [h b hallowed] at hb
    exact hb

/-- A failure within the retries. -/
theorem Step.failure (h : s.OnChannel c) (hstep : Step c s a t) (ha : a.move.fails = true)
    (hfew : s.queue.retryCount c < MAX_RETRIES) :
    t.queue.retryCount c = s.queue.retryCount c + 1 ∧ a.deadLettered = none := by
  obtain ⟨hr, hallowed, rfl⟩ := hstep
  rw [play, Dispatched.deadLettered]
  rw [← hr.retryCount] at hfew ⊢
  cases hmove : a.move with
  | call op =>
    rw [hmove] at ha
    cases ha
  | failure now jitter b =>
    rw [hmove] at hallowed
    have hb := h b hallowed
    have hperform := a.tables.perform_failure now jitter b
    rw [hb] at hperform
    exact hperform hfew
  | poolExhausted now b =>
    rw [hmove] at ha
    cases ha

/-- The failure after the last retry. -/
theorem Step.failure_last (h : s.OnChannel c) (hstep : Step c s a t) (ha : a.move.fails = true)
    (hmany : MAX_RETRIES ≤ s.queue.retryCount c) :
    t.queue.retryCount c = 0 ∧ a.deadLettered = a.move.failed := by
  obtain ⟨hr, hallowed, rfl⟩ := hstep
  rw [play, Dispatched.deadLettered]
  rw [← hr.retryCount] at hmany
  cases hmove : a.move with
  | call op =>
    rw [hmove] at ha
    cases ha
  | failure now jitter b =>
    rw [hmove] at hallowed
    have hb := h b hallowed
    have hperform := a.tables.perform_failure_last now jitter b
    rw [hb] at hperform
    exact hperform hmany
  | poolExhausted now b =>
    rw [hmove] at ha
    cases ha

/-- The retry counter grows by the failures at most. -/
theorem retryCount_le (h : s.OnChannel c) (hrun : Run (Step c) s moves t) :
    t.queue.retryCount c ≤ s.queue.retryCount c + failures moves := by
  induction hrun with
  | nil => exact Nat.le_add_right _ _
  | @snoc moves t u a hprev hstep ih =>
    have ht := h.run hprev
    rw [failures_snoc]
    cases ha : a.move.fails with
    | false =>
      rw [hstep.retryCount ht ha]
      split
      · exact Nat.zero_le _
      · exact ih
    | true =>
      by_cases hfew : t.queue.retryCount c < MAX_RETRIES
      · rw [(hstep.failure ht ha hfew).1]
        exact Nat.add_le_add_right ih 1
      · rw [(hstep.failure_last ht ha (Nat.le_of_not_lt hfew)).1]
        exact Nat.zero_le _

/-- While nothing takes it away, the retry counter is the number of failures. -/
theorem retryCount_eq (h : s.OnChannel c) (hstart : s.queue.retryCount c = 0)
    (hrun : Run (Step c) s moves t) (hkeeps : KeepsCount c moves)
    (hfew : failures moves ≤ MAX_RETRIES) : t.queue.retryCount c = failures moves := by
  induction hrun with
  | nil => exact hstart
  | @snoc moves t u a hprev hstep ih =>
    have ht := h.run hprev
    rw [failures_snoc] at hfew ⊢
    have hcount := ih hkeeps.earlier (Nat.le_of_add_right_le hfew)
    cases ha : a.move.fails with
    | false =>
      rw [hstep.retryCount ht ha, hcount]
      split
      · rename_i hforgets
        -- the counter is taken away before the first failure only
        by_contra hne
        have hpos : 0 < failures moves := Nat.pos_of_ne_zero (Ne.symm hne)
        have hkept := hkeeps moves a [] rfl hpos (Nat.le_of_add_right_le hfew)
        rw [hforgets] at hkept
        cases hkept
      · rfl
    | true =>
      rw [ha] at hfew
      rw [(hstep.failure ht ha (by rw [hcount]; exact hfew)).1, hcount]
      rfl

/-- A run of the channel meets its failures at the counter that it has kept. -/
theorem deadLettered_of_keepsCount (h : s.OnChannel c) (hstart : s.queue.retryCount c = 0)
    (hrun : Run (Step c) s moves t) (hkeeps : MAX_RETRIES < failures moves → KeepsCount c moves) :
    DeadLetteredOnTime moves := by
  rintro before a after rfl ha
  obtain ⟨s₁, s₂, hbefore, hstep, _⟩ := hrun.split
  have hs₁ := h.run hbefore
  refine ⟨?_, ?_⟩
  · intro hfew
    have hle := retryCount_le h hbefore
    rw [hstart, Nat.zero_add] at hle
    exact (hstep.failure hs₁ ha (hle.trans_lt hfew)).2
  · intro hlast
    have hmany : MAX_RETRIES < failures (before ++ a :: after) := by
      have hone : 0 < failures (a :: after) :=
        List.countP_pos_iff.mpr ⟨a, List.mem_cons_self, ha⟩
      rw [failures_append, hlast]
      exact Nat.lt_add_of_pos_right hone
    have hcount := retryCount_eq h hstart hbefore (hkeeps hmany).earlier hlast.le
    exact (hstep.failure_last hs₁ ha (hcount.trans hlast).ge).2

/-- Once the counter is taken away between two failures the last retry comes too late. -/
theorem keepsCount_of_deadLettered (h : s.OnChannel c) (hrun : Run (Step c) s moves t)
    (hdead : DeadLetteredOnTime moves) (hmany : MAX_RETRIES < failures moves) :
    KeepsCount c moves := by
  rintro before a after rfl hpos hle
  by_contra hforgets
  rw [Bool.not_eq_false] at hforgets
  have ha : a.move.fails = false := by
    cases hmove : a.move with
    | failure now jitter b =>
      rw [hmove] at hforgets
      cases hforgets
    | _ => rfl
  have hafter : failures (before ++ [a]) = failures before := by
    rw [failures_snoc, ha]
    rfl
  rw [List.append_cons, failures_append, hafter] at hmany
  obtain ⟨mid, b, rest, rfl, hb, hmid⟩ := ListAt.split_countP
    (show MAX_RETRIES - failures before < failures after by omega)
  have hmidfailures : failures mid = MAX_RETRIES - failures before := hmid
  obtain ⟨s₁, s₂, hbefore, hstep, hrest⟩ := hrun.split
  obtain ⟨s₃, s₄, hmidrun, hstepb, _⟩ := hrest.split
  have hs₂ := (h.run hbefore).step hstep
  have hzero : s₂.queue.retryCount c = 0 := by
    rw [hstep.retryCount (h.run hbefore) ha, hforgets]
    rfl
  -- the counter has seen the failures since then only
  have hfew : s₃.queue.retryCount c < MAX_RETRIES := by
    have hcount := retryCount_le hs₂ hmidrun
    rw [hzero, hmidfailures] at hcount
    omega
  have hnone := (hstepb.failure (hs₂.run hmidrun) hb hfew).2
  have hlast : failures (before ++ a :: mid) = MAX_RETRIES := by
    rw [List.append_cons, failures_append, hafter, hmidfailures]
    omega
  have hsome := (hdead (before ++ a :: mid) b rest (by simp) hb).2 hlast
  rw [hnone] at hsome
  cases hmove : b.move with
  | failure now jitter batch =>
    rw [hmove] at hsome
    cases hsome
  | _ =>
    rw [hmove] at hb
    cases hb

/-- In every run in which the turns of a channel end in failures or because the pool is exhausted,
the failure after the last retry is the first to be dead-lettered, exactly if no exhaustion and no
compaction takes the retry counter away between the first failure and that one. -/
theorem deadLettered_onTime_iff (dedupMode : DedupMode) (channelId : Uuid)
    (moves : List Dispatched) (t : RetrySession)
    (h : Run (Step channelId) (.new dedupMode) moves t) :
    DeadLetteredOnTime moves ↔ (MAX_RETRIES < failures moves → KeepsCount channelId moves) := by
  have hnew : (RetrySession.new dedupMode).OnChannel channelId := fun b hb => nomatch hb
  refine ⟨?_, ?_⟩
  · intro hdead hmany
    exact keepsCount_of_deadLettered hnew h hdead hmany
  · intro hkeeps
    exact deadLettered_of_keepsCount hnew rfl h hkeeps

/-- The session after moves on tables that keep their order. -/
def plays (channelId : Uuid) (s : RetrySession) : List DispatchMove → RetrySession
  | [] => s
  | move :: moves => (s.play channelId ⟨s.queue, move⟩).plays channelId moves

def dispatches (channelId : Uuid) (s : RetrySession) : List DispatchMove → List Dispatched
  | [] => []
  | move :: moves =>
    ⟨s.queue, move⟩ :: (s.play channelId ⟨s.queue, move⟩).dispatches channelId moves

instance (channelId : Uuid) (running : List FlushBatch) (move : DispatchMove) :
    Decidable (move.Allowed channelId running) :=
  match move with
  | .call op => inferInstanceAs (Decidable (op.endsTurn channelId = false))
  | .failure _ _ batch => inferInstanceAs (Decidable (batch ∈ running))
  | .poolExhausted _ batch => inferInstanceAs (Decidable (batch ∈ running))

def legal (channelId : Uuid) (s : RetrySession) : List DispatchMove → Bool
  | [] => true
  | move :: moves =>
    decide (move.Allowed channelId s.running) &&
      (s.play channelId ⟨s.queue, move⟩).legal channelId moves

theorem run_dispatches (c : Uuid) (s : RetrySession) (moves : List DispatchMove)
    (h : s.legal c moves = true) : Run (Step c) s (s.dispatches c moves) (s.plays c moves) := by
  induction moves generalizing s with
  | nil => exact .nil
  | cons move moves ih =>
    rw [legal, Bool.and_eq_true, decide_eq_true_eq] at h
    have hone : Run (Step c) s [⟨s.queue, move⟩] (s.play c ⟨s.queue, move⟩) :=
      .snoc .nil ⟨.refl _, h.1, rfl⟩
    exact hone.append (ih _ h.2)

theorem dispatches_append (c : Uuid) (s : RetrySession) (moves more : List DispatchMove) :
    s.dispatches c (moves ++ more) = s.dispatches c moves ++ (s.plays c moves).dispatches c more := by
  induction moves generalizing s with
  | nil => rfl
  | cons move moves ih => exact congrArg _ (ih _)

namespace PoisonExample

open Session.LossExample

/-- No jitter at all. -/
def steady : Jitter :=
  ⟨fromSecs, fun _ => Nat.mul_le_mul_right _ (by decide), fun _ => Nat.mul_le_mul_right _ (by decide)⟩

/-- Each turn starts when the longest throttle is over. -/
def start (turn : Nat) : Instant := fromSecs (400 * turn)

def failedTurn (turn : Nat) : List DispatchMove :=
  [.call (.flushNext (start turn)), .failure (start turn + 1) steady first]

def turnedAway (turn : Nat) : List DispatchMove :=
  [.call (.flushNext (start turn)), .poolExhausted (start turn) first]

/-- A failure, an exhausted pool and nine more failures. -/
def postponed : List DispatchMove :=
  .call (.push (message 1)) :: failedTurn 1 ++ turnedAway 2 ++
    (List.range' 3 9).flatMap failedTurn

/-- Eleven failures. -/
def poisoned : List DispatchMove :=
  .call (.push (message 1)) :: (List.range' 1 11).flatMap failedTurn

end PoisonExample

open Session.LossExample PoisonExample

/-- The eleventh failure is retried, since the pool was exhausted after the first one. -/
theorem deadLetter_postponed :
    ¬∀ (dedupMode : DedupMode) (channelId : Uuid) (moves : List Dispatched) (t : RetrySession),
      Run (Step channelId) (.new dedupMode) moves t → DeadLetteredOnTime moves := by
  intro h
  have hlegal : (RetrySession.new .queue).legal channel (postponed ++ failedTurn 12) = true := by
    decide +kernel
  have hdead := h .queue channel _ _ (run_dispatches _ _ _ hlegal)
  rw [failedTurn, List.append_cons, dispatches_append] at hdead
  have hten : failures ((RetrySession.new .queue).dispatches channel
      (postponed ++ [.call (.flushNext (start 12))])) = MAX_RETRIES := by
    decide +kernel
  have hlast := (hdead _ _ [] rfl rfl).2 hten
  have hnone : (Dispatched.mk ((RetrySession.new .queue).plays channel
      (postponed ++ [.call (.flushNext (start 12))])).queue
      (.failure (start 12 + 1) steady first)).deadLettered = none := by
    decide +kernel
  rw [hnone] at hlast
  cases hlast

/-- Eleven failures in a row meet the dead letter on time. -/
theorem deadLettered_onTime_poisoned :
    DeadLetteredOnTime ((RetrySession.new .queue).dispatches channel poisoned) ∧
      failures ((RetrySession.new .queue).dispatches channel poisoned) = MAX_RETRIES + 1 := by
  have hlegal : (RetrySession.new .queue).legal channel poisoned = true := by decide +kernel
  refine ⟨?_, by decide +kernel⟩
  apply (deadLettered_onTime_iff .queue channel _ _ (run_dispatches _ _ _ hlegal)).mpr
  rintro _ before a after hsplit _ _
  have hkept : ∀ a ∈ (RetrySession.new .queue).dispatches channel poisoned,
      a.tables.forgets channel a.move = false := by
    decide +kernel
  apply hkept
  rw [hsplit]
  exact List.mem_append_right _ List.mem_cons_self

end RetrySession

end Buzz
