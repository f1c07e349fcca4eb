import Buzz.Db.WriterTimeline

namespace Buzz.Fence
set_option autoImplicit true

/-- A scan of the activity and of the prepared transactions, which sees each transaction at a
moment of its own. -/
structure Scan where
  sampledAt : Int
  oldest : Option Int
  due : Nat
  active : List Nat
  prepared : List Nat

def leastOf (oldest : Option Int) (t : Int) : Option Int :=
  some (oldest.elim t (min t))

namespace Scan

def lookActive (scan : Scan) (k : Nat) (tx : Transaction) : Scan where
  sampledAt := scan.sampledAt
  oldest := match tx.stage with
    | .running => leastOf scan.oldest tx.xactStart
    | .committing _ => leastOf scan.oldest tx.xactStart
    | .prepared _ => scan.oldest
    | .finished => scan.oldest
  due := scan.due
  active := k :: scan.active
  prepared := scan.prepared

def lookPrepared (scan : Scan) (k : Nat) (tx : Transaction) : Scan where
  sampledAt := scan.sampledAt
  oldest := match tx.stage with
    | .prepared preparedAt => leastOf scan.oldest preparedAt
    | .running => scan.oldest
    | .committing _ => scan.oldest
    | .finished => scan.oldest
  due := scan.due
  active := scan.active
  prepared := k :: scan.prepared

/-- Each transaction that had started before the scan was looked at in both views. -/
def complete (scan : Scan) : Prop :=
  ∀ k < scan.due, k ∈ scan.active ∧ k ∈ scan.prepared

end Scan

/-- How far a probe of a pod has got. -/
inductive ProbePhase where
  | idle
  | clocked (sampledAt : Int)
  | scanning (scan : Scan)
  | sampled (sample : WriterSample)
  | rotating (wall : Int)
  | rotated (token : Int) (epoch : Uuid) (committedAt : Nat) (wall : Int)

structure Pod where
  fence : ReplicaFence
  phase : ProbePhase

inductive ProbeEvent where
  | readClock
  | beginScan
  | lookActive (k : Nat)
  | lookPrepared (k : Nat)
  | commitToken
  | record
  | rotate
  | recordRotated
  | fail

def Pod.record (pod : Pod) (sample : WriterSample) : Pod :=
  let wall := fenceWall sample.sampledAt sample.oldestXactStart
  match pod.fence.record sample.token sample.epoch sample.committedAt wall with
  | (fence, .recorded) => ⟨fence, .idle⟩
  | (fence, .tokenRegression) => ⟨fence, .rotating wall⟩

/-- The steps of a probe, with the heartbeat that it commits on the writer. -/
inductive ProbeStep (w : Writer) (pod : Pod) : ProbeEvent → Writer → Pod → Prop where
  | readClock (hphase : pod.phase = .idle) :
      ProbeStep w pod .readClock w { pod with phase := .clocked w.clock }
  | beginScan (hphase : pod.phase = .clocked sampledAt) : ProbeStep w pod .beginScan w
      { pod with phase := .scanning ⟨sampledAt, none, w.transactions.length, [], []⟩ }
  | lookActive (hphase : pod.phase = .scanning scan) (hk : w.transactions[k]? = some tx) :
      ProbeStep w pod (.lookActive k) w { pod with phase := .scanning (scan.lookActive k tx) }
  | lookPrepared (hphase : pod.phase = .scanning scan) (hk : w.transactions[k]? = some tx) :
      ProbeStep w pod (.lookPrepared k) w { pod with phase := .scanning (scan.lookPrepared k tx) }
  | commitToken (hphase : pod.phase = .scanning scan) (hcomplete : scan.complete)
      (hlast : lastHeartbeat w.log = some (token, epoch)) :
      ProbeStep w pod .commitToken (w.bump (token + 1) epoch)
        { pod with
          phase := .sampled ⟨scan.sampledAt, scan.oldest, token + 1, epoch, committedAt⟩ }
  | record (hphase : pod.phase = .sampled sample) :
      ProbeStep w pod .record w (pod.record sample)
  | rotate (hphase : pod.phase = .rotating wall)
      (hlast : lastHeartbeat w.log = some (token, epoch)) :
      ProbeStep w pod .rotate (w.bump (token + 1) epoch')
        { pod with phase := .rotated (token + 1) epoch' committedAt wall }
  | recordRotated (hphase : pod.phase = .rotated token epoch committedAt wall) :
      ProbeStep w pod .recordRotated w ⟨(pod.fence.record token epoch committedAt wall).1, .idle⟩
  | fail : ProbeStep w pod .fail w ⟨pod.fence.close, .idle⟩

/-- One writer and any number of pods. -/
structure Deployment where
  writer : Writer
  pods : Nat → Pod

def Deployment.init (clock : Int) (epoch : Uuid) : Deployment :=
  ⟨⟨clock, [], [.heartbeat 0 epoch]⟩, fun _ => ⟨.new, .idle⟩⟩

inductive Event where
  | writer (e : WriterEvent)
  | probe (p : Nat) (e : ProbeEvent)

inductive Step (d : Deployment) : Event → Deployment → Prop where
  | writer (h : WriterStep d.writer e w) : Step d (.writer e) { d with writer := w }
  | probe (h : ProbeStep d.writer (d.pods p) e w pod) :
      Step d (.probe p e) ⟨w, Function.update d.pods p pod⟩

/-- No transaction can commit a channel row that is not above the wall any more. -/
structure Cleared (wall : Int) (w : Writer) : Prop where
  clock : wall < w.clock - CREATED_AT_FLOOR_SECS * SECOND
  guarded : ∀ tx ∈ w.transactions, tx.stage.guardedAt.isSome → ∀ row ∈ tx.rows,
    row.channelId.isSome → wall < row.createdAt

/-- A heartbeat with a token, after which no channel row is committed that is not above the wall. -/
structure Fenced (wall token : Int) (w : Writer) : Prop where
  cleared : Cleared wall w
  after : ∃ (k : Nat) (epoch : Uuid), w.log[k]? = some (.heartbeat token epoch) ∧
    ∀ (i : Nat) rows, k < i → w.log[i]? = some (.rows rows) → ∀ row ∈ rows, row.channelId.isSome →
      wall < row.createdAt

theorem lt_createdAt_of_guard {row : WindowRow} (hguard : createdAtFloorGuard now row = true)
    (hwall : wall < now - CREATED_AT_FLOOR_SECS * SECOND) (hchannel : row.channelId.isSome) :
    wall < row.createdAt := by
  rw [createdAtFloorGuard, Bool.or_eq_true, Option.isNone_iff_eq_none, decide_eq_true_iff] at hguard
  rcases hguard with hnone | hle
  · rw [hnone] at hchannel
    cases hchannel
  · exact lt_of_lt_of_le hwall hle

theorem Cleared.grows (h : Cleared wall w) (hgrows : Grows w w') : Cleared wall w' where
  clock := lt_of_lt_of_le h.clock (Int.sub_le_sub_right hgrows.clock_le _)
  guarded tx' htx' hsome row hrow hchannel := by
    obtain ⟨k, hk⟩ := List.mem_iff_getElem?.mp htx'
    obtain ⟨t, ht⟩ := Option.isSome_iff_exists.mp hsome
    rcases hgrows.guarded k tx' hk t ht with ⟨tx, hold, hstage, hrows⟩ | ⟨hle, hguard⟩
    · rw [← hstage] at hsome
      rw [← hrows] at hrow
      exact h.guarded tx (List.mem_of_getElem? hold) hsome row hrow hchannel
    · have hclock := h.clock
      exact lt_createdAt_of_guard (hguard row hrow) (by omega) hchannel

/-- What a step commits is above the wall. -/
theorem Fenced.grows (h : Fenced wall token w) (hgrows : Grows w w') : Fenced wall token w' where
  cleared := h.cleared.grows hgrows
  after := by
    obtain ⟨k, epoch, hk, hafter⟩ := h.after
    obtain ⟨more, hlog, hmore⟩ := hgrows.log
    refine ⟨k, epoch, ?_, ?_⟩
    · rw [hlog, List.getElem?_append_left (List.getElem?_eq_some_iff.mp hk).1]
      exact hk
    · intro i rows hki hi row hrow hchannel
      rw [hlog, List.getElem?_append] at hi
      split at hi
      · exact hafter i rows hki hi row hrow hchannel
      · obtain ⟨tx, htx, hsome, rfl⟩ := hmore rows (List.mem_of_getElem? hi)
        exact h.cleared.guarded tx htx hsome row hrow hchannel

/-- A heartbeat under a wall that is cleared. -/
theorem Cleared.bump (h : Cleared wall w) (token : Int) (epoch : Uuid) :
    Fenced wall token (w.bump token epoch) where
  cleared := h.grows (.bump w token epoch)
  after := by
    refine ⟨w.log.length, epoch, ?_, ?_⟩
    · rw [Writer.bump, List.getElem?_concat_length]
    · intro i rows hi hrows
      have hlt := (List.getElem?_eq_some_iff.mp hrows).1
      rw [Writer.bump, List.length_append, List.length_singleton] at hlt
      omega

/-- What a scan is still to find out: a transaction that was guarded before the sample is older
than the scan, and once it was looked at in its own view the scan knows it. -/
structure Scan.Sound (scan : Scan) (w : Writer) : Prop where
  sampledAt_le : scan.sampledAt ≤ w.clock
  committing : ∀ (k : Nat) tx, w.transactions[k]? = some tx → ∀ t, tx.stage = .committing t →
    scan.sampledAt ≤ t ∨ (k < scan.due ∧
      (k ∈ scan.active → ∃ oldest, scan.oldest = some oldest ∧ oldest ≤ t))
  prepared : ∀ (k : Nat) tx, w.transactions[k]? = some tx → ∀ t, tx.stage = .prepared t →
    scan.sampledAt ≤ t ∨ (k < scan.due ∧
      (k ∈ scan.prepared → ∃ oldest, scan.oldest = some oldest ∧ oldest ≤ t))

namespace Scan.Sound

variable {scan : Scan} {w : Writer}

theorem start {sampledAt : Int} (h : sampledAt ≤ w.clock) :
    Scan.Sound ⟨sampledAt, none, w.transactions.length, [], []⟩ w where
  sampledAt_le := h
  committing _ _ hk _ _ := .inr ⟨(List.getElem?_eq_some_iff.mp hk).1, fun h => by cases h⟩
  prepared _ _ hk _ _ := .inr ⟨(List.getElem?_eq_some_iff.mp hk).1, fun h => by cases h⟩

theorem grows (h : scan.Sound w) (hgrows : Grows w w') : scan.Sound w' where
  sampledAt_le := h.sampledAt_le.trans hgrows.clock_le
  committing k tx' hk t ht := by
    rcases hgrows.guarded k tx' hk t (by rw [ht]; rfl) with ⟨tx, hold, hstage, _⟩ | ⟨hle, _⟩
    · exact h.committing k tx hold t (hstage.trans ht)
    · exact .inl (h.sampledAt_le.trans hle)
  prepared k tx' hk t ht := by
    rcases hgrows.guarded k tx' hk t (by rw [ht]; rfl) with ⟨tx, hold, hstage, _⟩ | ⟨hle, _⟩
    · exact h.prepared k tx hold t (hstage.trans ht)
    · exact .inl (h.sampledAt_le.trans hle)

theorem leastOf_le (oldest : Option Int) (t : Int) : ∃ o, leastOf oldest t = some o ∧ o ≤ t := by
  cases oldest with
  | none => exact ⟨t, rfl, le_refl _⟩
  | some o => exact ⟨min t o, rfl, min_le_left _ _⟩

theorem leastOf_le_of_le {oldest : Option Int} (h : ∃ o, oldest = some o ∧ o ≤ u) (t : Int) :
    ∃ o, leastOf oldest t = some o ∧ o ≤ u := by
  obtain ⟨o, rfl, hle⟩ := h
  exact ⟨min t o, rfl, (min_le_right _ _).trans hle⟩

theorem oldest_lookActive (scan : Scan) (k : Nat) (tx : Transaction)
    (h : ∃ o, scan.oldest = some o ∧ o ≤ u) :
    ∃ o, (scan.lookActive k tx).oldest = some o ∧ o ≤ u := by
  rw [lookActive]
  dsimp only
  split
  · exact leastOf_le_of_le h _
  · exact leastOf_le_of_le h _
  · exact h
  · exact h

theorem oldest_lookPrepared (scan : Scan) (k : Nat) (tx : Transaction)
    (h : ∃ o, scan.oldest = some o ∧ o ≤ u) :
    ∃ o, (scan.lookPrepared k tx).oldest = some o ∧ o ≤ u := by
  rw [lookPrepared]
  dsimp only
  split
  · exact leastOf_le_of_le h _
  · exact h
  · exact h
  · exact h

theorem lookActive (h : scan.Sound w) (hsound : w.Sound) (hk : w.transactions[k]? = some tx) :
    (scan.lookActive k tx).Sound w where
  sampledAt_le := h.sampledAt_le
  committing j tx' hj t ht := by
    rcases h.committing j tx' hj t ht with hle | ⟨hdue, hseen⟩
    · exact .inl hle
    · refine .inr ⟨hdue, fun hmem => ?_⟩
      rcases List.mem_cons.mp hmem with rfl | hmem
      · cases hk.symm.trans hj
        obtain ⟨o, ho, hle⟩ := leastOf_le scan.oldest tx.xactStart
        have hstart := (hsound.guarded tx (List.mem_of_getElem? hk) t (by rw [ht]; rfl)).1
        refine ⟨o, ?_, hle.trans hstart⟩
        rw [Scan.lookActive, ht]
        exact ho
      · exact oldest_lookActive scan k tx (hseen hmem)
  prepared j tx' hj t ht := by
    rcases h.prepared j tx' hj t ht with hle | ⟨hdue, hseen⟩
    · exact .inl hle
    · exact .inr ⟨hdue, fun hmem => oldest_lookActive scan k tx (hseen hmem)⟩

theorem lookPrepared (h : scan.Sound w) (hk : w.transactions[k]? = some tx) :
    (scan.lookPrepared k tx).Sound w where
  sampledAt_le := h.sampledAt_le
  committing j tx' hj t ht := by
    rcases h.committing j tx' hj t ht with hle | ⟨hdue, hseen⟩
    · exact .inl hle
    · exact .inr ⟨hdue, fun hmem => oldest_lookPrepared scan k tx (hseen hmem)⟩
  prepared j tx' hj t ht := by
    rcases h.prepared j tx' hj t ht with hle | ⟨hdue, hseen⟩
    · exact .inl hle
    · refine .inr ⟨hdue, fun hmem => ?_⟩
      rcases List.mem_cons.mp hmem with rfl | hmem
      · cases hk.symm.trans hj
        obtain ⟨o, ho, hle⟩ := leastOf_le scan.oldest t
        refine ⟨o, ?_, hle⟩
        rw [Scan.lookPrepared, ht]
        exact ho
      · exact oldest_lookPrepared scan k tx (hseen hmem)

/-- The three kinds of transactions: guarded before the sample and still active, guarded before the
sample and prepared, and not guarded yet. -/
theorem cleared (h : scan.Sound w) (hsound : w.Sound) (hcomplete : scan.complete) :
    Cleared (fenceWall scan.sampledAt scan.oldest) w where
  clock := by
    have hle := h.sampledAt_le
    have hlt := fenceWall_lt scan.sampledAt scan.oldest
    omega
  guarded tx htx hsome row hrow hchannel := by
    obtain ⟨k, hk⟩ := List.mem_iff_getElem?.mp htx
    obtain ⟨t, ht⟩ := Option.isSome_iff_exists.mp hsome
    have hguard := (hsound.guarded tx htx t ht).2 row hrow
    have hknown : scan.sampledAt ≤ t ∨ ∃ oldest, scan.oldest = some oldest ∧ oldest ≤ t := by
      cases hstage : tx.stage with
      | running =>
        rw [hstage] at ht
        cases ht
      | finished =>
        rw [hstage] at ht
        cases ht
      | committing u =>
        rw [hstage] at ht
        cases ht
        rcases h.committing k tx hk t hstage with hle | ⟨hdue, hseen⟩
        · exact .inl hle
        · exact .inr (hseen (hcomplete k hdue).1)
      | prepared u =>
        rw [hstage] at ht
        cases ht
        rcases h.prepared k tx hk t hstage with hle | ⟨hdue, hseen⟩
        · exact .inl hle
        · exact .inr (hseen (hcomplete k hdue).2)
    apply lt_createdAt_of_guard hguard _ hchannel
    rcases hknown with hle | ⟨oldest, hoc, hle⟩
    · have hlt := fenceWall_lt scan.sampledAt scan.oldest
      omega
    · have hlt := fenceWall_lt_of_mem scan.sampledAt hoc
      omega

end Scan.Sound

end Buzz.Fence
