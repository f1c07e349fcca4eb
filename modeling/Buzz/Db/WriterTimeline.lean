import Buzz.Db.ReplicaFence

namespace Buzz.Fence
set_option autoImplicit true

/-- What the guard reads of a row of `events`. -/
structure WindowRow where
  id : Nat
  channelId : Option Uuid
  createdAt : Int

/-- The deferred guard: no channel row that is older than the floor. -/
def createdAtFloorGuard (now : Int) (row : WindowRow) : Bool :=
  row.channelId.isNone || now - CREATED_AT_FLOOR_SECS * SECOND ≤ row.createdAt

/-- A transaction is visible as active until it is committed, also while its commit is processed,
and as prepared after that. -/
inductive Stage where
  | running
  | committing (guardedAt : Int)
  | prepared (preparedAt : Int)
  | finished

/-- The moment at which the guard let the transaction through. -/
def Stage.guardedAt : Stage → Option Int
  | committing t => some t
  | prepared t => some t
  | running => none
  | finished => none

structure Transaction where
  xactStart : Int
  rows : List WindowRow
  stage : Stage

inductive Commit where
  | rows (rows : List WindowRow)
  | heartbeat (token : Int) (epoch : Uuid)

def Commit.heartbeat? : Commit → Option (Int × Uuid)
  | rows _ => none
  | heartbeat token epoch => some (token, epoch)

/-- The row of `replica_heartbeat` after the given commits. -/
def lastHeartbeat (log : List Commit) : Option (Int × Uuid) :=
  (log.filterMap Commit.heartbeat?).getLast?

/-- The clock, the transactions by the order in which they started, and the commits in order. -/
structure Writer where
  clock : Int
  transactions : List Transaction
  log : List Commit

def Writer.setTransaction (w : Writer) (k : Nat) (tx : Transaction) : Writer :=
  { w with transactions := w.transactions.set k tx }

inductive WriterEvent where
  | clock
  | start
  | insert (k : Nat)
  | guard (k : Nat)
  | prepare (k : Nat)
  | commit (k : Nat)
  | abort (k : Nat)

/-- The steps of the writer that are not a heartbeat. -/
inductive WriterStep (w : Writer) : WriterEvent → Writer → Prop where
  | clock (hle : w.clock ≤ t) : WriterStep w .clock { w with clock := t }
  | start : WriterStep w .start
      { w with transactions := w.transactions ++ [⟨w.clock, [], .running⟩] }
  | insert (hk : w.transactions[k]? = some tx) (hstage : tx.stage = .running) :
      WriterStep w (.insert k) (w.setTransaction k { tx with rows := tx.rows ++ [row] })
  | guard (hk : w.transactions[k]? = some tx) (hstage : tx.stage = .running)
      (hguard : ∀ row ∈ tx.rows, createdAtFloorGuard w.clock row) :
      WriterStep w (.guard k) (w.setTransaction k { tx with stage := .committing w.clock })
  | prepare (hk : w.transactions[k]? = some tx) (hstage : tx.stage = .running)
      (hguard : ∀ row ∈ tx.rows, createdAtFloorGuard w.clock row) :
      WriterStep w (.prepare k) (w.setTransaction k { tx with stage := .prepared w.clock })
  | commit (hk : w.transactions[k]? = some tx) (hguarded : tx.stage.guardedAt.isSome) :
      WriterStep w (.commit k)
        { w.setTransaction k { tx with stage := .finished } with log := w.log ++ [.rows tx.rows] }
  | abort (hk : w.transactions[k]? = some tx) :
      WriterStep w (.abort k) (w.setTransaction k { tx with stage := .finished })

/-- Every pod bumps the one row. -/
def Writer.bump (w : Writer) (token : Int) (epoch : Uuid) : Writer :=
  { w with log := w.log ++ [.heartbeat token epoch] }

/-- What any step of the writer may change: rows are committed after their guard, and a guard runs
at the clock of its moment. -/
structure Grows (w w' : Writer) : Prop where
  clock_le : w.clock ≤ w'.clock
  length_le : w.transactions.length ≤ w'.transactions.length
  log : ∃ more, w'.log = w.log ++ more ∧ ∀ rows, .rows rows ∈ more →
    ∃ tx ∈ w.transactions, tx.stage.guardedAt.isSome ∧ tx.rows = rows
  guarded : ∀ (k : Nat) tx', w'.transactions[k]? = some tx' → ∀ t, tx'.stage.guardedAt = some t →
    (∃ tx, w.transactions[k]? = some tx ∧ tx.stage = tx'.stage ∧ tx.rows = tx'.rows) ∨
      (w.clock ≤ t ∧ ∀ row ∈ tx'.rows, createdAtFloorGuard t row)

theorem Grows.refl (w : Writer) : Grows w w where
  clock_le := le_refl _
  length_le := Nat.le_refl _
  log := ⟨[], (List.append_nil _).symm, fun _ h => by cases h⟩
  guarded _ tx' hk _ _ := .inl ⟨tx', hk, rfl, rfl⟩

theorem Grows.bump (w : Writer) (token : Int) (epoch : Uuid) : Grows w (w.bump token epoch) where
  clock_le := le_refl _
  length_le := Nat.le_refl _
  log := by
    refine ⟨_, rfl, ?_⟩
    intro rows h
    cases List.mem_singleton.mp h
  guarded k tx' hk _ _ := .inl ⟨tx', hk, rfl, rfl⟩

/-- A transaction takes a step without a commit. -/
theorem Grows.setTransaction {w : Writer} {tx : Transaction} (k : Nat)
    (h : ∀ t, tx.stage.guardedAt = some t →
      w.clock ≤ t ∧ ∀ row ∈ tx.rows, createdAtFloorGuard t row) :
    Grows w (w.setTransaction k tx) where
  clock_le := le_refl _
  length_le := (List.length_set ..).ge
  log := ⟨[], (List.append_nil _).symm, fun _ h => by cases h⟩
  guarded j tx' hj t ht := by
    rcases ListAt.getElem?_set hj with ⟨rfl, rfl⟩ | ⟨_, hold⟩
    · exact .inr (h t ht)
    · exact .inl ⟨tx', hold, rfl, rfl⟩

theorem WriterStep.grows (h : WriterStep w e w') : Grows w w' := by
  cases h with
  | clock hle => exact ⟨hle, Nat.le_refl _, ⟨[], (List.append_nil _).symm, fun _ h => by cases h⟩,
      fun k tx' hk _ _ => .inl ⟨tx', hk, rfl, rfl⟩⟩
  | start =>
    refine ⟨le_refl _, ?_, ⟨[], (List.append_nil _).symm, fun _ h => by cases h⟩, ?_⟩
    · exact (List.length_append ..).ge.trans' (Nat.le_add_right _ _)
    · intro k tx' hk t ht
      rcases ListAt.getElem?_snoc hk with hold | ⟨_, rfl⟩
      · exact .inl ⟨tx', hold, rfl, rfl⟩
      · cases ht
  | @insert k tx row hk hstage =>
    apply Grows.setTransaction
    intro t ht
    rw [hstage] at ht
    cases ht
  | @guard k tx hk hstage hguard =>
    apply Grows.setTransaction
    rintro t ⟨⟩
    exact ⟨le_refl _, hguard⟩
  | @prepare k tx hk hstage hguard =>
    apply Grows.setTransaction
    rintro t ⟨⟩
    exact ⟨le_refl _, hguard⟩
  | @commit k tx hk hguarded =>
    have hset : Grows w (w.setTransaction k { tx with stage := .finished }) := by
      apply Grows.setTransaction
      rintro t ⟨⟩
    refine ⟨le_refl _, hset.length_le, ⟨[.rows tx.rows], rfl, ?_⟩, hset.guarded⟩
    intro rows h
    cases List.mem_singleton.mp h
    exact ⟨tx, List.mem_of_getElem? hk, hguarded, rfl⟩
  | abort hk =>
    apply Grows.setTransaction
    rintro t ⟨⟩

/-- What holds of the transactions and the heartbeats after any steps. -/
structure Writer.Sound (w : Writer) : Prop where
  started : ∀ tx ∈ w.transactions, tx.xactStart ≤ w.clock
  guarded : ∀ tx ∈ w.transactions, ∀ t, tx.stage.guardedAt = some t →
    tx.xactStart ≤ t ∧ ∀ row ∈ tx.rows, createdAtFloorGuard t row
  tokens : ((w.log.filterMap Commit.heartbeat?).map Prod.fst).Pairwise (· < ·)

namespace Writer.Sound

variable {w : Writer}

theorem setTransaction (h : w.Sound) {tx : Transaction} (hstart : tx.xactStart ≤ w.clock)
    (hguarded : ∀ t, tx.stage.guardedAt = some t →
      tx.xactStart ≤ t ∧ ∀ row ∈ tx.rows, createdAtFloorGuard t row) (k : Nat) :
    (w.setTransaction k tx).Sound where
  started tx' h' := by
    rcases List.mem_or_eq_of_mem_set h' with h' | rfl
    · exact h.started tx' h'
    · exact hstart
  guarded tx' h' := by
    rcases List.mem_or_eq_of_mem_set h' with h' | rfl
    · exact h.guarded tx' h'
    · exact hguarded
  tokens := h.tokens

theorem step (h : w.Sound) (hstep : WriterStep w e w') : w'.Sound := by
  cases hstep with
  | clock hle => exact ⟨fun tx htx => (h.started tx htx).trans hle, h.guarded, h.tokens⟩
  | start =>
    refine ⟨?_, ?_, h.tokens⟩
    · intro tx htx
      rcases List.mem_append.mp htx with htx | htx
      · exact h.started tx htx
      · rw [List.mem_singleton.mp htx]
    · intro tx htx t ht
      rcases List.mem_append.mp htx with htx | htx
      · exact h.guarded tx htx t ht
      · rw [List.mem_singleton.mp htx] at ht
        cases ht
  | @insert k tx row hk hstage =>
    refine h.setTransaction ?_ ?_ k
    · exact h.started tx (List.mem_of_getElem? hk)
    · intro t ht
      rw [hstage] at ht
      cases ht
  | @guard k tx hk hstage hguard =>
    refine h.setTransaction ?_ ?_ k
    · exact h.started tx (List.mem_of_getElem? hk)
    · rintro t ⟨⟩
      exact ⟨h.started tx (List.mem_of_getElem? hk), hguard⟩
  | @prepare k tx hk hstage hguard =>
    refine h.setTransaction ?_ ?_ k
    · exact h.started tx (List.mem_of_getElem? hk)
    · rintro t ⟨⟩
      exact ⟨h.started tx (List.mem_of_getElem? hk), hguard⟩
  | @commit k tx hk hguarded =>
    have hset : (w.setTransaction k { tx with stage := .finished }).Sound := by
      refine h.setTransaction ?_ ?_ k
      · exact h.started tx (List.mem_of_getElem? hk)
      · rintro t ⟨⟩
    refine ⟨hset.started, hset.guarded, ?_⟩
    dsimp only
    rw [List.filterMap_append, List.filterMap_cons_none rfl, List.filterMap_nil, List.append_nil]
    exact h.tokens
  | @abort k tx hk =>
    refine h.setTransaction ?_ ?_ k
    · exact h.started tx (List.mem_of_getElem? hk)
    · rintro t ⟨⟩

/-- The row has the greatest token of all heartbeats so far. -/
theorem bump (h : w.Sound) (hlast : lastHeartbeat w.log = some (token, epoch)) (epoch' : Uuid) :
    (w.bump (token + 1) epoch').Sound where
  started := h.started
  guarded := h.guarded
  tokens := by
    rw [Writer.bump, List.filterMap_append, List.map_append, List.pairwise_append]
    refine ⟨h.tokens, List.pairwise_singleton _ _, ?_⟩
    intro t ht t' ht'
    rw [List.mem_singleton.mp ht']
    have htokens := h.tokens
    obtain ⟨front, hfront⟩ := List.getLast?_eq_some_iff.mp hlast
    rw [hfront, List.map_append] at ht htokens
    rcases List.mem_append.mp ht with ht | ht
    · have hlt := (List.pairwise_append.mp htokens).2.2 t ht token List.mem_cons_self
      dsimp only
      omega
    · rw [List.mem_singleton.mp ht]
      exact Int.lt_add_one_iff.mpr (le_refl _)

end Writer.Sound

/-- A snapshot whose row has reached the token of a heartbeat has the heartbeat itself. -/
theorem lt_of_lastHeartbeat {log : List Commit}
    (h : ((log.filterMap Commit.heartbeat?).map Prod.fst).Pairwise (· < ·))
    {k n : Nat} (hk : log[k]? = some (.heartbeat token epoch))
    (hlast : lastHeartbeat (log.take n) = some (observed, epoch')) (hle : token ≤ observed) :
    k < n := by
  by_contra hnk
  have hmem : .heartbeat token epoch ∈ log.drop n := by
    rw [List.mem_iff_getElem?]
    exact ⟨k - n, by rw [List.getElem?_drop, Nat.add_sub_cancel' (not_lt.mp hnk), hk]⟩
  rw [← List.take_append_drop n log, List.filterMap_append, List.map_append,
    List.pairwise_append] at h
  have hlt := h.2.2 observed (List.mem_map.mpr ⟨_, List.mem_of_getLast? hlast, rfl⟩) token
    (List.mem_map.mpr ⟨(token, epoch), List.mem_filterMap.mpr ⟨_, hmem, rfl⟩, rfl⟩)
  omega

end Buzz.Fence
