import Buzz.PairRelay.Relay

namespace Buzz.PairRelay
set_option autoImplicit true
open Json GitSign

namespace Relay

theorem swapRemove_perm {l : List α} {i : ℕ} (hi : i < l.length) :
    (swapRemove l i).Perm (l.eraseIdx i) := by
  rcases List.eq_nil_or_concat l with rfl | ⟨init, last, rfl⟩
  · exact absurd hi (Nat.not_lt_zero i)
  · rw [List.concat_eq_append] at hi ⊢
    rw [swapRemove, List.getLast?_concat]
    dsimp only
    simp only [List.length_append, List.length_singleton] at hi
    rcases Nat.lt_or_ge i init.length with hlt | hge
    · rw [List.set_append_left _ _ hlt, List.dropLast_concat, List.eraseIdx_append_of_lt_length hlt]
      exact (List.set_perm_cons_eraseIdx hlt last).trans (List.perm_append_singleton _ _).symm
    · obtain rfl : i = init.length := by omega
      rw [List.set_append_right _ _ (le_refl _), List.eraseIdx_append_of_length_le (le_refl _),
        Nat.sub_self, List.set_cons_zero, List.dropLast_concat]
      simp

variable {F K R : Type} {env : Env K R F} {r r' : Relay F} {a b : Attempt F}

def taskOf (r : Relay F) (i : ℕ) : Option (Task F) :=
  (r.conns i).map Conn.task

theorem taskOf_setConn (r : Relay F) (i j : ℕ) (c : Option (Conn F)) :
    (r.setConn i c).taskOf j = if j = i then c.map Conn.task else r.taskOf j := by
  simp only [taskOf, setConn, Function.update_apply]
  split <;> rfl

theorem taskOf_withTask (r : Relay F) (i j : ℕ) (task : Task F) (answer : Option (Value F)) :
    (r.withTask i task answer).taskOf j =
      if j = i then (r.taskOf i).map fun _ => task else r.taskOf j := by
  unfold withTask
  cases hc : r.conns i with
  | none =>
    simp only
    split
    · rename_i hj
      rw [hj, taskOf, hc]
      rfl
    · rfl
  | some c =>
    simp only
    rw [taskOf_setConn]
    split
    · rw [taskOf, hc]
      cases answer with
      | none => rfl
      | some v => exact congrArg some (Conn.reply_task _ v)
    · rfl

/-- Nothing but the task of the one connection changes. -/
theorem taskOf_withTask_some {i j : ℕ} {task t : Task F} {answer : Option (Value F)}
    (h : (r.withTask i task answer).taskOf j = some t) :
    (j = i ∧ t = task) ∨ (j ≠ i ∧ r.taskOf j = some t) := by
  rw [taskOf_withTask] at h
  split at h
  · rename_i hj
    obtain ⟨t₀, -, rfl⟩ := Option.map_eq_some_iff.mp h
    exact .inl ⟨hj, rfl⟩
  · rename_i hj
    exact .inr ⟨hj, h⟩

theorem withTask_kept (r : Relay F) (i : ℕ) (task : Task F) (answer : Option (Value F)) :
    (r.withTask i task answer).now = r.now ∧ (r.withTask i task answer).seenIds = r.seenIds ∧
      (r.withTask i task answer).forwarded = r.forwarded ∧
      (r.withTask i task answer).attempted = r.attempted := by
  unfold withTask
  split <;> exact ⟨rfl, rfl, rfl, rfl⟩

/-- The ids of these events commit to what the events say: no two of them collide. -/
def NoCollision (env : Env K R F) (events : List (Value F)) : Prop :=
  ∀ ev ∈ events, ∀ ev' ∈ events, ∀ v v', committed ev = .ok v → committed ev' = .ok v' →
    commitmentHash env.format env.sha256 v = commitmentHash env.format env.sha256 v' → v = v'

theorem NoCollision.mono {events events' : List (Value F)} (h : NoCollision env events')
    (hsub : events ⊆ events') : NoCollision env events :=
  fun ev hev ev' hev' => h ev (hsub hev) ev' (hsub hev')

/-- Two checks of one id are within the freshness window of the same moment. -/
theorem checked_close (hsha : NoCollision env r.attempted) (ha : a.Checked env) (hb : b.Checked env)
    (hma : a.event ∈ r.attempted) (hmb : b.event ∈ r.attempted) (hid : a.idBytes = b.idBytes) :
    (env.wall a.validatedAt - env.wall b.validatedAt).natAbs ≤ 2 * FRESHNESS_SECS := by
  obtain ⟨hida, i, hi, hfresh⟩ := validateEvent_ok ha.valid
  obtain ⟨hidb, i', hi', hfresh'⟩ := validateEvent_ok hb.valid
  obtain ⟨v, hv, hhash⟩ := verifyEventSig_ok env.externals env.format env.sha256 ha.verified
  obtain ⟨v', hv', hhash'⟩ := verifyEventSig_ok env.externals env.format env.sha256 hb.verified
  rw [hida] at hhash
  rw [hidb] at hhash'
  have hsame := (Option.some.inj hhash).symm.trans (hid.trans (Option.some.inj hhash'))
  have hvv := hsha _ hma _ hmb v v' hv hv' hsame
  subst hvv
  have hcreated := createdAt_of_committed hv hv'
  rw [hi, hi'] at hcreated
  obtain rfl := Option.some.inj hcreated
  omega

/-- What holds of the reservations of ids and of what has been forwarded. -/
structure Core (env : Env K R F) (r : Relay F) : Prop where
  bounded : r.seenIds.length ≤ DEDUP_CAP
  nodup : (r.seenIds.map Prod.fst).Nodup
  waits : ∀ i t a, r.taskOf i = some t → t.attempt = some a → a.validatedAt ≤ r.now ∧
    r.now < a.validatedAt + PROMPT ∧ a.Checked env ∧ a.event ∈ r.attempted
  -- A reservation is younger than its check, and so does not expire while it is held.
  holds : ∀ i t a, r.taskOf i = some t → t.held = some a →
    ∃ ts, (a.idBytes, ts) ∈ r.seenIds ∧ a.validatedAt ≤ ts
  alone : ∀ i j t u a b, r.taskOf i = some t → r.taskOf j = some u → t.held = some a →
    u.held = some b → a.idBytes = b.idBytes → i = j
  -- The id of what was forwarded is kept until it is too old to pass the check again.
  logged : ∀ f ∈ r.forwarded, f.sub.pValue = f.attempt.pValue ∧ f.attempt.Checked env ∧
    f.attempt.event ∈ r.attempted ∧ ∃ ts, f.attempt.validatedAt ≤ ts ∧
      ((f.attempt.idBytes, ts) ∈ r.seenIds ∨ ts + ENTRY_TTL ≤ r.now)
  free : ∀ f ∈ r.forwarded, ∀ i t a, r.taskOf i = some t → t.held = some a →
    a.idBytes ≠ f.attempt.idBytes
  once : (r.forwarded.map fun f => f.attempt.idBytes).Nodup

theorem core_new : Core env (new : Relay F) where
  bounded := Nat.zero_le _
  nodup := List.nodup_nil
  waits i t a ht := by cases ht
  holds i t a ht := by cases ht
  alone i j t u a b ht := by cases ht
  logged f hf := absurd hf List.not_mem_nil
  free f hf := absurd hf List.not_mem_nil
  once := List.nodup_nil

theorem mem_liveIds {e : HexId 64 × ℕ} (h : e ∈ r.seenIds) :
    e ∈ r.liveIds ∨ e.2 + ENTRY_TTL ≤ r.now := by
  by_cases hlive : r.now - e.2 < ENTRY_TTL
  · exact .inl (List.mem_filter.mpr ⟨h, decide_eq_true hlive⟩)
  · right
    have hpos : 0 < ENTRY_TTL := by decide
    omega

/-- Expired ids are evicted. -/
theorem Core.evict (h : Core env r) : Core env { r with seenIds := r.liveIds } where
  bounded := List.filter_sublist.length_le.trans h.bounded
  nodup := h.nodup.sublist (List.filter_sublist.map _)
  waits := h.waits
  holds i t a ht ha := by
    obtain ⟨ts, hmem, hle⟩ := h.holds i t a ht ha
    obtain ⟨-, hprompt, -⟩ := h.waits i t a ht (Task.attempt_of_held ha)
    refine ⟨ts, (mem_liveIds hmem).resolve_right fun hold => ?_, hle⟩
    change ts + ENTRY_TTL ≤ r.now at hold
    unfold ENTRY_TTL at hold
    unfold PROMPT at hprompt
    omega
  alone := h.alone
  logged f hf := by
    obtain ⟨hto, hchecked, hmem, ts, hle, hkept⟩ := h.logged f hf
    exact ⟨hto, hchecked, hmem, ts, hle, hkept.elim mem_liveIds .inr⟩
  free := h.free
  once := h.once

/-- Tasks that hold nothing new change nothing that matters. -/
theorem Core.tasks (h : Core env r) (hnow : r'.now = r.now) (hseen : r'.seenIds = r.seenIds)
    (hlog : r'.forwarded = r.forwarded) (hatt : r.attempted ⊆ r'.attempted)
    (htasks : ∀ i t a, r'.taskOf i = some t → t.attempt = some a →
      (∃ t₀, r.taskOf i = some t₀ ∧ t₀.attempt = some a ∧ t₀.held = t.held) ∨
        (t.held = none ∧ a.validatedAt = r.now ∧ a.Checked env ∧ a.event ∈ r'.attempted)) :
    Core env r' := by
  have hheld : ∀ i t a, r'.taskOf i = some t → t.held = some a →
      ∃ t₀, r.taskOf i = some t₀ ∧ t₀.held = some a := by
    intro i t a ht ha
    rcases htasks i t a ht (Task.attempt_of_held ha) with ⟨t₀, ht₀, -, hsame⟩ | ⟨hnone, -⟩
    · exact ⟨t₀, ht₀, hsame.trans ha⟩
    · rw [ha] at hnone
      cases hnone
  refine ⟨hseen ▸ h.bounded, hseen ▸ h.nodup, fun i t a ht ha => ?_, fun i t a ht ha => ?_,
    fun i j t u a b ht hu ha hb => ?_, fun f hf => ?_, fun f hf i t a ht ha => ?_, hlog ▸ h.once⟩
  · rw [hnow]
    rcases htasks i t a ht ha with ⟨t₀, ht₀, hsame, -⟩ | ⟨-, hat, hchecked, hmem⟩
    · obtain ⟨hle, hprompt, hchecked, hmem⟩ := h.waits i t₀ a ht₀ hsame
      exact ⟨hle, hprompt, hchecked, hatt hmem⟩
    · have hpos : 0 < PROMPT := by decide
      exact ⟨by omega, by omega, hchecked, hmem⟩
  · obtain ⟨t₀, ht₀, hsame⟩ := hheld i t a ht ha
    rw [hseen]
    exact h.holds i t₀ a ht₀ hsame
  · obtain ⟨t₀, ht₀, hsame⟩ := hheld i t a ht ha
    obtain ⟨u₀, hu₀, hsame'⟩ := hheld j u b hu hb
    exact h.alone i j t₀ u₀ a b ht₀ hu₀ hsame hsame'
  · rw [hlog] at hf
    obtain ⟨hto, hchecked, hmem, ts, hle, hkept⟩ := h.logged f hf
    rw [hseen, hnow]
    exact ⟨hto, hchecked, hatt hmem, ts, hle, hkept⟩
  · rw [hlog] at hf
    obtain ⟨t₀, ht₀, hsame⟩ := hheld i t a ht ha
    exact h.free f hf i t₀ a ht₀ hsame

/-- A task that handles no event leaves the others as they were. -/
theorem Core.quiet (h : Core env r) {i : ℕ} (hnow : r'.now = r.now) (hseen : r'.seenIds = r.seenIds)
    (hlog : r'.forwarded = r.forwarded) (hatt : r'.attempted = r.attempted)
    (hothers : ∀ j, j ≠ i → r'.taskOf j = r.taskOf j)
    (hown : ∀ t, r'.taskOf i = some t → t.attempt = none ∨ r.taskOf i = some t) : Core env r' := by
  refine h.tasks hnow hseen hlog (hatt ▸ List.Subset.refl _) fun j t a ht ha => .inl ?_
  by_cases hj : j = i
  · subst hj
    rcases hown t ht with hnone | hsame
    · rw [ha] at hnone
      cases hnone
    · exact ⟨t, hsame, ha, rfl⟩
  · rw [hothers j hj] at ht
    exact ⟨t, ht, ha, rfl⟩

/-- A task that is done with an event goes idle. -/
theorem Core.withTask_idle (h : Core env r) (i : ℕ) (answer : Option (Value F)) :
    Core env (r.withTask i .idle answer) := by
  obtain ⟨hnow, hseen, hlog, hatt⟩ := r.withTask_kept i .idle answer
  refine h.quiet (i := i) hnow hseen hlog hatt (fun j hj => ?_) fun t ht => .inl ?_
  · rw [taskOf_withTask, if_neg hj]
  · obtain ⟨-, rfl⟩ := (taskOf_withTask_some ht).resolve_right fun hother => hother.1 rfl
    rfl

/-- An id that is in no live reservation is no forwarded one either. -/
theorem Core.not_forwarded (h : Core env r) (hsha : NoCollision env r.attempted) {i : ℕ}
    {t : Task F} (ht : r.taskOf i = some t) (ha : t.attempt = some a)
    (hnew : ∀ e ∈ r.seenIds, e.1 ≠ a.idBytes) :
    ∀ f ∈ r.forwarded, a.idBytes ≠ f.attempt.idBytes := by
  intro f hf hid
  obtain ⟨-, hprompt, hchecked, hmem⟩ := h.waits i t a ht ha
  obtain ⟨-, hchecked', hmem', ts, hle, hkept⟩ := h.logged f hf
  rcases hkept with hkept | hold
  · exact hnew _ hkept hid.symm
  · -- It was checked too long ago for the event to be fresh now.
    have hclose := checked_close hsha hchecked hchecked' hmem hmem' hid
    unfold Env.wall FRESHNESS_SECS at hclose
    unfold ENTRY_TTL at hold
    unfold PROMPT at hprompt
    omega

theorem Core.reserve (h : Core env r) (hsha : NoCollision env r.attempted) {i : ℕ}
    (ht : r.taskOf i = some (.verified a)) : Core env (r.advance i (.verified a)) := by
  simp only [advance, reserveId]
  by_cases hdup : (r.liveIds.any fun e => e.1 = a.idBytes) = true
  · rw [if_pos hdup]
    exact h.evict.withTask_idle i _
  · rw [if_neg hdup]
    by_cases hfull : DEDUP_CAP ≤ r.liveIds.length
    · rw [if_pos hfull]
      exact h.evict.withTask_idle i _
    · rw [if_neg hfull]
      change Core env (withTask { r with seenIds := r.liveIds ++ [(a.idBytes, r.now)] } i
        (.reserved a) none)
      have hlive := h.evict
      have hnew : ∀ e ∈ r.liveIds, e.1 ≠ a.idBytes := fun e he hid =>
        hdup (List.any_eq_true.mpr ⟨e, he, decide_eq_true hid⟩)
      have hwaits := hlive.waits i _ a ht rfl
      have hfree := hlive.not_forwarded hsha ht rfl hnew
      obtain ⟨hnow, hseen, hlog, hatt⟩ := withTask_kept
        { r with seenIds := r.liveIds ++ [(a.idBytes, r.now)] } i (.reserved a) none
      -- The tasks are as they were, but for the one that holds the id now.
      have htask : ∀ j t, (withTask { r with seenIds := r.liveIds ++ [(a.idBytes, r.now)] } i
          (.reserved a) none).taskOf j = some t →
          (j = i ∧ t = .reserved a) ∨ (j ≠ i ∧ r.taskOf j = some t) := by
        intro j t hj
        rcases taskOf_withTask_some hj with hown | hother
        · exact .inl hown
        · exact .inr hother
      have hother : ∀ j t b, r.taskOf j = some t → t.held = some b → b.idBytes ≠ a.idBytes := by
        intro j t b hj hb
        obtain ⟨ts, hmem, -⟩ := hlive.holds j t b hj hb
        exact hnew _ hmem
      refine ⟨?_, ?_, fun j t b hj hb => ?_, fun j t b hj hb => ?_,
        fun j k t u b c hj hk hb hc hid => ?_, fun f hf => ?_, fun f hf j t b hj hb => ?_, ?_⟩
      · rw [hseen, List.length_append, List.length_singleton]
        omega
      · rw [hseen, List.map_append, List.map_singleton]
        refine List.nodup_append.mpr ⟨hlive.nodup, List.nodup_singleton _, fun x hx y hy => ?_⟩
        obtain ⟨e, he, rfl⟩ := List.mem_map.mp hx
        rw [List.mem_singleton.mp hy]
        exact hnew e he
      · rw [hnow, hatt]
        rcases htask j t hj with ⟨-, rfl⟩ | ⟨-, hj⟩
        · obtain rfl := Option.some.inj hb
          exact hwaits
        · exact h.waits j t b hj hb
      · rw [hseen]
        rcases htask j t hj with ⟨-, rfl⟩ | ⟨-, hj⟩
        · obtain rfl := Option.some.inj hb
          exact ⟨r.now, List.mem_append_right _ (List.mem_singleton_self _), hwaits.1⟩
        · obtain ⟨ts, hmem, hle⟩ := hlive.holds j t b hj hb
          exact ⟨ts, List.mem_append_left _ hmem, hle⟩
      · rcases htask j t hj with ⟨hji, rfl⟩ | ⟨-, hj'⟩
        · obtain rfl := Option.some.inj hb
          rcases htask k u hk with ⟨hki, -⟩ | ⟨-, hk'⟩
          · rw [hji, hki]
          · exact absurd hid.symm (hother k u c hk' hc)
        · rcases htask k u hk with ⟨-, rfl⟩ | ⟨-, hk'⟩
          · obtain rfl := Option.some.inj hc
            exact absurd hid (hother j t b hj' hb)
          · exact h.alone j k t u b c hj' hk' hb hc hid
      · rw [hlog] at hf
        obtain ⟨hto, hchecked, hmem, ts, hle, hkept⟩ := hlive.logged f hf
        rw [hseen, hnow, hatt]
        exact ⟨hto, hchecked, hmem, ts, hle, hkept.imp_left (List.mem_append_left _)⟩
      · rw [hlog] at hf
        rcases htask j t hj with ⟨-, rfl⟩ | ⟨-, hj⟩
        · obtain rfl := Option.some.inj hb
          exact hfree f hf
        · exact h.free f hf j t b hj hb
      · rw [hlog]
        exact h.once

/-- A delivery puts the event on the channel of one subscriber and counts it, or it drops the
expired budgets at most. -/
theorem deliverSingle_cases (r : Relay F) (a : Attempt F) :
    (∃ sub ∈ r.subs, ∃ c, sub.pValue = a.pValue ∧ r.conns sub.connId = some c ∧
      r.spent a.pValue < MAX_DELIVERED_PER_P ∧
      (r.liveBudgets.entries.length < DELIVERED_MAP_CAP ∨
        (r.liveBudgets.lookup a.pValue).isSome = true) ∧
      r.deliverSingle a = (r.forward a sub
        (c.trySend (.text (.array [.string "EVENT", .string sub.subId, a.event]))).1, .ok true)) ∨
    ∃ d res, (d = r.delivered ∨ d = r.liveBudgets) ∧ res ≠ .ok true ∧
      r.deliverSingle a = ({ r with delivered := d }, res) := by
  have herror : ∀ reason : String, (Except.error reason : Except String Bool) ≠ .ok true :=
    fun reason h => by cases h
  have hfailed : (Except.ok false : Except String Bool) ≠ .ok true := fun h => by cases h
  cases hsubs : r.subs.filter fun s => s.pValue = a.pValue with
  | nil =>
    exact .inr ⟨_, _, .inl rfl, herror "no live subscriber", by simp only [deliverSingle, hsubs]⟩
  | cons sub more =>
    cases more with
    | cons sub' more =>
      exact .inr ⟨_, _, .inl rfl, herror "ambiguous recipient", by simp only [deliverSingle, hsubs]⟩
    | nil =>
      obtain ⟨hsub, hp⟩ := List.mem_filter.mp (hsubs ▸ List.mem_singleton_self sub)
      by_cases hbudget : MAX_DELIVERED_PER_P ≤ r.spent a.pValue
      · exact .inr ⟨_, _, .inr rfl, herror "recipient session budget exhausted",
          by simp only [deliverSingle, hsubs, if_pos hbudget]⟩
      by_cases hfull : (decide (DELIVERED_MAP_CAP ≤ r.liveBudgets.entries.length) &&
          (r.liveBudgets.lookup a.pValue).isNone) = true
      · exact .inr ⟨_, _, .inr rfl, herror "relay at capacity",
          by simp only [deliverSingle, hsubs, if_neg hbudget, if_pos hfull]⟩
      have hroom : r.liveBudgets.entries.length < DELIVERED_MAP_CAP ∨
          (r.liveBudgets.lookup a.pValue).isSome = true := by
        by_cases hlt : r.liveBudgets.entries.length < DELIVERED_MAP_CAP
        · exact .inl hlt
        · rw [decide_eq_true (Nat.not_lt.mp hlt), Bool.true_and] at hfull
          exact .inr (Option.isSome_iff_ne_none.mpr fun hnone => hfull (by rw [hnone]; rfl))
      cases hc : r.conns sub.connId with
      | none =>
        exact .inr ⟨_, _, .inr rfl, hfailed,
          by simp only [deliverSingle, hsubs, if_neg hbudget, if_neg hfull, hc]⟩
      | some c =>
        by_cases hsent : (c.trySend (.text (.array [.string "EVENT", .string sub.subId,
            a.event]))).2 = true
        · exact .inl ⟨sub, hsub, c, of_decide_eq_true hp, hc, Nat.not_le.mp hbudget, hroom,
            by simp only [deliverSingle, hsubs, if_neg hbudget, if_neg hfull, hc, if_pos hsent]⟩
        · exact .inr ⟨_, _, .inr rfl, hfailed,
            by simp only [deliverSingle, hsubs, if_neg hbudget, if_neg hfull, hc, if_neg hsent]⟩

/-- What a delivery leaves: the reservations and every task, and one more forwarded event if it
succeeds. -/
theorem deliverSingle_kept (r : Relay F) (a : Attempt F) :
    (r.deliverSingle a).1.now = r.now ∧ (r.deliverSingle a).1.seenIds = r.seenIds ∧
      (r.deliverSingle a).1.attempted = r.attempted ∧
      (∀ j, (r.deliverSingle a).1.taskOf j = r.taskOf j) ∧
      (((r.deliverSingle a).2 = .ok true ∧
          ∃ sub ∈ r.subs, sub.pValue = a.pValue ∧
            (r.deliverSingle a).1.forwarded = r.forwarded ++ [⟨a, sub, r.now⟩]) ∨
        ((r.deliverSingle a).2 ≠ .ok true ∧ (r.deliverSingle a).1.forwarded = r.forwarded)) := by
  rcases r.deliverSingle_cases a with ⟨sub, hsub, c, hp, hc, -, -, heq⟩ | ⟨d, res, -, hres, heq⟩
  · rw [heq]
    refine ⟨rfl, rfl, rfl, fun j => ?_, .inl ⟨rfl, sub, hsub, hp, rfl⟩⟩
    change (r.setConn sub.connId _).taskOf j = r.taskOf j
    rw [taskOf_setConn]
    split
    · rename_i hj
      rw [Option.map_some, Conn.trySend_task, hj, taskOf, hc, Option.map_some]
    · rfl
  · rw [heq]
    exact ⟨rfl, rfl, rfl, fun _ => rfl, .inr ⟨hres, rfl⟩⟩

theorem Core.deliver (h : Core env r) {i : ℕ} (ht : r.taskOf i = some (.reserved a)) :
    Core env (r.advance i (.reserved a)) := by
  obtain ⟨hnow, hseen, hatt, htask, hresult⟩ := r.deliverSingle_kept a
  simp only [advance]
  generalize r.deliverSingle a = done at hnow hseen hatt htask hresult ⊢
  rcases hresult with ⟨hok, sub, -, hto, hlog⟩ | ⟨hne, hlog⟩
  · obtain ⟨hnow', hseen', hlog', hatt'⟩ :=
      done.1.withTask_kept i .idle (some (makeOk a.eventId true ""))
    rw [hok]
    dsimp only
    generalize some (makeOk a.eventId true "") = answer at hnow' hseen' hlog' hatt' ⊢
    -- Nothing but the other tasks is left, and none of them has this id.
    have hothers : ∀ j t, (done.1.withTask i .idle answer).taskOf j = some t →
        t = .idle ∨ (j ≠ i ∧ r.taskOf j = some t) := by
      intro j t hj
      rcases taskOf_withTask_some hj with ⟨-, rfl⟩ | ⟨hji, hj⟩
      · exact .inl rfl
      · exact .inr ⟨hji, (htask j).symm.trans hj⟩
    have hheld : ∀ j t b, (done.1.withTask i .idle answer).taskOf j = some t →
        t.held = some b → j ≠ i ∧ r.taskOf j = some t := by
      intro j t b hj hb
      refine (hothers j t hj).resolve_left fun hidle => ?_
      rw [hidle] at hb
      cases hb
    refine ⟨?_, ?_, fun j t b hj hb => ?_, fun j t b hj hb => ?_,
      fun j k t u b c hj hk hb hc => ?_, fun f hf => ?_, fun f hf j t b hj hb => ?_, ?_⟩
    · rw [hseen', hseen]
      exact h.bounded
    · rw [hseen', hseen]
      exact h.nodup
    · rw [hnow', hnow, hatt', hatt]
      rcases hothers j t hj with rfl | ⟨-, hj⟩
      · cases hb
      · exact h.waits j t b hj hb
    · rw [hseen', hseen]
      exact h.holds j t b (hheld j t b hj hb).2 hb
    · exact h.alone j k t u b c (hheld j t b hj hb).2 (hheld k u c hk hc).2 hb hc
    · rw [hlog', hlog] at hf
      rw [hseen', hseen, hnow', hnow, hatt', hatt]
      rcases List.mem_append.mp hf with hf | hf
      · exact h.logged f hf
      · rw [List.mem_singleton.mp hf]
        obtain ⟨-, -, hchecked, hmem⟩ := h.waits i _ a ht rfl
        obtain ⟨ts, hts, hle⟩ := h.holds i _ a ht rfl
        exact ⟨hto, hchecked, hmem, ts, hle, .inl hts⟩
    · rw [hlog', hlog] at hf
      obtain ⟨hji, hj⟩ := hheld j t b hj hb
      rcases List.mem_append.mp hf with hf | hf
      · exact h.free f hf j t b hj hb
      · rw [List.mem_singleton.mp hf]
        exact fun hid => hji (h.alone j i t _ b a hj ht hb rfl hid)
    · rw [hlog', hlog, List.map_append, List.map_singleton]
      refine List.nodup_append.mpr ⟨h.once, List.nodup_singleton _, fun x hx y hy => ?_⟩
      obtain ⟨f, hf, rfl⟩ := List.mem_map.mp hx
      rw [List.mem_singleton.mp hy]
      exact (h.free f hf i _ a ht rfl).symm
  · -- The reservation is still held, until it is given back.
    have hkept : ∀ reason, Core env (done.1.withTask i (.refused a reason) none) := by
      intro reason
      obtain ⟨hnow', hseen', hlog', hatt'⟩ := done.1.withTask_kept i (.refused a reason) none
      refine h.tasks (hnow'.trans hnow) (hseen'.trans hseen) (hlog'.trans hlog)
        (hatt'.trans hatt ▸ List.Subset.refl _) fun j t b hj hb => .inl ?_
      rcases taskOf_withTask_some hj with ⟨hji, rfl⟩ | ⟨-, hj⟩
      · exact ⟨.reserved a, hji ▸ ht, hb, rfl⟩
      · exact ⟨t, (htask j).symm.trans hj, hb, rfl⟩
    split
    · rename_i hok
      exact absurd hok hne
    · exact hkept _
    · exact hkept _

theorem unreserveId_kept (r : Relay F) (id : HexId 64) :
    (r.unreserveId id).now = r.now ∧ (r.unreserveId id).forwarded = r.forwarded ∧
      (r.unreserveId id).attempted = r.attempted ∧
      (∀ j, (r.unreserveId id).taskOf j = r.taskOf j) ∧
      (r.unreserveId id).seenIds.Subperm r.seenIds ∧
      ∀ e ∈ r.seenIds, e.1 ≠ id → e ∈ (r.unreserveId id).seenIds := by
  unfold unreserveId
  split
  · rename_i pos hpos
    obtain ⟨hlt, hid, -⟩ := List.findIdx?_eq_some_iff_getElem.mp hpos
    have hperm := swapRemove_perm hlt
    refine ⟨rfl, rfl, rfl, fun _ => rfl, ?_, fun e he hne => ?_⟩
    · exact hperm.subperm.trans (List.eraseIdx_sublist _ _).subperm
    · refine hperm.mem_iff.mpr (List.mem_eraseIdx_iff_getElem?.mpr ?_)
      obtain ⟨k, hk, rfl⟩ := List.mem_iff_getElem.mp he
      refine ⟨k, fun hkp => ?_, List.getElem?_eq_getElem hk⟩
      subst hkp
      exact hne (of_decide_eq_true hid)
  · exact ⟨rfl, rfl, rfl, fun _ => rfl, List.Subperm.refl _, fun e he _ => he⟩

theorem Core.unreserve (h : Core env r) {i : ℕ} {reason : String}
    (ht : r.taskOf i = some (.refused a reason)) : Core env (r.advance i (.refused a reason)) := by
  obtain ⟨hnow, hlog, hatt, htask, hsub, hkept⟩ := r.unreserveId_kept a.idBytes
  simp only [advance]
  generalize some (makeOk a.eventId false reason) = answer
  obtain ⟨hnow', hseen', hlog', hatt'⟩ := (r.unreserveId a.idBytes).withTask_kept i .idle answer
  have hothers : ∀ j t b, ((r.unreserveId a.idBytes).withTask i .idle answer).taskOf j = some t →
      t.attempt = some b → j ≠ i ∧ r.taskOf j = some t := by
    intro j t b hj hb
    rcases taskOf_withTask_some hj with ⟨-, rfl⟩ | ⟨hji, hj⟩
    · cases hb
    · exact ⟨hji, (htask j).symm.trans hj⟩
  refine ⟨?_, ?_, fun j t b hj hb => ?_, fun j t b hj hb => ?_,
    fun j k t u b c hj hk hb hc => ?_, fun f hf => ?_, fun f hf j t b hj hb => ?_, ?_⟩
  · rw [hseen']
    exact hsub.length_le.trans h.bounded
  · rw [hseen']
    obtain ⟨l, hperm, hl⟩ := hsub
    exact (hperm.map _).nodup_iff.mp (h.nodup.sublist (hl.map _))
  · rw [hnow', hnow, hatt', hatt]
    exact h.waits j t b (hothers j t b hj hb).2 hb
  · rw [hseen']
    obtain ⟨hji, hj⟩ := hothers j t b hj (Task.attempt_of_held hb)
    obtain ⟨ts, hts, hle⟩ := h.holds j t b hj hb
    exact ⟨ts, hkept _ hts fun hid => hji (h.alone j i t _ b a hj ht hb rfl hid), hle⟩
  · exact h.alone j k t u b c (hothers j t b hj (Task.attempt_of_held hb)).2
      (hothers k u c hk (Task.attempt_of_held hc)).2 hb hc
  · rw [hlog', hlog] at hf
    rw [hseen', hnow', hnow, hatt', hatt]
    obtain ⟨hto, hchecked, hmem, ts, hle, hold⟩ := h.logged f hf
    refine ⟨hto, hchecked, hmem, ts, hle, hold.imp_left fun hts => hkept _ hts ?_⟩
    exact fun hid => h.free f hf i _ a ht rfl hid.symm
  · rw [hlog', hlog] at hf
    exact h.free f hf j t b (hothers j t b hj (Task.attempt_of_held hb)).2 hb
  · rw [hlog', hlog]
    exact h.once

theorem Core.advance (h : Core env r) (hsha : NoCollision env r.attempted) {i : ℕ} {c : Conn F}
    (hc : r.conns i = some c) : Core env (r.advance i c.task) := by
  have ht : r.taskOf i = some c.task := by rw [taskOf, hc, Option.map_some]
  generalize c.task = t at ht
  cases t with
  | idle => exact h
  | verified a => exact h.reserve hsha ht
  | reserved a => exact h.deliver ht
  | refused a reason => exact h.unreserve ht
  | leaving =>
    refine h.quiet (i := i) rfl rfl rfl rfl (fun j hj => ?_) fun t ht' => ?_
    · change (setConn _ i none).taskOf j = r.taskOf j
      rw [taskOf_setConn, if_neg hj]
      rfl
    · change (setConn _ i none).taskOf i = some t at ht'
      rw [taskOf_setConn, if_pos rfl] at ht'
      cases ht'

/-- Replacing a connection by one whose task handles nothing, or is the same. -/
theorem Core.setConn (h : Core env r) {i : ℕ} {c : Conn F}
    (htask : c.task.attempt = none ∨ r.taskOf i = some c.task) :
    Core env (r.setConn i (some c)) := by
  refine h.quiet (i := i) rfl rfl rfl rfl (fun j hj => ?_) fun t ht => ?_
  · rw [taskOf_setConn, if_neg hj]
  · rw [taskOf_setConn, if_pos rfl] at ht
    obtain rfl := Option.some.inj ht
    exact htask

theorem reserveId_attempted (r : Relay F) (id : HexId 64) :
    (r.reserveId id).1.attempted = r.attempted := by
  unfold reserveId
  split
  · rfl
  · split <;> rfl

theorem advance_attempted (r : Relay F) (i : ℕ) (task : Task F) :
    (r.advance i task).attempted = r.attempted := by
  have hkept : ∀ (r : Relay F) task answer, (r.withTask i task answer).attempted = r.attempted :=
    fun r task answer => (r.withTask_kept i task answer).2.2.2
  cases task with
  | idle => rfl
  | verified a =>
    simp only [Relay.advance]
    split <;> exact (hkept _ _ _).trans (r.reserveId_attempted a.idBytes)
  | reserved a =>
    simp only [Relay.advance]
    split <;> exact (hkept _ _ _).trans (r.deliverSingle_kept a).2.2.1
  | refused a reason => exact (hkept _ _ _).trans (r.unreserveId_kept a.idBytes).2.2.1
  | leaving => rfl

theorem Step.attempted {op : RelayOp F} (h : Step env r op r') : r.attempted ⊆ r'.attempted := by
  cases h with
  | frame => exact List.subset_append_right _ _
  | advance hc => exact (r.advance_attempted _ _).symm ▸ List.Subset.refl _
  | connect =>
    unfold Relay.connect
    split <;> exact List.Subset.refl _
  | tick => exact List.Subset.refl _
  | rejected => exact List.Subset.refl _
  | quit => exact List.Subset.refl _
  | drain => exact List.Subset.refl _
  | writerDies => exact List.Subset.refl _

theorem Core.step {op : RelayOp F} (h : Core env r) (hsha : NoCollision env r.attempted)
    (hstep : Step env r op r') : Core env r' := by
  cases hstep with
  | tick hprompt =>
    rename_i ms
    refine ⟨h.bounded, h.nodup, fun i t a ht ha => ?_, h.holds, h.alone, fun f hf => ?_, h.free,
      h.once⟩
    · obtain ⟨hle, -, hchecked, hmem⟩ := h.waits i t a ht ha
      obtain ⟨c, hc, rfl⟩ := Option.map_eq_some_iff.mp ht
      exact ⟨hle.trans (Nat.le_add_right _ _), hprompt i c a hc ha, hchecked, hmem⟩
    · obtain ⟨hto, hchecked, hmem, ts, hle, hkept⟩ := h.logged f hf
      exact ⟨hto, hchecked, hmem, ts, hle,
        hkept.imp_right fun hold => hold.trans (Nat.le_add_right _ _)⟩
  | connect =>
    unfold Relay.connect
    split
    · exact ⟨h.bounded, h.nodup, h.waits, h.holds, h.alone, h.logged, h.free, h.once⟩
    · have hnew := h.setConn (i := r.nextConnId) (c := .new r.now) (.inl rfl)
      exact ⟨hnew.bounded, hnew.nodup, hnew.waits, hnew.holds, hnew.alone, hnew.logged, hnew.free,
        hnew.once⟩
  | rejected => exact ⟨h.bounded, h.nodup, h.waits, h.holds, h.alone, h.logged, h.free, h.once⟩
  | frame hc hidle =>
    rename_i i c frame
    have hafter : (handleFrame env r.now r.subs i c frame).2.task.After env r.now :=
      handleFrame_after hidle frame
    unfold receive
    generalize handleFrame env r.now r.subs i c frame = done at hafter ⊢
    refine h.tasks rfl rfl rfl (List.subset_append_right _ _) fun j t a ht ha => ?_
    change (Relay.setConn r i (some done.2)).taskOf j = some t at ht
    rw [taskOf_setConn] at ht
    split at ht
    · obtain rfl := Option.some.inj ht
      rcases hafter with hidle' | hleaving | ⟨b, hb, hat, hchecked⟩
      · rw [hidle'] at ha
        cases ha
      · rw [hleaving] at ha
        cases ha
      · rw [hb] at ha ⊢
        obtain rfl := Option.some.inj ha
        refine .inr ⟨rfl, hat, hchecked, List.mem_append_left _ ?_⟩
        rw [hb]
        exact List.mem_singleton_self _
    · exact .inl ⟨t, ht, ha, rfl⟩
  | advance hc => exact h.advance hsha hc
  | quit hc hidle => exact h.setConn (.inl rfl)
  | drain hc => exact h.setConn (.inr (by rw [taskOf, hc]; rfl))
  | writerDies hc => exact h.setConn (.inr (by rw [taskOf, hc]; rfl))

/-- As long as no two ids collide. -/
def Sound (env : Env K R F) (r : Relay F) : Prop :=
  NoCollision env r.attempted → Core env r

theorem Sound.step {op : RelayOp F} (h : Sound env r) (hstep : Step env r op r') : Sound env r' :=
  fun hsha => (h (hsha.mono hstep.attempted)).step (hsha.mono hstep.attempted) hstep

theorem run_sound {ops : List (RelayOp F)} (h : Run (Step env) new ops r) : Sound env r :=
  h.history (fun _ => core_new) fun _ _ _ _ hsound hstep => Sound.step hsound hstep

/-- In every run no event is forwarded twice, however often and by whomever it is sent: its id stays
reserved until the event is too old to be taken. What is forwarded has passed the checks and goes to
the one it names, and the reservations stay within their bound. -/
theorem forwarded_once {ops : List (RelayOp F)} (h : Run (Step env) new ops r)
    (hsha : NoCollision env r.attempted) :
    (r.forwarded.map fun f => f.attempt.idBytes).Nodup ∧
      (∀ f ∈ r.forwarded, f.sub.pValue = f.attempt.pValue ∧ f.attempt.Checked env) ∧
      r.seenIds.length ≤ DEDUP_CAP := by
  have hcore := run_sound h hsha
  refine ⟨hcore.once, fun f hf => ?_, hcore.bounded⟩
  obtain ⟨hto, hchecked, -⟩ := hcore.logged f hf
  exact ⟨hto, hchecked⟩

/-- A hash and a signature scheme that take everything for zeros. -/
def zeroHash : Env Unit Unit FloatText where
  externals :=
    { float := fun _ => none
      jsonError := id
      publicKey := fun _ => HexId.ofNat 64 0
      publicKeyFromHex := fun _ => .error ""
      fromBech32 := fun _ => none
      hasXonly := fun _ => true
      signSchnorr := fun _ _ _ => HexId.ofNat 128 0
      verifySchnorr := fun _ _ _ => true }
  format := floatText
  sha256 := fun _ => HexId.ofNat 64 0
  epoch := 0

def zeros (n : ℕ) : Value FloatText :=
  .string (String.ofList (List.replicate n '0'))

def greeting : Value FloatText :=
  .object [("id", zeros 64), ("pubkey", zeros 64), ("created_at", .number (.posInt 0)),
    ("kind", .number (.posInt 24134)), ("tags", .array [.array [.string "p", zeros 64]]),
    ("content", .string leastContent), ("sig", zeros 128)]

def subscription : Value FloatText :=
  .array [.string "REQ", .string "s", .object [("#p", .array [zeros 64])]]

/-- One connection has subscribed, and another has sent the event. -/
def greeted : Relay FloatText :=
  (new.connect.connect.receive zeroHash 0 (.new 0) (.text (some subscription))).receive
    zeroHash 1 (.new 0) (.text (some (.array [.string "EVENT", greeting])))

/-- The task of a connection takes its next lock, if there is one. -/
def proceed (r : Relay F) (i : ℕ) : Relay F :=
  match r.conns i with
  | some c => r.advance i c.task
  | none => r

theorem Step.proceed {i : ℕ} (h : (r.conns i).isSome = true) :
    Step env r (.advance i) (r.proceed i) := by
  obtain ⟨c, hc⟩ := Option.isSome_iff_exists.mp h
  rw [Relay.proceed, hc]
  exact .advance hc

theorem greeted_run : ∃ ops, Run (Step zeroHash) new ops ((greeted.proceed 1).proceed 1) :=
  ⟨_, (((((Run.nil.snoc .connect).snoc .connect).snoc (.frame rfl rfl)).snoc (.frame rfl rfl)).snoc
    (.proceed (by decide +kernel))).snoc (.proceed (by decide +kernel))⟩

theorem forwarded_once_greeting : ((greeted.proceed 1).proceed 1).forwarded.length = 1 ∧
    (((greeted.proceed 1).proceed 1).forwarded.map fun f => f.attempt.idBytes).Nodup := by
  obtain ⟨ops, hrun⟩ := greeted_run
  have hone : ((greeted.proceed 1).proceed 1).attempted.length = 1 := by decide +kernel
  have hsha : NoCollision zeroHash ((greeted.proceed 1).proceed 1).attempted := by
    obtain ⟨ev, hev⟩ := List.length_eq_one_iff.mp hone
    rw [hev]
    intro e he e' he' v v' hv hv' _
    rw [List.mem_singleton.mp he] at hv
    rw [List.mem_singleton.mp he', hv] at hv'
    exact Except.ok.inj hv'
  exact ⟨by decide +kernel, (forwarded_once hrun hsha).1⟩

end Relay

end Buzz.PairRelay
