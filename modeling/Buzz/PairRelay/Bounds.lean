import Buzz.PairRelay.Forwarding

namespace Buzz.PairRelay
set_option autoImplicit true
open Json GitSign

variable {F : Type}

/-- When events were sent to a key, against the count that is kept of them. -/
structure Paced (sends : List ℕ) (now : ℕ) (entry : Option (ℕ × ℕ)) : Prop where
  window : ∀ t, sends.countP (fun x => t ≤ x ∧ x < t + ENTRY_TTL) ≤ MAX_DELIVERED_PER_P
  known : ∀ n ts, entry = some (n, ts) → ts ≤ now ∧ (∀ x ∈ sends, x ≤ ts) ∧
    sends.countP (fun x => ts < x + ENTRY_TTL) ≤ n
  -- A count is dropped when all that it counted is too old to matter.
  unknown : entry = none → ∀ x ∈ sends, x + ENTRY_TTL ≤ now

namespace Paced

variable {sends : List ℕ} {now : ℕ} {entry : Option (ℕ × ℕ)}

theorem nil (now : ℕ) : Paced [] now none where
  window _ := Nat.zero_le _
  known n ts h := by cases h
  unknown _ x hx := absurd hx List.not_mem_nil

theorem later (h : Paced sends now entry) (hle : now ≤ now') : Paced sends now' entry where
  window := h.window
  known n ts he := by
    obtain ⟨hts, hknown⟩ := h.known n ts he
    exact ⟨hts.trans hle, hknown⟩
  unknown he x hx := (h.unknown he x hx).trans hle

theorem evict (h : Paced sends now entry) :
    Paced sends now (entry.filter fun e => decide (now - e.2 < ENTRY_TTL)) where
  window := h.window
  known n ts he := h.known n ts (Option.filter_eq_some_iff.mp he).1
  unknown he x hx := by
    cases hentry : entry with
    | none => exact h.unknown hentry x hx
    | some e =>
      obtain ⟨hts, hlast, -⟩ := h.known e.1 e.2 hentry
      have hle := hlast x hx
      have hold : ¬ now - e.2 < ENTRY_TTL := fun hlive => by
        rw [hentry, Option.filter_some, if_pos (decide_eq_true hlive)] at he
        cases he
      omega

/-- All that may be in a window with what is sent now has been counted. -/
theorem recent (h : Paced sends now entry) :
    sends.countP (fun x => now < x + ENTRY_TTL) ≤ (entry.map Prod.fst).getD 0 := by
  cases hentry : entry with
  | none =>
    refine (List.countP_eq_zero.mpr fun x hx => ?_).le
    have hold := h.unknown hentry x hx
    exact fun hlive => absurd (of_decide_eq_true hlive) (Nat.not_lt.mpr hold)
  | some e =>
    obtain ⟨hts, -, hcount⟩ := h.known e.1 e.2 hentry
    refine (List.countP_mono_left fun x _ hx => ?_).trans hcount
    exact decide_eq_true (hts.trans_lt (of_decide_eq_true hx))

theorem send (h : Paced sends now entry) (hlt : (entry.map Prod.fst).getD 0 < MAX_DELIVERED_PER_P) :
    Paced (sends ++ [now]) now (some ((entry.map Prod.fst).getD 0 + 1, now)) where
  window t := by
    rw [List.countP_append, List.countP_singleton]
    split
    · rename_i hin
      have hnow := of_decide_eq_true hin
      have hle : sends.countP (fun x => t ≤ x ∧ x < t + ENTRY_TTL) ≤
          sends.countP (fun x => now < x + ENTRY_TTL) :=
        List.countP_mono_left fun x _ hx => by
          have hx := of_decide_eq_true hx
          exact decide_eq_true (by omega)
      have hrecent := h.recent
      omega
    · exact h.window t
  known n ts he := by
    obtain ⟨rfl, rfl⟩ := Prod.mk.inj (Option.some.inj he)
    refine ⟨le_refl _, fun x hx => ?_, ?_⟩
    · rcases List.mem_append.mp hx with hx | hx
      · cases hentry : entry with
        | none =>
          have hold := h.unknown hentry x hx
          omega
        | some e =>
          obtain ⟨hts, hlast, -⟩ := h.known e.1 e.2 hentry
          exact (hlast x hx).trans hts
      · exact (List.mem_singleton.mp hx).le
    · rw [List.countP_append, List.countP_singleton]
      have hrecent := h.recent
      split <;> omega
  unknown he := by cases he

end Paced

structure Conn.Bounded (c : Conn F) : Prop where
  queue : c.queue.length ≤ CHANNEL_CAP
  attempted : c.eventsAttempted ≤ MAX_EVENTS_PER_CONN

namespace Conn

theorem trySend_subId (c : Conn F) (msg : OutMsg F) : (c.trySend msg).1.subId = c.subId := by
  unfold trySend
  split <;> rfl

theorem Bounded.trySend {c : Conn F} (h : c.Bounded) (msg : OutMsg F) :
    (c.trySend msg).1.Bounded := by
  unfold Conn.trySend
  split
  · rename_i hroom
    have hlt := of_decide_eq_true (Bool.and_eq_true_iff.mp hroom).2
    refine ⟨?_, h.attempted⟩
    rw [List.length_append, List.length_singleton]
    exact hlt
  · exact h

end Conn

/-- What a frame makes of the subscriptions, and of the connection that had this one before. -/
inductive Registers (i : ℕ) (subs : List Sub) (was : Option String) : List Sub × Conn F → Prop where
  | same {c : Conn F} (hbounded : c.Bounded) (hsub : c.subId = was) : Registers i subs was (subs, c)
  | opened {c : Conn F} {s : Sub} (hbounded : c.Bounded) (hwas : was = none) (hconn : s.connId = i)
      (hsub : c.subId = some s.subId) (hfree : ∀ t ∈ subs, t.pValue ≠ s.pValue) :
      Registers i subs was (subs ++ [s], c)
  | closed {c : Conn F} (hbounded : c.Bounded) (hsub : c.subId = none) :
      Registers i subs was (subs.filter fun s => s.connId ≠ i, c)

section Handlers

variable {K R : Type} {env : Env K R F} {c : Conn F} {subs : List Sub} {i now : ℕ}

theorem registers_reply (h : c.Bounded) (v : Value F) :
    Registers i subs c.subId (subs, c.reply v) :=
  .same (h.trySend _) (c.trySend_subId _)

theorem handleReq_registers (h : c.Bounded) (arr : List (Value F)) :
    Registers i subs c.subId (handleReq subs i c arr) := by
  unfold handleReq
  split
  · simp only
    split
    · exact registers_reply h _
    split
    · exact registers_reply h _
    split
    · exact registers_reply h _
    split
    · exact registers_reply h _
    rename_i hnone
    split
    · exact registers_reply h _
    split
    · exact registers_reply h _
    rename_i hfree
    split
    · refine .opened ⟨(h.trySend _).queue, (h.trySend _).attempted⟩
        (Option.not_isSome_iff_eq_none.mp hnone) rfl rfl fun t ht hp => ?_
      exact hfree (List.any_eq_true.mpr ⟨t, ht, decide_eq_true hp⟩)
    · exact .same ⟨(h.trySend _).queue, (h.trySend _).attempted⟩ (c.trySend_subId _)
  · exact registers_reply h _

theorem handleEvent_registers (h : c.Bounded) (arr : List (Value F)) :
    Registers i subs c.subId (subs, handleEvent env now c arr) := by
  have hreply : ∀ v, Registers i subs c.subId
      (subs, Conn.reply { c with eventRate := c.eventRate.tick now } v) := fun v =>
    registers_reply (c := { c with eventRate := c.eventRate.tick now }) ⟨h.queue, h.attempted⟩ v
  unfold handleEvent
  split
  · simp only
    split
    · exact hreply _
    split
    · exact hreply _
    rename_i hlt
    split
    · exact hreply _
    split
    · exact hreply _
    split
    · exact hreply _
    · exact .same ⟨h.queue, Nat.not_le.mp hlt⟩ rfl
  · exact registers_reply h _

theorem handleFrame_registers (h : c.Bounded) (frame : InFrame F) :
    Registers i subs c.subId (handleFrame env now subs i c frame) := by
  have htick : ({ c with msgRate := c.msgRate.tick now } : Conn F).Bounded :=
    ⟨h.queue, h.attempted⟩
  have hsub : ({ c with msgRate := c.msgRate.tick now } : Conn F).subId = c.subId := rfl
  unfold handleFrame
  simp only
  rw [← hsub]
  generalize ({ c with msgRate := c.msgRate.tick now } : Conn F) = c at htick ⊢
  have hleave : Registers i subs c.subId (subs, c.leave) := .same ⟨htick.queue, htick.attempted⟩ rfl
  have hsent : ∀ msg, Registers i subs c.subId (subs, (c.trySend msg).1.leave) := fun msg =>
    .same ⟨(htick.trySend msg).queue, (htick.trySend msg).attempted⟩ (c.trySend_subId msg)
  split
  · exact hleave
  split
  · exact hleave
  · exact hleave
  · split
    · exact .same (htick.trySend _) (c.trySend_subId _)
    · exact hsent _
  · exact .same htick rfl
  · exact hsent _
  · unfold handleText
    split
    · split
      · exact registers_reply htick _
      · exact handleReq_registers htick _
      · exact handleEvent_registers htick _
      · unfold handleClose
        split
        · split
          · exact .closed ⟨htick.queue, htick.attempted⟩ rfl
          · exact .same htick rfl
        · exact registers_reply htick _
      · exact registers_reply htick _
    · exact registers_reply htick _

end Handlers

namespace Relay

variable {K R : Type} {env : Env K R F} {r r' : Relay F} {i : ℕ} {c c' : Conn F}

/-- When events were forwarded to a key. -/
def sends (r : Relay F) (p : HexId 64) : List ℕ :=
  (r.forwarded.filter fun f => f.attempt.pValue = p).map Forward.sentAt

/-- What the relay has in use. -/
structure Bounded (r : Relay F) : Prop where
  slots : ∃ live : Finset ℕ, (∀ i, i ∈ live ↔ (r.conns i).isSome = true) ∧
    live.card + r.rejecting = r.connCount ∧ live.card ≤ MAX_CONNS ∧ ∀ i ∈ live, i < r.nextConnId
  conns : ∀ i c, r.conns i = some c → c.Bounded
  registered : ∀ s ∈ r.subs, ∃ c, r.conns s.connId = some c ∧ c.subId = some s.subId
  -- A connection has one subscription, and a key one subscriber.
  single : (r.subs.map Sub.connId).Nodup
  unique : (r.subs.map Sub.pValue).Nodup
  reserved : r.seenIds.length ≤ DEDUP_CAP
  budgets : r.delivered.entries.length ≤ DELIVERED_MAP_CAP

theorem bounded_new : (new : Relay F).Bounded where
  slots := ⟨∅, fun i => iff_of_false (Finset.notMem_empty i) Bool.false_ne_true, rfl,
    Nat.zero_le _, fun i hi => absurd hi (Finset.notMem_empty i)⟩
  conns i c h := by cases h
  registered s hs := absurd hs List.not_mem_nil
  single := List.nodup_nil
  unique := List.nodup_nil
  reserved := Nat.zero_le _
  budgets := Nat.zero_le _

/-- An open connection is replaced, with the subscriptions that go with it. -/
theorem Bounded.replace {subs : List Sub} (h : r.Bounded) (hc : r.conns i = some c)
    (hregisters : Registers i r.subs c.subId (subs, c')) :
    Bounded { r.setConn i (some c') with subs } := by
  have hbounded : c'.Bounded := by cases hregisters <;> assumption
  have hother : ∀ {s : Sub}, s.connId ≠ i → s ∈ r.subs →
      ∃ c₁, (r.setConn i (some c')).conns s.connId = some c₁ ∧ c₁.subId = some s.subId := by
    intro s hne hs
    obtain ⟨c₁, hc₁, hsub⟩ := h.registered s hs
    exact ⟨c₁, (Function.update_of_ne hne _ _).trans hc₁, hsub⟩
  refine ⟨?_, fun j d hd => ?_, ?_, ?_, ?_, h.reserved, h.budgets⟩
  · obtain ⟨live, hlive, hrest⟩ := h.slots
    refine ⟨live, fun j => (hlive j).trans ?_, hrest⟩
    change _ ↔ (Function.update r.conns i (some c') j).isSome = true
    rw [Function.update_apply]
    split
    · rename_i hj
      rw [hj, hc]
      exact iff_of_true rfl rfl
    · rfl
  · change Function.update r.conns i (some c') j = some d at hd
    rw [Function.update_apply] at hd
    split at hd
    · obtain rfl := Option.some.inj hd
      exact hbounded
    · exact h.conns j d hd
  · intro s hs
    have hself : (r.setConn i (some c')).conns i = some c' := Function.update_self _ _ _
    cases hregisters with
    | same _ hsub =>
      by_cases hi : s.connId = i
      · obtain ⟨c₁, hc₁, hsub₁⟩ := h.registered s hs
        rw [hi, hc] at hc₁
        obtain rfl := Option.some.inj hc₁
        exact ⟨c', hi ▸ hself, hsub.trans hsub₁⟩
      · exact hother hi hs
    | opened _ hwas hconn hsub hfree =>
      rcases List.mem_append.mp hs with hs | hs
      · refine hother (fun hi => ?_) hs
        obtain ⟨c₁, hc₁, hsub₁⟩ := h.registered s hs
        rw [hi, hc] at hc₁
        obtain rfl := Option.some.inj hc₁
        rw [hwas] at hsub₁
        cases hsub₁
      · rw [List.mem_singleton.mp hs]
        exact ⟨c', hconn ▸ hself, hsub⟩
    | closed _ hsub =>
      obtain ⟨hs, hne⟩ := List.mem_filter.mp hs
      exact hother (of_decide_eq_true hne) hs
  · cases hregisters with
    | same _ _ => exact h.single
    | opened _ hwas hconn _ _ =>
      rw [List.map_append, List.map_singleton]
      refine List.nodup_append.mpr ⟨h.single, List.nodup_singleton _, fun x hx y hy hxy => ?_⟩
      obtain ⟨s, hs, rfl⟩ := List.mem_map.mp hx
      obtain ⟨c₁, hc₁, hsub₁⟩ := h.registered s hs
      rw [hxy, List.mem_singleton.mp hy, hconn, hc] at hc₁
      obtain rfl := Option.some.inj hc₁
      rw [hwas] at hsub₁
      cases hsub₁
    | closed _ _ => exact h.single.sublist (List.filter_sublist.map _)
  · cases hregisters with
    | same _ _ => exact h.unique
    | opened _ _ _ _ hfree =>
      rw [List.map_append, List.map_singleton]
      refine List.nodup_append.mpr ⟨h.unique, List.nodup_singleton _, fun x hx y hy => ?_⟩
      obtain ⟨s, hs, rfl⟩ := List.mem_map.mp hx
      rw [List.mem_singleton.mp hy]
      exact hfree s hs
    | closed _ _ => exact h.unique.sublist (List.filter_sublist.map _)

theorem Bounded.setConn (h : r.Bounded) (hc : r.conns i = some c) (hbounded : c'.Bounded)
    (hsub : c'.subId = c.subId) : (r.setConn i (some c')).Bounded :=
  h.replace hc (.same hbounded hsub)

theorem Bounded.withTask (h : r.Bounded) (i : ℕ) (task : Task F) (answer : Option (Value F)) :
    (r.withTask i task answer).Bounded := by
  unfold Relay.withTask
  cases hc : r.conns i with
  | none => exact h
  | some c =>
    have hbounded : ({ c with task } : Conn F).Bounded :=
      ⟨(h.conns i c hc).queue, (h.conns i c hc).attempted⟩
    cases answer with
    | none => exact h.setConn hc hbounded rfl
    | some v => exact h.setConn hc (hbounded.trySend _) (Conn.trySend_subId _ _)

theorem Bounded.reserve (h : r.Bounded) (id : HexId 64) : (r.reserveId id).1.Bounded := by
  have hevict : r.liveIds.length ≤ DEDUP_CAP := List.filter_sublist.length_le.trans h.reserved
  have hwith : ∀ seenIds : List (HexId 64 × ℕ), seenIds.length ≤ DEDUP_CAP →
      Bounded { r with seenIds } := fun seenIds hle =>
    ⟨h.slots, h.conns, h.registered, h.single, h.unique, hle, h.budgets⟩
  unfold reserveId
  split
  · exact hwith _ hevict
  · split
    · exact hwith _ hevict
    · rename_i hroom
      refine hwith _ ?_
      rw [List.length_append, List.length_singleton]
      exact Nat.not_le.mp hroom

theorem Bounded.unreserve (h : r.Bounded) (id : HexId 64) : (r.unreserveId id).Bounded := by
  have hsub := (r.unreserveId_kept id).2.2.2.2.1
  have hle := hsub.length_le.trans h.reserved
  unfold unreserveId at hle ⊢
  split
  · rename_i pos hpos
    rw [hpos] at hle
    exact ⟨h.slots, h.conns, h.registered, h.single, h.unique, hle, h.budgets⟩
  · exact h

theorem length_insert_le {t : Table (HexId 64) (ℕ × ℕ)} {p : HexId 64} {e : ℕ × ℕ}
    (h : t.entries.length < n ∨ (t.lookup p).isSome = true) (hle : t.entries.length ≤ n) :
    (t.insert p e).entries.length ≤ n := by
  cases hp : t.lookup p with
  | none =>
    rw [AList.entries_insert_of_notMem (AList.lookup_eq_none.mp hp), List.length_cons]
    refine h.resolve_right fun hsome => ?_
    rw [hp] at hsome
    cases hsome
  | some v =>
    have hlen := (Table.perm_insert_lookup hp).length_eq
    rw [AList.entries_insert, List.length_cons] at hlen ⊢
    exact hlen ▸ hle

theorem Bounded.deliver (h : r.Bounded) (a : Attempt F) : (r.deliverSingle a).1.Bounded := by
  have hlive : r.liveBudgets.entries.length ≤ DELIVERED_MAP_CAP :=
    List.filter_sublist.length_le.trans h.budgets
  rcases r.deliverSingle_cases a with ⟨sub, hsub, c, hp, hc, -, hroom, heq⟩ | ⟨d, res, hd, -, heq⟩
  · rw [heq]
    have hsent := h.setConn hc ((h.conns _ c hc).trySend (.text (.array [.string "EVENT",
      .string sub.subId, a.event]))) (c.trySend_subId _)
    exact ⟨hsent.slots, hsent.conns, hsent.registered, hsent.single, hsent.unique, hsent.reserved,
      length_insert_le hroom hlive⟩
  · rw [heq]
    refine ⟨h.slots, h.conns, h.registered, h.single, h.unique, h.reserved, ?_⟩
    rcases hd with rfl | rfl
    · exact h.budgets
    · exact hlive

theorem Bounded.leave (h : r.Bounded) (hc : r.conns i = some c) :
    (r.advance i (.leaving : Task F)).Bounded := by
  refine ⟨?_, fun j d hd => ?_, fun s hs => ?_, h.single.sublist (List.filter_sublist.map _),
    h.unique.sublist (List.filter_sublist.map _), h.reserved, h.budgets⟩
  · obtain ⟨live, hlive, hcount, hmax, hnext⟩ := h.slots
    have hi : i ∈ live := (hlive i).mpr (by rw [hc]; rfl)
    have hcard := Finset.card_erase_add_one hi
    refine ⟨live.erase i, fun j => ?_, ?_, by omega,
      fun j hj => hnext j (Finset.mem_of_mem_erase hj)⟩
    · change _ ↔ (Function.update r.conns i none j).isSome = true
      rw [Function.update_apply, Finset.mem_erase, hlive]
      split
      · rename_i hj
        exact iff_of_false (fun hboth => hboth.1 hj) Bool.false_ne_true
      · rename_i hj
        exact and_iff_right hj
    · change (live.erase i).card + r.rejecting = r.connCount - 1
      omega
  · change Function.update r.conns i none j = some d at hd
    rw [Function.update_apply] at hd
    split at hd
    · cases hd
    · exact h.conns j d hd
  · obtain ⟨hs, hne⟩ := List.mem_filter.mp hs
    obtain ⟨d, hd, hsub⟩ := h.registered s hs
    exact ⟨d, (Function.update_of_ne (of_decide_eq_true hne) _ _).trans hd, hsub⟩

theorem Bounded.advance (h : r.Bounded) (hc : r.conns i = some c) (task : Task F) :
    (r.advance i task).Bounded := by
  cases task with
  | idle => exact h
  | verified a =>
    simp only [Relay.advance]
    split <;> exact (h.reserve _).withTask _ _ _
  | reserved a =>
    simp only [Relay.advance]
    split <;> exact (h.deliver a).withTask _ _ _
  | refused a reason =>
    simp only [Relay.advance]
    exact (h.unreserve _).withTask _ _ _
  | leaving => exact h.leave hc

theorem Bounded.connect (h : r.Bounded) : r.connect.Bounded := by
  obtain ⟨live, hlive, hcount, hmax, hnext⟩ := h.slots
  unfold Relay.connect
  split
  · refine ⟨⟨live, hlive, ?_, hmax, hnext⟩, h.conns, h.registered, h.single, h.unique, h.reserved,
      h.budgets⟩
    change live.card + (r.rejecting + 1) = r.connCount + 1
    omega
  · rename_i hroom
    have hfresh : r.nextConnId ∉ live := fun hmem => lt_irrefl _ (hnext _ hmem)
    have hcard := Finset.card_insert_of_notMem hfresh
    refine ⟨⟨insert r.nextConnId live, fun j => ?_, ?_, by omega, fun j hj => ?_⟩, fun j d hd => ?_,
      fun s hs => ?_, h.single, h.unique, h.reserved, h.budgets⟩
    · change _ ↔ (Function.update r.conns r.nextConnId (some (.new r.now)) j).isSome = true
      rw [Function.update_apply, Finset.mem_insert, hlive]
      split
      · rename_i hj
        exact iff_of_true (.inl hj) rfl
      · rename_i hj
        exact or_iff_right hj
    · change (insert r.nextConnId live).card + r.rejecting = r.connCount + 1
      omega
    · change j < r.nextConnId + 1
      rcases Finset.mem_insert.mp hj with rfl | hj
      · exact Nat.lt_succ_self _
      · exact Nat.lt_succ_of_lt (hnext j hj)
    · change Function.update r.conns r.nextConnId (some (.new r.now)) j = some d at hd
      rw [Function.update_apply] at hd
      split at hd
      · obtain rfl := Option.some.inj hd
        exact ⟨Nat.zero_le _, Nat.zero_le _⟩
      · exact h.conns j d hd
    · obtain ⟨d, hd, hsub⟩ := h.registered s hs
      have hne : s.connId ≠ r.nextConnId := by
        intro he
        rw [he] at hd
        exact hfresh ((hlive _).mpr (by rw [hd]; rfl))
      exact ⟨d, (Function.update_of_ne hne _ _).trans hd, hsub⟩

theorem Bounded.step {op : RelayOp F} (h : r.Bounded) (hstep : Step env r op r') : r'.Bounded := by
  cases hstep with
  | tick => exact ⟨h.slots, h.conns, h.registered, h.single, h.unique, h.reserved, h.budgets⟩
  | connect => exact h.connect
  | rejected hpos =>
    obtain ⟨live, hlive, hcount, hmax, hnext⟩ := h.slots
    refine ⟨⟨live, hlive, ?_, hmax, hnext⟩, h.conns, h.registered, h.single, h.unique, h.reserved,
      h.budgets⟩
    change live.card + (r.rejecting - 1) = r.connCount - 1
    omega
  | frame hc hidle =>
    rename_i i c frame
    have hregisters : Registers i r.subs c.subId (handleFrame env r.now r.subs i c frame) :=
      handleFrame_registers (h.conns i c hc) frame
    unfold receive
    generalize handleFrame env r.now r.subs i c frame = done at hregisters ⊢
    obtain ⟨subs, c'⟩ := done
    have hdone := h.replace hc hregisters
    exact ⟨hdone.slots, hdone.conns, hdone.registered, hdone.single, hdone.unique, hdone.reserved,
      hdone.budgets⟩
  | advance hc => exact h.advance hc _
  | quit hc hidle =>
    have hbounded := h.conns _ _ hc
    exact h.setConn hc ⟨hbounded.queue, hbounded.attempted⟩ rfl
  | drain hc =>
    have hbounded := h.conns _ _ hc
    refine h.setConn hc ⟨?_, hbounded.attempted⟩ rfl
    exact List.length_tail.le.trans ((Nat.sub_le _ _).trans hbounded.queue)
  | writerDies hc =>
    have hbounded := h.conns _ _ hc
    exact h.setConn hc ⟨hbounded.queue, hbounded.attempted⟩ rfl

/-- The budget of each key counts what was forwarded to it. -/
def OnBudget (r : Relay F) : Prop :=
  ∀ p, Paced (r.sends p) r.now (r.delivered.lookup p)

/-- What is forwarded and the budgets are as they were. -/
theorem OnBudget.same (h : r.OnBudget) (hlog : r'.forwarded = r.forwarded)
    (hnow : r.now ≤ r'.now) (hmap : r'.delivered = r.delivered) : r'.OnBudget := by
  intro p
  rw [sends, hlog, hmap]
  exact (h p).later hnow

theorem OnBudget.deliver (h : r.OnBudget) (a : Attempt F) : (r.deliverSingle a).1.OnBudget := by
  have hlive : ∀ p, Paced (r.sends p) r.now (r.liveBudgets.lookup p) := fun p => by
    rw [liveBudgets, Table.lookup_retain]
    exact (h p).evict
  intro p
  rcases r.deliverSingle_cases a with ⟨sub, -, c, -, -, hlt, -, heq⟩ | ⟨d, res, hd, -, heq⟩
  · rw [heq]
    change Paced (((r.forwarded ++ [(⟨a, sub, r.now⟩ : Forward F)]).filter
      fun f : Forward F => f.attempt.pValue = p).map Forward.sentAt) r.now
      ((r.liveBudgets.insert a.pValue (r.spent a.pValue + 1, r.now)).lookup p)
    rw [List.filter_append, List.map_append]
    by_cases hp : a.pValue = p
    · subst hp
      rw [AList.lookup_insert, List.filter_cons_of_pos (by simp), List.filter_nil]
      exact (hlive _).send hlt
    · rw [AList.lookup_insert_ne (Ne.symm hp), List.filter_cons_of_neg (by simpa using hp),
        List.filter_nil, List.map_nil, List.append_nil]
      exact hlive p
  · rw [heq]
    rcases hd with rfl | rfl
    · exact h p
    · exact hlive p

theorem withTask_delivered (r : Relay F) (i : ℕ) (task : Task F) (answer : Option (Value F)) :
    (r.withTask i task answer).delivered = r.delivered := by
  unfold Relay.withTask
  split <;> rfl

theorem OnBudget.withTask (h : r.OnBudget) (i : ℕ) (task : Task F) (answer : Option (Value F)) :
    (r.withTask i task answer).OnBudget :=
  h.same (r.withTask_kept i task answer).2.2.1 (r.withTask_kept i task answer).1.ge
    (r.withTask_delivered i task answer)

theorem OnBudget.reserve (h : r.OnBudget) (id : HexId 64) : (r.reserveId id).1.OnBudget := by
  unfold reserveId
  split
  · exact h.same rfl (le_refl _) rfl
  · split <;> exact h.same rfl (le_refl _) rfl

theorem OnBudget.unreserve (h : r.OnBudget) (id : HexId 64) : (r.unreserveId id).OnBudget := by
  unfold unreserveId
  split
  · exact h.same rfl (le_refl _) rfl
  · exact h

theorem OnBudget.advance (h : r.OnBudget) (i : ℕ) (task : Task F) :
    (r.advance i task).OnBudget := by
  cases task with
  | idle => exact h
  | verified a =>
    simp only [Relay.advance]
    split <;> exact (h.reserve _).withTask _ _ _
  | reserved a =>
    simp only [Relay.advance]
    split <;> exact (h.deliver a).withTask _ _ _
  | refused a reason =>
    simp only [Relay.advance]
    exact (h.unreserve _).withTask _ _ _
  | leaving => exact h.same rfl (le_refl _) rfl

theorem OnBudget.step {op : RelayOp F} (h : r.OnBudget) (hstep : Step env r op r') :
    r'.OnBudget := by
  cases hstep with
  | tick => exact h.same rfl (Nat.le_add_right _ _) rfl
  | connect =>
    unfold Relay.connect
    split <;> exact h.same rfl (le_refl _) rfl
  | advance hc => exact h.advance _ _
  | rejected => exact h.same rfl (le_refl _) rfl
  | frame => exact h.same rfl (le_refl _) rfl
  | quit => exact h.same rfl (le_refl _) rfl
  | drain => exact h.same rfl (le_refl _) rfl
  | writerDies => exact h.same rfl (le_refl _) rfl

theorem run_bounded {ops : List (RelayOp F)} (h : Run (Step env) new ops r) : r.Bounded :=
  h.history bounded_new fun _ _ _ _ hbounded hstep => Bounded.step hbounded hstep

theorem run_onBudget {ops : List (RelayOp F)} (h : Run (Step env) new ops r) : r.OnBudget :=
  h.history (fun _ => .nil 0) fun _ _ _ _ honBudget hstep => OnBudget.step honBudget hstep

/-- In every run the relay stays within its bounds, and no key is sent more events than its budget
in any span of the time after which a budget expires. -/
theorem resources_bounded {ops : List (RelayOp F)} (h : Run (Step env) new ops r) :
    r.Bounded ∧ ∀ p t, (r.sends p).countP (fun x => t ≤ x ∧ x < t + ENTRY_TTL) ≤
      MAX_DELIVERED_PER_P :=
  ⟨run_bounded h, fun p => (run_onBudget h p).window⟩

theorem resources_bounded_greeting : ((greeted.proceed 1).proceed 1).Bounded ∧
    ((greeted.proceed 1).proceed 1).sends (HexId.ofNat 64 0) = [0] := by
  obtain ⟨ops, hrun⟩ := greeted_run
  exact ⟨(resources_bounded hrun).1, by decide +kernel⟩

end Relay

end Buzz.PairRelay
