import Buzz.ReadState.PublishContexts
import Buzz.ReadState.Steps

namespace Buzz.ReadState
set_option autoImplicit true

namespace Manager

variable {k : String} {m m' m'' : Manager} {c : Client}

/-- A context is kept, with no smaller timestamp. -/
structure Keeps (k : String) (m m' : Manager) : Prop where
  destroyed : m'.destroyed = m.destroyed
  merges : m'.merges = m.merges
  timestamp : ∀ v, m.effectiveState.lookup k = some v →
    ∃ v', v ≤ v' ∧ m'.effectiveState.lookup k = some v'
  publishable : k ∈ m.publishableContextIds → k ∈ m'.publishableContextIds

/-- Nothing is published. -/
structure Reads (k : String) (m m' : Manager) : Prop extends Keeps k m m' where
  published : m'.lastPublishedContexts = m.lastPublishedContexts

theorem Keeps.of_eq (hdestroyed : m'.destroyed = m.destroyed) (hmerges : m'.merges = m.merges)
    (hstate : m'.effectiveState = m.effectiveState)
    (hids : m'.publishableContextIds = m.publishableContextIds) : Keeps k m m' := by
  refine ⟨hdestroyed, hmerges, fun v hv => ⟨v, le_rfl, ?_⟩, fun h => ?_⟩
  · rw [hstate]
    exact hv
  · rw [hids]
    exact h

theorem Reads.refl (m : Manager) : Reads k m m :=
  ⟨.of_eq rfl rfl rfl rfl, rfl⟩

theorem Keeps.trans (h : Keeps k m m') (h' : Keeps k m' m'') : Keeps k m m'' := by
  refine ⟨h'.destroyed.trans h.destroyed, h'.merges.trans h.merges, fun v hv => ?_,
    fun hin => h'.publishable (h.publishable hin)⟩
  obtain ⟨v', hle, hv'⟩ := h.timestamp v hv
  obtain ⟨v'', hle', hv''⟩ := h'.timestamp v' hv'
  exact ⟨v'', hle.trans hle', hv''⟩

theorem Reads.trans (h : Reads k m m') (h' : Reads k m' m'') : Reads k m m'' :=
  ⟨h.toKeeps.trans h'.toKeeps, h'.published.trans h.published⟩

theorem Reads.foldl {f : Manager → α → Manager} (hf : ∀ m a, Reads k m (f m a)) (as : List α)
    (m : Manager) : Reads k m (as.foldl f m) := by
  induction as generalizing m with
  | nil => exact .refl m
  | cons a as ih => exact (hf m a).trans (ih (f m a))

theorem mem_addMember_of_mem {a b : String} {ids : List String} (h : b ∈ ids) :
    b ∈ addMember a ids := by
  rw [addMember]
  split
  · exact h
  · exact List.mem_append_left _ h

theorem addMember_self (a : String) (ids : List String) : a ∈ addMember a ids := by
  rw [addMember]
  split
  · assumption
  · exact List.mem_append_right _ List.mem_cons_self

theorem addPublishable_reads (contextId : String) : Reads k m (m.addPublishable contextId) :=
  ⟨⟨rfl, rfl, fun v hv => ⟨v, le_rfl, hv⟩, mem_addMember_of_mem⟩, rfl⟩

theorem lookup_effective (h : m.effectiveState.lookup k = some v) : m.effective k = v := by
  rw [effective, h]
  rfl

/-- A timestamp may only be replaced by a greater one. -/
theorem insert_timestamp {contextId : String} {v' : ℚ} (hle : m.effective contextId ≤ v')
    (hv : m.effectiveState.lookup k = some v) :
    ∃ w, v ≤ w ∧ (m.effectiveState.insert contextId v').lookup k = some w := by
  by_cases hk : k = contextId
  · subst hk
    rw [lookup_effective hv] at hle
    exact ⟨v', hle, AList.lookup_insert _⟩
  · exact ⟨v, le_rfl, by rw [AList.lookup_insert_ne hk, hv]⟩

theorem setEffective_reads {contextId : String} {v : ℚ} (hle : m.effective contextId ≤ v) :
    Reads k m (m.setEffective contextId v) :=
  ⟨⟨rfl, rfl, fun _ => insert_timestamp hle, id⟩, rfl⟩

theorem advanceContext_reads (contextId : String) (unixTimestamp : ℚ) (publishable : Bool) :
    Reads k m (m.advanceContext contextId unixTimestamp publishable) := by
  rw [advanceContext]
  by_cases hdestroyed : m.destroyed = true
  · rw [if_pos hdestroyed]
    exact .refl m
  · rw [if_neg hdestroyed]
    by_cases hle : unixTimestamp ≤ m.effective contextId
    · rw [if_pos hle]
      cases publishable with
      | false => exact .refl m
      | true => exact addPublishable_reads contextId
    · have hset : Reads k m (m.setEffective contextId unixTimestamp) :=
        setEffective_reads (not_le.mp hle).le
      rw [if_neg hle]
      cases publishable with
      | false => exact hset
      | true => exact hset.trans (addPublishable_reads contextId)

theorem markContextRead_reads (contextId : String) (unixTimestamp : ℚ) (now : ℕ) :
    Reads k m (m.markContextRead contextId unixTimestamp now) := by
  have hreads : Reads k m (m.advanceContext contextId unixTimestamp true) :=
    advanceContext_reads contextId unixTimestamp true
  exact ⟨⟨hreads.destroyed, hreads.merges, hreads.timestamp, hreads.publishable⟩, hreads.published⟩

theorem applyRemoteContextTimestamp_reads (contextId : String) (timestamp : ℚ) (createdAt : ℕ) :
    Reads k m (m.applyRemoteContextTimestamp contextId timestamp createdAt).1 := by
  refine ⟨⟨rfl, rfl, fun v hv => ?_, id⟩, rfl⟩
  have hstate : (m.applyRemoteContextTimestamp contextId timestamp createdAt).1.effectiveState =
      if max (m.effective contextId) timestamp = m.effective contextId then m.effectiveState
      else m.effectiveState.insert contextId (max (m.effective contextId) timestamp) := rfl
  rw [hstate]
  by_cases hnext : max (m.effective contextId) timestamp = m.effective contextId
  · rw [if_pos hnext]
    exact ⟨v, le_rfl, hv⟩
  · rw [if_neg hnext]
    exact insert_timestamp (le_max_left _ _) hv

theorem mergeContext_reads (createdAt : ℕ) (m : Manager) (e : Entry) :
    Reads k m (m.mergeContext createdAt e) := by
  have happlied : Reads k m (m.applyRemoteContextTimestamp e.1 e.2 createdAt).1 :=
    applyRemoteContextTimestamp_reads e.1 e.2 createdAt
  rw [mergeContext]
  generalize m.applyRemoteContextTimestamp e.1 e.2 createdAt = applied at happlied
  obtain ⟨applied, advanced⟩ := applied
  cases advanced with
  | false => exact happlied
  | true =>
    have hpending : Reads k applied (applied.addPending e.1) := ⟨.of_eq rfl rfl rfl rfl, rfl⟩
    exact (happlied.trans hpending).trans (addPublishable_reads e.1)

theorem incomingContext_reads (createdAt : ℕ) (m : Manager) (e : Entry) :
    Reads k m (m.incomingContext createdAt e) := by
  have happlied : Reads k m (m.applyRemoteContextTimestamp e.1 e.2 createdAt).1 :=
    applyRemoteContextTimestamp_reads e.1 e.2 createdAt
  rw [incomingContext]
  generalize m.applyRemoteContextTimestamp e.1 e.2 createdAt = applied at happlied
  obtain ⟨applied, advanced⟩ := applied
  cases advanced with
  | false => exact happlied.trans (addPublishable_reads e.1)
  | true =>
    have hpending : Reads k applied (applied.addPending e.1) := ⟨.of_eq rfl rfl rfl rfl, rfl⟩
    exact (happlied.trans hpending).trans (addPublishable_reads e.1)

theorem noteFetched_reads (createdAt : ℕ) : Reads k m (m.noteFetched createdAt) :=
  ⟨.of_eq rfl rfl rfl rfl, rfl⟩

theorem mergeParsed_reads (parsed : ParsedReadStateEvent) : Reads k m (m.mergeParsed parsed) :=
  (noteFetched_reads parsed.createdAt).trans (.foldl (mergeContext_reads parsed.createdAt) _ _)

theorem handleDecrypted_reads (c : Client) (event : RelayEvent) :
    Reads k m (m.handleDecrypted c event) := by
  rw [handleDecrypted]
  cases c.parseEvent event with
  | none => exact .refl m
  | some parsed =>
    dsimp only
    by_cases hdestroyed : m.destroyed = true
    · rw [if_pos hdestroyed]
      exact .refl m
    · rw [if_neg hdestroyed]
      exact (noteFetched_reads parsed.createdAt).trans
        (.foldl (incomingContext_reads parsed.createdAt) _ _)

theorem hydrateFromLocalStorage_reads {stored : StoredReadState}
    (h : ∀ v, stored.contexts.lookup k = some v → m.effective k ≤ v) :
    Reads k m (m.hydrateFromLocalStorage stored) := by
  refine ⟨⟨rfl, rfl, fun v hv => ?_, fun hin => ?_⟩, rfl⟩
  · have hlookup := Table.lookup_foldl_insert stored.contexts.entries stored.contexts.nodupKeys
      m.effectiveState k
    have hstate : (m.hydrateFromLocalStorage stored).effectiveState.lookup k =
        (stored.contexts.lookup k).or (m.effectiveState.lookup k) := hlookup
    rw [hstate]
    cases hstored : stored.contexts.lookup k with
    | none => exact ⟨v, le_rfl, hv⟩
    | some v' =>
      have hle := h v' hstored
      rw [lookup_effective hv] at hle
      exact ⟨v', hle, rfl⟩
  · have hfold : ∀ (more ids : List String), k ∈ ids →
        k ∈ more.foldl (fun ids id => addMember id ids) ids := by
      intro more
      induction more with
      | nil => exact fun _ hids => hids
      | cons id more ih => exact fun ids hids => ih _ (mem_addMember_of_mem hids)
    exact hfold stored.publishableContextIds m.publishableContextIds hin

/-- What was published last is as before, or in an own blob. -/
theorem unionOwnBlobs_spec (own : Table String OwnBlob) : Keeps k m (m.unionOwnBlobs own) ∧
    ∀ id v, (m.unionOwnBlobs own).lastPublishedContexts.lookup id = some v →
      m.lastPublishedContexts.lookup id = some v ∨
        ∃ dTag blob, own.lookup dTag = some blob ∧ (id, v) ∈ blob.blob.contexts := by
  rw [unionOwnBlobs]
  by_cases hempty : own.entries.isEmpty = true
  · rw [if_pos hempty]
    exact ⟨.of_eq rfl rfl rfl rfl, fun _ _ => .inl⟩
  · rw [if_neg hempty]
    refine ⟨⟨rfl, rfl, fun v hv => ⟨v, le_rfl, hv⟩, fun hin => ?_⟩, fun id v hv => .inr ?_⟩
    · have hfold : ∀ (contexts : List Entry) (ids : List String), k ∈ ids →
          k ∈ contexts.foldl (fun ids e => addMember e.1 ids) ids := by
        intro contexts
        induction contexts with
        | nil => exact fun _ hids => hids
        | cons e contexts ih => exact fun ids hids => ih _ (mem_addMember_of_mem hids)
      exact hfold _ _ hin
    · have hunion : (maxUnion (own.entries.flatMap fun e => e.2.blob.contexts)).lookup id = some v :=
        hv
      obtain ⟨e, he, hmem⟩ := List.mem_flatMap.mp ((maxUnion_spec _).1 id v hunion)
      exact ⟨e.1, e.2, AList.mem_lookup_iff.mpr he, hmem⟩

/-- One step of a merge: what it publishes and what it notes come from own blobs. -/
theorem mergeNext_spec (c : Client) (newSlotId : String) (task : Merge) :
    Keeps k m (m.mergeNext c newSlotId task).1 ∧
      (∀ id v, (m.mergeNext c newSlotId task).1.lastPublishedContexts.lookup id = some v →
        m.lastPublishedContexts.lookup id = some v ∨
          ∃ dTag own, task.ownBlobsBySlot.lookup dTag = some own ∧ (id, v) ∈ own.blob.contexts) ∧
      ∀ next, (m.mergeNext c newSlotId task).2 = some next → ∀ dTag own,
        next.ownBlobsBySlot.lookup dTag = some own →
          task.ownBlobsBySlot.lookup dTag = some own ∨
            own.blob.contexts ∈ ownContexts c task.next := by
  obtain ⟨events, remaining, own, checking⟩ := task
  have hsame : ∀ next : Merge, next.ownBlobsBySlot = own → ∀ dTag blob,
      next.ownBlobsBySlot.lookup dTag = some blob → own.lookup dTag = some blob ∨
        blob.blob.contexts ∈ ownContexts c (Merge.next ⟨events, remaining, own, checking⟩) := by
    intro next hnext dTag blob hblob
    rw [hnext] at hblob
    exact .inl hblob
  have hkeep : ∀ next : Merge, next.ownBlobsBySlot = own → ∀ m₁ : Manager, Keeps k m m₁ →
      m₁.lastPublishedContexts = m.lastPublishedContexts →
      Keeps k m m₁ ∧ (∀ id v, m₁.lastPublishedContexts.lookup id = some v →
        m.lastPublishedContexts.lookup id = some v ∨
          ∃ dTag blob, own.lookup dTag = some blob ∧ (id, v) ∈ blob.blob.contexts) ∧
      ∀ next', some next = some next' → ∀ dTag blob, next'.ownBlobsBySlot.lookup dTag = some blob →
        own.lookup dTag = some blob ∨
          blob.blob.contexts ∈ ownContexts c (Merge.next ⟨events, remaining, own, checking⟩) := by
    intro next hnext m₁ hm hpublished
    refine ⟨hm, fun id v hv => .inl (hpublished ▸ hv), fun next' heq => ?_⟩
    exact Option.some.inj heq ▸ hsame next hnext
  rw [mergeNext]
  by_cases hdestroyed : m.destroyed = true
  · rw [if_pos hdestroyed]
    refine ⟨.of_eq rfl rfl rfl rfl, fun id v hv => .inl hv, fun next hnext => ?_⟩
    cases hnext
  · rw [if_neg hdestroyed]
    cases checking with
    | true =>
      cases remaining with
      | nil =>
        obtain ⟨hunion, hpublished⟩ := unionOwnBlobs_spec (k := k) (m := m) own
        refine ⟨hunion, hpublished, fun next hnext => ?_⟩
        cases hnext
      | cons event remaining =>
        dsimp only
        split
        · exact hkeep _ rfl _ (.of_eq rfl rfl rfl rfl) rfl
        · exact hkeep _ rfl _ (.of_eq rfl rfl rfl rfl) rfl
    | false =>
      cases remaining with
      | nil => exact hkeep _ rfl _ (.of_eq rfl rfl rfl rfl) rfl
      | cons event remaining =>
        dsimp only
        cases hparse : c.parseEvent event with
        | none => exact hkeep _ rfl _ (.of_eq rfl rfl rfl rfl) rfl
        | some parsed =>
          have hreads : Reads k m (m.mergeParsed parsed) := mergeParsed_reads parsed
          refine ⟨hreads.toKeeps, fun id v hv => .inl (hreads.published ▸ hv), fun next hnext => ?_⟩
          obtain rfl := Option.some.inj hnext
          intro dTag blob hblob
          have hnoted : (noteOwnBlob c parsed own).lookup dTag = some blob := hblob
          rw [noteOwnBlob] at hnoted
          split at hnoted
          · rename_i hnote
            by_cases hd : dTag = parsed.dTag
            · subst hd
              rw [AList.lookup_insert] at hnoted
              right
              have hevent : Merge.next ⟨events, event :: remaining, own, false⟩ = some event := rfl
              have hclient := of_decide_eq_true (Bool.and_eq_true_iff.mp hnote).1
              rw [hevent, ownContexts, Option.bind_some, hparse, ← Option.some.inj hnoted]
              dsimp only
              rw [if_pos hclient]
              exact List.mem_cons_self
            · rw [AList.lookup_insert_ne hd] at hnoted
              exact .inl hnoted
          · exact .inl hnoted

end Manager

end Buzz.ReadState
