import Buzz.Relay.SubscriptionIndex

namespace Buzz.SubscriptionRegistry
set_option autoImplicit true

/-- A change of one subscription that moves its postings with its entry keeps coherence. -/
theorem Coherent.update (h : Coherent r) (conn : ConnId) (sub : SubId) (updated : Option SubEntry)
    (hent : ∀ c s, r'.entry c s = if c = conn ∧ s = sub then updated else r.entry c s)
    (hpost : ∀ slot w, w ∈ r'.postings slot ↔
      if w = (conn, sub) then ∃ e, updated = some e ∧ slot ∈ e.slots else w ∈ r.postings slot)
    (hne : NoEmptyKeys r') : Coherent r' := by
  refine ⟨?_, hne⟩
  intro slot c s
  rw [hpost, hent]
  by_cases hw : c = conn ∧ s = sub
  · rw [if_pos hw, if_pos (Prod.ext hw.1 hw.2)]
  · have hw' : ¬(c, s) = (conn, sub) := by
      intro he
      cases he
      exact hw ⟨rfl, rfl⟩
    rw [if_neg hw, if_neg hw']
    exact h.posted slot c s

theorem removeSubscription_entry (r : SubscriptionRegistry) (conn : ConnId) (sub : SubId)
    (c : ConnId) (s : SubId) :
    (r.removeSubscription conn sub).2.entry c s =
      if c = conn ∧ s = sub then none else r.entry c s := by
  unfold removeSubscription
  split
  · rename_i hl
    split
    · rename_i hw
      rw [hw.1, entry, hl, Option.bind_none]
    · rfl
  · rename_i connSubs hl
    split
    · rename_i hs
      split
      · rename_i hw
        rw [hw.1, hw.2, entry, hl, Option.bind_some, hs]
      · rfl
    · rw [entry_removeFromIndex, entry_insert_subs]
      by_cases hc : c = conn
      · subst hc
        by_cases hsub : s = sub
        · subst hsub
          simp
        · simp [hsub, entry, hl, AList.lookup_erase_ne hsub]
      · simp [hc]

theorem Coherent.removeSubscription (h : Coherent r) (conn : ConnId) (sub : SubId) :
    Coherent (r.removeSubscription conn sub).2 := by
  apply h.update conn sub none (removeSubscription_entry r conn sub)
  · intro slot w
    unfold SubscriptionRegistry.removeSubscription
    split
    · rename_i hl
      split
      · rename_i hw
        have hp := h.posted slot conn sub
        simp only [entry, hl, Option.bind_none] at hp
        simpa [hw] using hp
      · rfl
    · rename_i connSubs hl
      split
      · rename_i hs
        split
        · rename_i hw
          have hp := h.posted slot conn sub
          simp only [entry, hl, Option.bind_some, hs] at hp
          simpa [hw] using hp
        · rfl
      · rename_i filters communityId scope hs
        have hp := h.posted slot conn sub
        simp only [entry, hl, Option.bind_some, hs, Option.some.injEq, exists_eq_left'] at hp
        rw [mem_postings_removeFromIndex]
        change w ∈ r.postings slot ∧ _ ↔ _
        by_cases hw : w = (conn, sub)
        · rw [hw, hp]
          simp [SubEntry.slots]
        · simp [hw]
  · unfold SubscriptionRegistry.removeSubscription
    split
    · exact h.noEmpty
    · split
      · exact h.noEmpty
      · exact (h.noEmpty.withSubs _).removeFromIndex

theorem entry_insertEntry (r : SubscriptionRegistry) (e : SubEntry) :
    (r.insertEntry conn sub e).entry c s =
      if c = conn ∧ s = sub then some e else r.entry c s := by
  rw [insertEntry, entry_insert_subs]
  by_cases hc : c = conn
  · subst hc
    by_cases hs : s = sub
    · subst hs
      simp
    · rw [if_pos rfl, AList.lookup_insert_ne hs, if_neg fun hw => hs hw.2, entry]
      cases r.subs.lookup c <;> simp
  · simp [hc]

theorem Coherent.registerWithScope (h : Coherent r) (communityId : CommunityId) (conn : ConnId)
    (sub : SubId) (filters : List Filter) (scope : SubscriptionScope) :
    Coherent (r.registerWithScope communityId conn sub filters scope).2 := by
  have hrem := h.removeSubscription conn sub
  apply hrem.update conn sub (some ⟨filters, communityId, scope⟩)
  · intro c s
    simp only [SubscriptionRegistry.registerWithScope, entry_addToIndex, entry_insertEntry]
  · intro slot w
    simp only [SubscriptionRegistry.registerWithScope, mem_postings_addToIndex,
      Option.some.injEq, exists_eq_left']
    change w ∈ (r.removeSubscription conn sub).2.postings slot ∨ _ ↔ _
    by_cases hw : w = (conn, sub)
    · have hp := hrem.posted slot conn sub
      simp only [removeSubscription_entry, and_self, ↓reduceIte, reduceCtorEq, false_and,
        exists_false, iff_false] at hp
      simp [hw, hp, SubEntry.slots]
    · simp [hw]
  · exact (hrem.noEmpty.withSubs _).addToIndex

theorem mem_postings_removeEntries (entries : List (Sigma fun _ : SubId => SubEntry))
    (r : SubscriptionRegistry) (w : ConnId × SubId) :
    w ∈ (entries.foldl
        (fun r s => r.removeFromIndex conn s.1 s.2.filters s.2.communityId s.2.scope)
        r).postings slot ↔
      w ∈ r.postings slot ∧ ∀ s ∈ entries, ¬(slot ∈ s.2.slots ∧ w = (conn, s.1)) := by
  induction entries generalizing r with
  | nil => simp
  | cons s entries ih =>
    rw [List.foldl_cons, ih, mem_postings_removeFromIndex, List.forall_mem_cons, and_assoc]
    rfl

theorem removeEntries_subs (entries : List (Sigma fun _ : SubId => SubEntry))
    (r : SubscriptionRegistry) :
    (entries.foldl
        (fun r s => r.removeFromIndex conn s.1 s.2.filters s.2.communityId s.2.scope)
        r).subs = r.subs := by
  induction entries generalizing r with
  | nil => rfl
  | cons s entries ih => rw [List.foldl_cons, ih, removeFromIndex_subs]

theorem NoEmptyKeys.removeEntries (h : NoEmptyKeys r)
    (entries : List (Sigma fun _ : SubId => SubEntry)) :
    NoEmptyKeys (entries.foldl
      (fun r s => r.removeFromIndex conn s.1 s.2.filters s.2.communityId s.2.scope) r) := by
  induction entries generalizing r with
  | nil => exact h
  | cons s entries ih => exact ih h.removeFromIndex

theorem entry_removeConnection (r : SubscriptionRegistry) (conn c : ConnId) (s : SubId) :
    (r.removeConnection conn).2.entry c s = if c = conn then none else r.entry c s := by
  unfold removeConnection
  split
  · rename_i hl
    split
    · rename_i hc
      rw [hc, entry, hl, Option.bind_none]
    · rfl
  · rw [entry, removeEntries_subs]
    by_cases hc : c = conn
    · subst hc
      simp
    · simp [hc, entry, AList.lookup_erase_ne hc]

theorem mem_postings_removeConnection (h : Coherent r) (conn : ConnId) (w : ConnId × SubId) :
    w ∈ (r.removeConnection conn).2.postings slot ↔ w ∈ r.postings slot ∧ w.1 ≠ conn := by
  obtain ⟨c, s⟩ := w
  unfold removeConnection
  split
  · rename_i hl
    refine ⟨fun hw => ⟨hw, ?_⟩, And.left⟩
    rintro rfl
    obtain ⟨e, he, _⟩ := (h.posted slot c s).mp hw
    simp [entry, hl] at he
  · rename_i connSubs hl
    rw [mem_postings_removeEntries]
    change (c, s) ∈ r.postings slot ∧ _ ↔ _
    apply and_congr_right
    intro hw
    constructor
    · rintro hall rfl
      obtain ⟨e, he, hslot⟩ := (h.posted slot c s).mp hw
      rw [entry, hl, Option.bind_some] at he
      exact hall ⟨s, e⟩ (AList.mem_lookup_iff.mp he) ⟨hslot, rfl⟩
    · intro hc s' _ hs'
      exact hc (congrArg Prod.fst hs'.2)

theorem Coherent.removeConnection (h : Coherent r) (conn : ConnId) :
    Coherent (r.removeConnection conn).2 := by
  refine ⟨?_, ?_⟩
  · intro slot c s
    rw [mem_postings_removeConnection h, entry_removeConnection]
    by_cases hc : c = conn
    · simp [hc]
    · simp [hc, h.posted]
  · unfold SubscriptionRegistry.removeConnection
    split
    · exact h.noEmpty
    · exact (h.noEmpty.withSubs _).removeEntries _

/-- The entry that a revocation leaves of a channel-scoped subscription. -/
def keptEntry (filters : List Filter) (communityId : CommunityId) (kept : List Uuid) :
    Option SubEntry :=
  if kept.isEmpty then none else some ⟨filters, communityId, .channels kept⟩

theorem mem_slots_keptEntry :
    (∃ e, keptEntry filters communityId kept = some e ∧ slot ∈ e.slots) ↔
      slot ∈ indexSlots filters communityId (.channels kept) := by
  cases kept with
  | nil => simp [keptEntry, indexSlots]
  | cons chId ids => simp [keptEntry, SubEntry.slots]

/-- One iteration either skips the subscription or revokes the channel from its entry. -/
theorem revokeChannel_cases (communityId : CommunityId) (conn : ConnId) (chId : Uuid)
    (sub : SubId) (acc : List ChannelSubscriptionUpdate × SubscriptionRegistry) :
    revokeChannel communityId conn chId acc sub = acc ∨
      ∃ filters subCommunityId ids,
        acc.2.entry conn sub = some ⟨filters, subCommunityId, .channels ids⟩ ∧
        (∀ c s, (revokeChannel communityId conn chId acc sub).2.entry c s =
          if c = conn ∧ s = sub then keptEntry filters subCommunityId (ids.filter (· ≠ chId))
          else acc.2.entry c s) ∧
        (∀ slot w, w ∈ (revokeChannel communityId conn chId acc sub).2.postings slot ↔
          w ∈ acc.2.postings slot ∧
            ¬(slot ∈ indexSlots filters communityId (.channels [chId]) ∧ w = (conn, sub))) ∧
        (NoEmptyKeys acc.2 → NoEmptyKeys (revokeChannel communityId conn chId acc sub).2) := by
  unfold revokeChannel
  split
  · exact .inl rfl
  · rename_i connSubs hl
    split
    · rename_i filters subCommunityId ids hs
      refine .inr ⟨filters, subCommunityId, ids, by rw [entry, hl, Option.bind_some, hs], ?_, ?_, ?_⟩
      · intro c s
        rw [entry_removeFromIndex, entry_insert_subs]
        by_cases hc : c = conn
        · subst hc
          by_cases hsub : s = sub
          · subst hsub
            simp only [↓reduceIte, and_self, keptEntry]
            split <;> simp
          · have hw : ¬(c = c ∧ s = sub) := fun hw => hsub hw.2
            rw [if_pos rfl, if_neg hw, entry, hl, Option.bind_some]
            split
            · exact AList.lookup_erase_ne hsub
            · exact AList.lookup_insert_ne hsub
        · have hw : ¬(c = conn ∧ s = sub) := fun hw => hc hw.1
          rw [if_neg hc, if_neg hw]
      · intro slot w
        exact mem_postings_removeFromIndex _ w
      · intro hne
        dsimp only
        exact (hne.withSubs _).removeFromIndex
    · exact .inl rfl

/-- The subscriptions still to be visited belong to the community whose channel is revoked. -/
def OwnedBy (communityId : CommunityId) (conn : ConnId) (subIds : List SubId)
    (r : SubscriptionRegistry) : Prop :=
  ∀ sub ∈ subIds, ∀ e, r.entry conn sub = some e → e.communityId = communityId

theorem OwnedBy.revokeChannel (h : OwnedBy communityId conn subIds acc.2) :
    OwnedBy communityId conn subIds
      (SubscriptionRegistry.revokeChannel communityId' conn chId acc sub).2 := by
  rcases revokeChannel_cases communityId' conn chId sub acc with
    he | ⟨filters, subCommunityId, ids, hent, hent', _⟩
  · rw [he]
    exact h
  · intro s hs e he
    rw [hent'] at he
    split at he
    · rename_i hw
      rw [keptEntry] at he
      split at he
      · cases he
      · cases he
        rw [hw.2] at hs
        exact (h sub hs _ hent :)
    · exact h s hs e he

theorem Coherent.revokeChannel (h : Coherent acc.2)
    (hown : ∀ e, acc.2.entry conn sub = some e → e.communityId = communityId) :
    Coherent (SubscriptionRegistry.revokeChannel communityId conn chId acc sub).2 := by
  rcases revokeChannel_cases communityId conn chId sub acc with
    he | ⟨filters, subCommunityId, ids, hent, hent', hpost, hne⟩
  · rw [he]
    exact h
  · have hc : subCommunityId = communityId := hown _ hent
    subst hc
    apply h.update conn sub _ hent'
    · intro slot w
      rw [hpost, mem_slots_keptEntry, mem_indexSlots_filter]
      by_cases hw : w = (conn, sub)
      · have hp := h.posted slot conn sub
        rw [hent] at hp
        simp only [Option.some.injEq, exists_eq_left'] at hp
        rw [hw, hp]
        simp [SubEntry.slots]
      · simp [hw]
    · exact hne h.noEmpty

theorem Coherent.revokeChannels (h : Coherent acc.2) (hown : OwnedBy communityId conn subIds acc.2) :
    Coherent
      (subIds.foldl (SubscriptionRegistry.revokeChannel communityId conn chId) acc).2 := by
  induction subIds generalizing acc with
  | nil => exact h
  | cons sub subIds ih =>
    rw [List.foldl_cons]
    apply ih
    · exact h.revokeChannel (hown sub List.mem_cons_self)
    · apply OwnedBy.revokeChannel
      exact fun s hs => hown s (List.mem_cons_of_mem _ hs)

theorem Coherent.removeChannelSubscriptionsScoped (h : Coherent r) (communityId : CommunityId)
    (conn : ConnId) (chId : Uuid) :
    Coherent (r.removeChannelSubscriptionsScoped communityId conn chId).2 := by
  apply Coherent.revokeChannels h
  intro sub hsub e he
  obtain ⟨s, hs, hsel⟩ := List.mem_filterMap.mp hsub
  split at hsel
  · rename_i hcond
    cases hsel
    cases hl : r.subs.lookup conn with
    | none => simp [hl] at hs
    | some connSubs =>
      rw [hl, Option.getD_some] at hs
      rw [entry, hl, Option.bind_some, AList.mem_lookup_iff.mpr hs] at he
      cases he
      exact hcond.1
  · cases hsel

theorem Coherent.step (h : Coherent r) (op : RegistryOp) : Coherent (r.step op) := by
  cases op with
  | registerScoped communityId connId subId filters channelId =>
    exact h.registerWithScope communityId connId subId filters _
  | registerChannelsScoped communityId connId subId filters channelIds =>
    exact h.registerWithScope communityId connId subId filters _
  | removeSubscription connId subId => exact h.removeSubscription connId subId
  | removeConnection connId => exact h.removeConnection connId
  | removeChannelSubscriptionsScoped communityId connId channelId =>
    exact h.removeChannelSubscriptionsScoped communityId connId channelId

theorem Coherent.steps (h : Coherent r) (ops : List RegistryOp) :
    Coherent (ops.foldl SubscriptionRegistry.step r) := by
  induction ops generalizing r with
  | nil => exact h
  | cons op ops ih => exact ih (h.step op)

theorem coherent_run (ops : List RegistryOp) : Coherent (run ops) :=
  coherent_new.steps ops

/-- A posting list is not empty and each of its members is a live subscription of the
community, with a scope and filters that belong under the key. -/
def Backed (r : SubscriptionRegistry) (communityId : CommunityId)
    (inScope : SubscriptionScope → Prop) (yields : List Filter → Prop)
    (l : List (ConnId × SubId)) : Prop :=
  l ≠ [] ∧ ∀ conn sub, (conn, sub) ∈ l → ∃ e, r.entry conn sub = some e ∧
    e.communityId = communityId ∧ inScope e.scope ∧ yields e.filters

/-- No index holds a dangling entry. -/
structure NoDangling (r : SubscriptionRegistry) : Prop where
  channelKind : ∀ key l, r.channelKindIndex.lookup key = some l →
    r.Backed key.1 (fun scope => key.2.channelId ∈ scope.channelIds) (YieldsKind key.2.kind) l
  channelWildcard : ∀ key l, r.channelWildcardIndex.lookup key = some l →
    r.Backed key.1 (fun scope => key.2 ∈ scope.channelIds)
      (fun filters => extractKindsFromFilters filters = none) l
  globalKind : ∀ key l, r.globalKindIndex.lookup key = some l →
    r.Backed key.1 (fun scope => scope = .global)
      (fun filters => extractGlobalPKindIndexKeys key.1 filters = none ∧
        YieldsKind key.2 filters) l
  globalPKind : ∀ key l, r.globalPKindIndex.lookup key = some l →
    r.Backed key.communityId (fun scope => scope = .global)
      (fun filters => ∃ keys,
        extractGlobalPKindIndexKeys key.communityId filters = some keys ∧ key ∈ keys) l
  globalWildcard : ∀ key l, r.globalWildcardIndex.lookup key = some l →
    r.Backed key (fun scope => scope = .global)
      (fun filters => extractGlobalPKindIndexKeys key filters = none ∧
        extractKindsFromFilters filters = none) l

theorem Coherent.backed (h : Coherent r) (slot : IndexSlot) (hl : r.postings slot = l)
    (hne : l ≠ [])
    (hslot : ∀ e : SubEntry, slot ∈ e.slots →
      e.communityId = communityId ∧ inScope e.scope ∧ yields e.filters) :
    r.Backed communityId inScope yields l := by
  refine ⟨hne, ?_⟩
  intro conn sub hw
  rw [← hl] at hw
  obtain ⟨e, he, hs⟩ := (h.posted slot conn sub).mp hw
  exact ⟨e, he, hslot e hs⟩

theorem Coherent.noDangling (h : Coherent r) : NoDangling r := by
  refine ⟨?_, ?_, ?_, ?_, ?_⟩
  · intro key l hl
    apply h.backed (.channelKind key.1 key.2) (PostingIndex.postings_of_lookup hl)
      (h.noEmpty.channelKind key l hl)
    exact fun e => channelKind_mem_slots.mp
  · intro key l hl
    apply h.backed (.channelWildcard key.1 key.2) (PostingIndex.postings_of_lookup hl)
      (h.noEmpty.channelWildcard key l hl)
    exact fun e => channelWildcard_mem_slots.mp
  · intro key l hl
    apply h.backed (.globalKind key.1 key.2) (PostingIndex.postings_of_lookup hl)
      (h.noEmpty.globalKind key l hl)
    exact fun e => globalKind_mem_slots.mp
  · intro key l hl
    apply h.backed (.globalPKind key) (PostingIndex.postings_of_lookup hl)
      (h.noEmpty.globalPKind key l hl)
    exact fun e => globalPKind_mem_slots.mp
  · intro key l hl
    apply h.backed (.globalWildcard key) (PostingIndex.postings_of_lookup hl)
      (h.noEmpty.globalWildcard key l hl)
    exact fun e => globalWildcard_mem_slots.mp

theorem Coherent.postings_eq_nil (h : Coherent r) (hno : ∀ conn sub, r.entry conn sub = none)
    (slot : IndexSlot) : r.postings slot = [] := by
  apply List.eq_nil_iff_forall_not_mem.mpr
  rintro ⟨conn, sub⟩ hw
  obtain ⟨e, he, _⟩ := (h.posted slot conn sub).mp hw
  rw [hno] at he
  cases he

/-- All five indexes are empty. -/
def IndexesEmpty (r : SubscriptionRegistry) : Prop :=
  r.channelKindIndex = ∅ ∧ r.channelWildcardIndex = ∅ ∧ r.globalKindIndex = ∅ ∧
    r.globalPKindIndex = ∅ ∧ r.globalWildcardIndex = ∅

theorem Coherent.indexesEmpty (h : Coherent r) (hno : ∀ conn sub, r.entry conn sub = none) :
    IndexesEmpty r := by
  have hnil := h.postings_eq_nil hno
  exact ⟨h.noEmpty.channelKind.eq_empty fun key => hnil (.channelKind key.1 key.2),
    h.noEmpty.channelWildcard.eq_empty fun key => hnil (.channelWildcard key.1 key.2),
    h.noEmpty.globalKind.eq_empty fun key => hnil (.globalKind key.1 key.2),
    h.noEmpty.globalPKind.eq_empty fun key => hnil (.globalPKind key),
    h.noEmpty.globalWildcard.eq_empty fun key => hnil (.globalWildcard key)⟩

/-- In every reachable registry the indexes hold live subscriptions only. -/
theorem run_noDangling (ops : List RegistryOp) :
    NoDangling (run ops) ∧
      ((∀ conn sub, (run ops).entry conn sub = none) → IndexesEmpty (run ops)) :=
  ⟨(coherent_run ops).noDangling, (coherent_run ops).indexesEmpty⟩

end Buzz.SubscriptionRegistry
