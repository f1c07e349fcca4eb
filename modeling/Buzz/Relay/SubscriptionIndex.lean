import Buzz.Relay.Subscription

namespace Buzz
set_option autoImplicit true

theorem extractKindsLoop_spec (h : extractKindsLoop kinds fs = some ks) :
    (∀ kind ∈ kinds, kind ∈ ks) ∧
      ∀ f ∈ fs, ∃ s, f.kinds = some s ∧ ∀ kind ∈ s.elems, kind ∈ ks := by
  induction fs generalizing kinds with
  | nil =>
    cases h
    simp
  | cons f fs ih =>
    cases hf : f.kinds with
    | none => simp [extractKindsLoop, hf] at h
    | some s =>
      rw [extractKindsLoop, hf] at h
      obtain ⟨hkinds, hfs⟩ := ih h
      refine ⟨fun kind hk => hkinds kind (mem_foldl_pushNew.mpr (.inl hk)), ?_⟩
      intro g hg
      rcases List.mem_cons.mp hg with rfl | hg
      · exact ⟨s, hf, fun kind hk => hkinds kind (mem_foldl_pushNew.mpr (.inr hk))⟩
      · exact hfs g hg

/-- The kinds that all filters together allow, where every filter names some. -/
def YieldsKind (kind : Kind) (filters : List Filter) : Prop :=
  ∃ kinds, extractKindsFromFilters filters = some kinds ∧ kind ∈ kinds

theorem yieldsKind_of_match (h : extractKindsFromFilters filters = some kinds)
    (hm : filtersMatch filters ev = true) : YieldsKind ev.event.kind filters := by
  obtain ⟨f, hf, hfm⟩ := List.any_eq_true.mp hm
  obtain ⟨s, hs, hall⟩ := (extractKindsLoop_spec h).2 f hf
  exact ⟨kinds, h, hall _ ((matches_of_filterMatchOne hfm).kinds s hs)⟩

theorem extractGlobalPKindLoop_spec (h : extractGlobalPKindLoop communityId keys fs = some ks) :
    (∀ key ∈ keys, key ∈ ks) ∧
      ∀ f ∈ fs, ∃ kinds, f.kinds = some kinds ∧ (kinds.elems = [] ∨
        ∃ ps, f.genericTags.lookup .p = some ps ∧
          ∀ key ∈ pKindKeys communityId kinds.elems ps.elems, key ∈ ks) := by
  induction fs generalizing keys with
  | nil =>
    cases h
    simp
  | cons f fs ih =>
    rw [extractGlobalPKindLoop] at h
    split at h
    · cases h
    · rename_i kinds hk
      split at h
      · rename_i hemp
        obtain ⟨hkeys, hfs⟩ := ih h
        refine ⟨hkeys, List.forall_mem_cons.mpr ⟨⟨kinds, hk, .inl ?_⟩, hfs⟩⟩
        exact List.isEmpty_iff.mp hemp
      · split at h
        · cases h
        · rename_i ps hp
          split at h
          · cases h
          · obtain ⟨hkeys, hfs⟩ := ih h
            refine ⟨fun key hm => hkeys key (mem_foldl_pushNew.mpr (.inl hm)), ?_⟩
            refine List.forall_mem_cons.mpr ⟨⟨kinds, hk, .inr ⟨ps, hp, ?_⟩⟩, hfs⟩
            exact fun key hm => hkeys key (mem_foldl_pushNew.mpr (.inr hm))

theorem mem_pKindKeys {key : GlobalPKindIndexKey} :
    key ∈ pKindKeys communityId kinds ps ↔
      key.communityId = communityId ∧ key.kind ∈ kinds ∧ key.p ∈ ps := by
  obtain ⟨community, kind, p⟩ := key
  simp only [pKindKeys, List.mem_flatMap, List.mem_map, GlobalPKindIndexKey.mk.injEq]
  constructor
  · rintro ⟨kind', hk, p', hp, rfl, rfl, rfl⟩
    exact ⟨rfl, hk, hp⟩
  · rintro ⟨rfl, hk, hp⟩
    exact ⟨kind, hk, p, hp, rfl, rfl, rfl⟩

theorem extractGlobalPKindLoop_community
    (h : extractGlobalPKindLoop communityId keys fs = some ks)
    (hkeys : ∀ key ∈ keys, key.communityId = communityId) :
    ∀ key ∈ ks, key.communityId = communityId := by
  induction fs generalizing keys with
  | nil =>
    cases h
    exact hkeys
  | cons f fs ih =>
    rw [extractGlobalPKindLoop] at h
    split at h
    · cases h
    · split at h
      · exact ih h hkeys
      · split at h
        · cases h
        · split at h
          · cases h
          · apply ih h
            intro key hm
            rcases mem_foldl_pushNew.mp hm with hm | hm
            · exact hkeys key hm
            · exact (mem_pKindKeys.mp hm).1

theorem mem_eventPTagValues :
    p ∈ eventPTagValues ev ↔ eventHasTagValue ev.event "p" p = true := by
  rw [eventPTagValues, mem_foldl_pushNew, List.mem_filterMap, eventHasTagValue, List.any_eq_true]
  simp

/-- A matching event of a `p`-constrained subscription carries one of its keys. -/
theorem pKind_of_match (h : extractGlobalPKindIndexKeys communityId filters = some keys)
    (hm : filtersMatch filters ev = true) :
    ∃ p ∈ eventPTagValues ev, ⟨communityId, ev.event.kind, p⟩ ∈ keys := by
  obtain ⟨f, hf, hfm⟩ := List.any_eq_true.mp hm
  have hmatch := matches_of_filterMatchOne hfm
  obtain ⟨kinds, hk, hemp | ⟨ps, hp, hall⟩⟩ := (extractGlobalPKindLoop_spec h).2 f hf
  · have hkind := hmatch.kinds kinds hk
    rw [hemp] at hkind
    cases hkind
  · have hne : SingleLetterTag.p ≠ .h := by decide
    obtain ⟨p, hmem, htag⟩ := genericTagMatch_tag (hmatch.tags .p ps hp) hne
    refine ⟨p, mem_eventPTagValues.mpr htag, hall _ ?_⟩
    exact mem_pKindKeys.mpr ⟨rfl, hmatch.kinds kinds hk, hmem⟩

/-- A key of any of the five indexes. -/
inductive IndexSlot where
  | channelKind (communityId : CommunityId) (key : IndexKey)
  | channelWildcard (communityId : CommunityId) (channelId : Uuid)
  | globalKind (communityId : CommunityId) (kind : Kind)
  | globalPKind (key : GlobalPKindIndexKey)
  | globalWildcard (communityId : CommunityId)

def channelSlots (filters : List Filter) (communityId : CommunityId) (chId : Uuid) :
    List IndexSlot :=
  match extractKindsFromFilters filters with
  | none => [.channelWildcard communityId chId]
  | some kinds => kinds.map fun kind => .channelKind communityId ⟨chId, kind⟩

def globalSlots (filters : List Filter) (communityId : CommunityId) : List IndexSlot :=
  match extractGlobalPKindIndexKeys communityId filters with
  | some keys => keys.map .globalPKind
  | none =>
    match extractKindsFromFilters filters with
    | none => [.globalWildcard communityId]
    | some kinds => kinds.map (.globalKind communityId)

/-- The index keys that a subscription's filters, community and scope yield. -/
def indexSlots (filters : List Filter) (communityId : CommunityId) :
    SubscriptionScope → List IndexSlot
  | .channels channelIds => channelIds.flatMap (channelSlots filters communityId)
  | .global => globalSlots filters communityId

def SubEntry.slots (e : SubEntry) : List IndexSlot :=
  indexSlots e.filters e.communityId e.scope

def IndexSlot.channel : IndexSlot → Option Uuid
  | .channelKind _ key => some key.channelId
  | .channelWildcard _ chId => some chId
  | _ => none

theorem channel_of_mem_channelSlots (h : slot ∈ channelSlots filters communityId chId) :
    slot.channel = some chId := by
  unfold channelSlots at h
  split at h
  · cases List.mem_singleton.mp h
    rfl
  · obtain ⟨kind, _, rfl⟩ := List.mem_map.mp h
    rfl

theorem mem_indexSlots_channels :
    slot ∈ indexSlots filters communityId (.channels ids) ↔
      ∃ chId ∈ ids, slot ∈ channelSlots filters communityId chId :=
  List.mem_flatMap

/-- Revoking a channel leaves exactly the keys of the other channels. -/
theorem mem_indexSlots_filter :
    slot ∈ indexSlots filters communityId (.channels (ids.filter (· ≠ chId))) ↔
      slot ∈ indexSlots filters communityId (.channels ids) ∧
        slot ∉ indexSlots filters communityId (.channels [chId]) := by
  simp only [mem_indexSlots_channels, List.mem_filter, decide_eq_true_eq, List.mem_singleton,
    exists_eq_left]
  constructor
  · rintro ⟨c, ⟨hc, hne⟩, hs⟩
    refine ⟨⟨c, hc, hs⟩, fun hs' => hne ?_⟩
    have he := (channel_of_mem_channelSlots hs).symm.trans (channel_of_mem_channelSlots hs')
    exact Option.some.inj he
  · rintro ⟨⟨c, hc, hs⟩, hn⟩
    exact ⟨c, ⟨hc, fun he => hn (he ▸ hs)⟩, hs⟩

theorem channelKind_mem_slots {e : SubEntry} :
    .channelKind communityId key ∈ e.slots ↔
      e.communityId = communityId ∧ key.channelId ∈ e.scope.channelIds ∧
        YieldsKind key.kind e.filters := by
  obtain ⟨filters, community, scope⟩ := e
  obtain ⟨chId, kind⟩ := key
  cases scope with
  | channels ids =>
    rw [SubEntry.slots, mem_indexSlots_channels]
    cases hk : extractKindsFromFilters filters with
    | none => simp [channelSlots, hk, YieldsKind]
    | some kinds =>
      simp [channelSlots, hk, YieldsKind, SubscriptionScope.channelIds]
      tauto
  | global =>
    simp only [SubEntry.slots, indexSlots, globalSlots, SubscriptionScope.channelIds]
    split
    · simp
    · split <;> simp

theorem channelWildcard_mem_slots {e : SubEntry} :
    .channelWildcard communityId chId ∈ e.slots ↔
      e.communityId = communityId ∧ chId ∈ e.scope.channelIds ∧
        extractKindsFromFilters e.filters = none := by
  obtain ⟨filters, community, scope⟩ := e
  cases scope with
  | channels ids =>
    rw [SubEntry.slots, mem_indexSlots_channels]
    cases hk : extractKindsFromFilters filters with
    | none =>
      simp [channelSlots, hk, SubscriptionScope.channelIds]
      tauto
    | some kinds => simp [channelSlots, hk]
  | global =>
    simp only [SubEntry.slots, indexSlots, globalSlots, SubscriptionScope.channelIds]
    split
    · simp
    · split <;> simp

theorem not_mem_slots_channels (hslot : slot.channel = none) :
    slot ∉ indexSlots filters communityId (.channels ids) := by
  rw [mem_indexSlots_channels]
  rintro ⟨chId, _, hs⟩
  rw [channel_of_mem_channelSlots hs] at hslot
  cases hslot

theorem globalKind_mem_slots {e : SubEntry} :
    .globalKind communityId kind ∈ e.slots ↔
      e.communityId = communityId ∧ e.scope = .global ∧
        extractGlobalPKindIndexKeys communityId e.filters = none ∧ YieldsKind kind e.filters := by
  obtain ⟨filters, community, scope⟩ := e
  cases scope with
  | channels ids =>
    exact iff_of_false (not_mem_slots_channels rfl) (by simp)
  | global =>
    simp only [SubEntry.slots, indexSlots, globalSlots, YieldsKind]
    constructor
    · split
      · simp
      · split
        · simp
        · rename_i hp _ kinds hk
          intro hs
          obtain ⟨kind', hkind, he⟩ := List.mem_map.mp hs
          cases he
          exact ⟨rfl, trivial, hp, kinds, hk, hkind⟩
    · rintro ⟨rfl, _, hp, kinds, hk, hkind⟩
      simpa [hp, hk] using hkind

theorem globalPKind_mem_slots {e : SubEntry} :
    .globalPKind key ∈ e.slots ↔
      e.communityId = key.communityId ∧ e.scope = .global ∧
        ∃ keys, extractGlobalPKindIndexKeys key.communityId e.filters = some keys ∧ key ∈ keys := by
  obtain ⟨filters, community, scope⟩ := e
  cases scope with
  | channels ids =>
    exact iff_of_false (not_mem_slots_channels rfl) (by simp)
  | global =>
    simp only [SubEntry.slots, indexSlots, globalSlots]
    constructor
    · split
      · rename_i keys hp
        intro hs
        obtain ⟨key', hkey, he⟩ := List.mem_map.mp hs
        cases he
        have hc := extractGlobalPKindLoop_community hp (by simp) key hkey
        exact ⟨hc.symm, trivial, keys, hc ▸ hp, hkey⟩
      · split <;> simp
    · rintro ⟨rfl, _, keys, hp, hkey⟩
      simpa [hp] using hkey

theorem globalWildcard_mem_slots {e : SubEntry} :
    .globalWildcard communityId ∈ e.slots ↔
      e.communityId = communityId ∧ e.scope = .global ∧
        extractGlobalPKindIndexKeys communityId e.filters = none ∧
        extractKindsFromFilters e.filters = none := by
  obtain ⟨filters, community, scope⟩ := e
  cases scope with
  | channels ids =>
    exact iff_of_false (not_mem_slots_channels rfl) (by simp)
  | global =>
    simp only [SubEntry.slots, indexSlots, globalSlots]
    constructor
    · split
      · simp
      · split
        · rename_i hp _ hk
          intro hs
          cases List.mem_singleton.mp hs
          exact ⟨rfl, trivial, hp, hk⟩
        · simp
    · rintro ⟨rfl, _, hp, hk⟩
      simp [hp, hk]

namespace SubscriptionRegistry

def postings (r : SubscriptionRegistry) : IndexSlot → List (ConnId × SubId)
  | .channelKind communityId key => r.channelKindIndex.postings (communityId, key)
  | .channelWildcard communityId chId => r.channelWildcardIndex.postings (communityId, chId)
  | .globalKind communityId kind => r.globalKindIndex.postings (communityId, kind)
  | .globalPKind key => r.globalPKindIndex.postings key
  | .globalWildcard communityId => r.globalWildcardIndex.postings communityId

/-- No key of any index maps to an empty list. -/
structure NoEmptyKeys (r : SubscriptionRegistry) : Prop where
  channelKind : r.channelKindIndex.NoEmpty
  channelWildcard : r.channelWildcardIndex.NoEmpty
  globalKind : r.globalKindIndex.NoEmpty
  globalPKind : r.globalPKindIndex.NoEmpty
  globalWildcard : r.globalWildcardIndex.NoEmpty

/-- Indexes and entries agree: a subscription is posted exactly under the keys that its
entry yields. -/
structure Coherent (r : SubscriptionRegistry) : Prop where
  posted : ∀ slot conn sub,
    (conn, sub) ∈ r.postings slot ↔ ∃ e, r.entry conn sub = some e ∧ slot ∈ e.slots
  noEmpty : NoEmptyKeys r

theorem coherent_new : Coherent new := by
  refine ⟨?_, ?_⟩
  · intro slot conn sub
    cases slot <;> simp [postings, new, entry]
  · exact ⟨PostingIndex.noEmpty_empty, PostingIndex.noEmpty_empty, PostingIndex.noEmpty_empty,
      PostingIndex.noEmpty_empty, PostingIndex.noEmpty_empty⟩

theorem mem_postings_indexChannel (r : SubscriptionRegistry) (w : ConnId × SubId) :
    w ∈ (indexChannel conn sub filters communityId r chId).postings slot ↔
      w ∈ r.postings slot ∨ (slot ∈ channelSlots filters communityId chId ∧ w = (conn, sub)) := by
  rcases hk : extractKindsFromFilters filters with _ | (_ | ⟨kind, kinds⟩)
  · cases slot <;> simp [indexChannel, channelSlots, hk, postings, PostingIndex.mem_postings_push]
  · simp [indexChannel, channelSlots, hk]
  · cases slot <;> simp [indexChannel, channelSlots, hk, postings,
      PostingIndex.mem_postings_pushAll, eq_comm]

theorem mem_postings_unindexChannel (r : SubscriptionRegistry) (w : ConnId × SubId) :
    w ∈ (unindexChannel conn sub filters communityId r chId).postings slot ↔
      w ∈ r.postings slot ∧ ¬(slot ∈ channelSlots filters communityId chId ∧ w = (conn, sub)) := by
  rcases hk : extractKindsFromFilters filters with _ | (_ | ⟨kind, kinds⟩)
  · cases slot <;>
      simp [unindexChannel, channelSlots, hk, postings, PostingIndex.mem_postings_retract]
  · simp [unindexChannel, channelSlots, hk]
  · cases slot <;> simp [unindexChannel, channelSlots, hk, postings,
      PostingIndex.mem_postings_retractAll, eq_comm]

theorem mem_postings_addToIndex (r : SubscriptionRegistry) (w : ConnId × SubId) :
    w ∈ (r.addToIndex conn sub filters communityId scope).postings slot ↔
      w ∈ r.postings slot ∨ (slot ∈ indexSlots filters communityId scope ∧ w = (conn, sub)) := by
  cases scope with
  | channels ids =>
    rw [addToIndex]
    induction ids generalizing r with
    | nil => simp [indexSlots]
    | cons chId ids ih =>
      rw [List.foldl_cons, ih, mem_postings_indexChannel, indexSlots, indexSlots,
        List.flatMap_cons, List.mem_append, or_assoc, ← or_and_right]
  | global =>
    rcases hp : extractGlobalPKindIndexKeys communityId filters with _ | keys
    · rcases hk : extractKindsFromFilters filters with _ | (_ | ⟨kind, kinds⟩)
      · cases slot <;> simp [addToIndex, indexSlots, globalSlots, hp, hk, postings,
          PostingIndex.mem_postings_push]
      · simp [addToIndex, indexSlots, globalSlots, hp, hk]
      · cases slot <;> simp [addToIndex, indexSlots, globalSlots, hp, hk, postings,
          PostingIndex.mem_postings_pushAll, eq_comm]
    · cases slot <;> simp [addToIndex, indexSlots, globalSlots, hp, postings,
        PostingIndex.mem_postings_pushAll]

theorem mem_postings_removeFromIndex (r : SubscriptionRegistry) (w : ConnId × SubId) :
    w ∈ (r.removeFromIndex conn sub filters communityId scope).postings slot ↔
      w ∈ r.postings slot ∧ ¬(slot ∈ indexSlots filters communityId scope ∧ w = (conn, sub)) := by
  cases scope with
  | channels ids =>
    rw [removeFromIndex]
    induction ids generalizing r with
    | nil => simp [indexSlots]
    | cons chId ids ih =>
      rw [List.foldl_cons, ih, mem_postings_unindexChannel, indexSlots, indexSlots,
        List.flatMap_cons, List.mem_append, and_assoc, ← not_or, ← or_and_right]
  | global =>
    rcases hp : extractGlobalPKindIndexKeys communityId filters with _ | keys
    · rcases hk : extractKindsFromFilters filters with _ | (_ | ⟨kind, kinds⟩)
      · cases slot <;> simp [removeFromIndex, indexSlots, globalSlots, hp, hk, postings,
          PostingIndex.mem_postings_retract]
      · simp [removeFromIndex, indexSlots, globalSlots, hp, hk]
      · cases slot <;> simp [removeFromIndex, indexSlots, globalSlots, hp, hk, postings,
          PostingIndex.mem_postings_retractAll, eq_comm]
    · cases slot <;> simp [removeFromIndex, indexSlots, globalSlots, hp, postings,
        PostingIndex.mem_postings_retractAll]

theorem NoEmptyKeys.withSubs (h : NoEmptyKeys r) (subs : AList (fun _ : ConnId => ConnSubs)) :
    NoEmptyKeys { r with subs := subs } :=
  { h with }

theorem NoEmptyKeys.indexChannel (h : NoEmptyKeys r) :
    NoEmptyKeys (indexChannel conn sub filters communityId r chId) := by
  unfold SubscriptionRegistry.indexChannel
  split
  · exact { h with channelWildcard := h.channelWildcard.push _ _ }
  · exact h
  · exact { h with channelKind := h.channelKind.pushAll _ _ }

theorem NoEmptyKeys.unindexChannel (h : NoEmptyKeys r) :
    NoEmptyKeys (unindexChannel conn sub filters communityId r chId) := by
  unfold SubscriptionRegistry.unindexChannel
  split
  · exact { h with channelWildcard := h.channelWildcard.retract _ _ }
  · exact h
  · exact { h with channelKind := h.channelKind.retractAll _ _ }

theorem NoEmptyKeys.addToIndex (h : NoEmptyKeys r) :
    NoEmptyKeys (r.addToIndex conn sub filters communityId scope) := by
  unfold SubscriptionRegistry.addToIndex
  split
  · rename_i ids
    induction ids generalizing r with
    | nil => exact h
    | cons chId ids ih => exact ih h.indexChannel
  · split
    · exact { h with globalPKind := h.globalPKind.pushAll _ _ }
    · split
      · exact { h with globalWildcard := h.globalWildcard.push _ _ }
      · exact h
      · exact { h with globalKind := h.globalKind.pushAll _ _ }

theorem NoEmptyKeys.removeFromIndex (h : NoEmptyKeys r) :
    NoEmptyKeys (r.removeFromIndex conn sub filters communityId scope) := by
  unfold SubscriptionRegistry.removeFromIndex
  split
  · rename_i ids
    induction ids generalizing r with
    | nil => exact h
    | cons chId ids ih => exact ih h.unindexChannel
  · split
    · exact { h with globalPKind := h.globalPKind.retractAll _ _ }
    · split
      · exact { h with globalWildcard := h.globalWildcard.retract _ _ }
      · exact h
      · exact { h with globalKind := h.globalKind.retractAll _ _ }

@[simp]
theorem addToIndex_subs (r : SubscriptionRegistry) :
    (r.addToIndex conn sub filters communityId scope).subs = r.subs := by
  unfold addToIndex
  split
  · rename_i ids
    induction ids generalizing r with
    | nil => rfl
    | cons chId ids ih =>
      rw [List.foldl_cons, ih, indexChannel]
      split <;> rfl
  · split
    · rfl
    · split <;> rfl

@[simp]
theorem removeFromIndex_subs (r : SubscriptionRegistry) :
    (r.removeFromIndex conn sub filters communityId scope).subs = r.subs := by
  unfold removeFromIndex
  split
  · rename_i ids
    induction ids generalizing r with
    | nil => rfl
    | cons chId ids ih =>
      rw [List.foldl_cons, ih, unindexChannel]
      split <;> rfl
  · split
    · rfl
    · split <;> rfl

@[simp]
theorem entry_addToIndex (r : SubscriptionRegistry) :
    (r.addToIndex conn sub filters communityId scope).entry c s = r.entry c s := by
  rw [entry, addToIndex_subs, entry]

@[simp]
theorem entry_removeFromIndex (r : SubscriptionRegistry) :
    (r.removeFromIndex conn sub filters communityId scope).entry c s = r.entry c s := by
  rw [entry, removeFromIndex_subs, entry]

theorem entry_insert_subs (r : SubscriptionRegistry) (m : ConnSubs) :
    ({ r with subs := r.subs.insert conn m } : SubscriptionRegistry).entry c s =
      if c = conn then m.lookup s else r.entry c s := by
  by_cases hc : c = conn
  · subst hc
    simp [entry]
  · simp [entry, AList.lookup_insert_ne hc, hc]

end SubscriptionRegistry

end Buzz
