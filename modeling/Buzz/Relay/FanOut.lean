import Buzz.Relay.SubscriptionRuns

namespace Buzz.SubscriptionRegistry
set_option autoImplicit true

/-- The test that `push_match` makes of a stored entry. -/
def Receives (communityId : CommunityId) (ev : StoredEvent) (e : SubEntry) : Prop :=
  e.communityId = communityId ∧ e.scope.matchesChannel ev.channelId = true ∧
    filtersMatch e.filters ev = true

instance : DecidablePred (Receives communityId ev) := fun _ => instDecidableAnd

/-- The subscriptions that should receive an event, found without any index. -/
def fullScan (r : SubscriptionRegistry) (communityId : CommunityId) (ev : StoredEvent) :
    List (ConnId × SubId) :=
  r.subs.entries.flatMap fun conn =>
    (conn.2.entries.filter fun sub => decide (Receives communityId ev sub.2)).map fun sub =>
      (conn.1, sub.1)

/-- The index keys that a fan-out looks up. -/
def probes (communityId : CommunityId) (ev : StoredEvent) : List IndexSlot :=
  match ev.channelId with
  | some chId => [.channelKind communityId ⟨chId, ev.event.kind⟩, .channelWildcard communityId chId]
  | none =>
    (eventPTagValues ev).map (fun p => .globalPKind ⟨communityId, ev.event.kind, p⟩) ++
      [.globalKind communityId ev.event.kind, .globalWildcard communityId]

theorem fanOutScoped_eq (r : SubscriptionRegistry) (communityId : CommunityId) (ev : StoredEvent) :
    r.fanOutScoped communityId ev =
      (((probes communityId ev).flatMap r.postings).foldl (r.pushMatch communityId ev)
        ⟨[], []⟩).results := by
  cases hch : ev.channelId with
  | some chId => simp [fanOutScoped, probes, hch, postings]
  | none =>
    simp only [fanOutScoped, probes, hch, List.flatMap_append, List.foldl_append,
      List.flatMap_map, List.foldl_flatMap, List.flatMap_cons, List.flatMap_nil, List.append_nil]
    rfl

theorem pushMatch_cases (r : SubscriptionRegistry) (communityId : CommunityId) (ev : StoredEvent)
    (acc : FanOut) (w : ConnId × SubId) :
    ((∃ e, r.entry w.1 w.2 = some e ∧ Receives communityId ev e) ∧ w ∉ acc.seen ∧
        r.pushMatch communityId ev acc w = ⟨acc.results ++ [w], w :: acc.seen⟩) ∨
      (((∃ e, r.entry w.1 w.2 = some e ∧ Receives communityId ev e) → w ∈ acc.seen) ∧
        r.pushMatch communityId ev acc w = acc) := by
  unfold pushMatch
  split
  · rename_i filters subCommunityId scope he
    split
    · rename_i hr
      split
      · rename_i hs
        exact .inr ⟨fun _ => hs, rfl⟩
      · rename_i hs
        exact .inl ⟨⟨⟨filters, subCommunityId, scope⟩, he, hr⟩, hs, rfl⟩
    · rename_i hr
      refine .inr ⟨?_, rfl⟩
      rintro ⟨e, he', hrec⟩
      rw [he] at he'
      cases he'
      exact absurd hrec hr
  · rename_i he
    refine .inr ⟨?_, rfl⟩
    rintro ⟨e, he', _⟩
    rw [he] at he'
    cases he'

/-- While a fan-out runs, `seen` holds the results, which are distinct. -/
structure FanOut.Ok (acc : FanOut) : Prop where
  nodup : acc.results.Nodup
  seen : ∀ w, w ∈ acc.seen ↔ w ∈ acc.results

theorem FanOut.Ok.pushMatch (h : FanOut.Ok acc) (r : SubscriptionRegistry)
    (communityId : CommunityId) (ev : StoredEvent) (w : ConnId × SubId) :
    FanOut.Ok (r.pushMatch communityId ev acc w) ∧
      ∀ v, v ∈ (r.pushMatch communityId ev acc w).results ↔
        v ∈ acc.results ∨
          (v = w ∧ ∃ e, r.entry w.1 w.2 = some e ∧ Receives communityId ev e) := by
  rcases pushMatch_cases r communityId ev acc w with ⟨hrec, hns, he⟩ | ⟨hseen, he⟩
  · rw [he]
    have hnr : w ∉ acc.results := fun hw => hns ((h.seen w).mpr hw)
    refine ⟨⟨?_, ?_⟩, ?_⟩
    · rw [List.nodup_append_comm]
      exact List.nodup_cons.mpr ⟨hnr, h.nodup⟩
    · intro v
      simp [h.seen v, or_comm]
    · intro v
      simp [hrec]
  · rw [he]
    refine ⟨h, fun v => ⟨.inl, ?_⟩⟩
    rintro (hv | ⟨rfl, hrec⟩)
    · exact hv
    · exact (h.seen v).mp (hseen hrec)

theorem FanOut.Ok.pushMatches (h : FanOut.Ok acc) (r : SubscriptionRegistry)
    (communityId : CommunityId) (ev : StoredEvent) (ws : List (ConnId × SubId)) :
    FanOut.Ok (ws.foldl (r.pushMatch communityId ev) acc) ∧
      ∀ v, v ∈ (ws.foldl (r.pushMatch communityId ev) acc).results ↔
        v ∈ acc.results ∨
          (v ∈ ws ∧ ∃ e, r.entry v.1 v.2 = some e ∧ Receives communityId ev e) := by
  induction ws generalizing acc with
  | nil => simpa using h
  | cons w ws ih =>
    obtain ⟨hok, hmem⟩ := h.pushMatch r communityId ev w
    obtain ⟨hok', hmem'⟩ := ih hok
    refine ⟨hok', fun v => ?_⟩
    rw [List.foldl_cons, hmem', hmem, List.mem_cons, or_assoc]
    apply or_congr_right
    constructor
    · rintro (⟨rfl, hrec⟩ | ⟨hv, hrec⟩)
      · exact ⟨.inl rfl, hrec⟩
      · exact ⟨.inr hv, hrec⟩
    · rintro ⟨rfl | hv, hrec⟩
      · exact .inl ⟨rfl, hrec⟩
      · exact .inr ⟨hv, hrec⟩

/-- A subscription that should receive the event is indexed under a key that is looked up. -/
theorem exists_probe (hr : Receives communityId ev e) :
    ∃ slot ∈ probes communityId ev, slot ∈ e.slots := by
  obtain ⟨hc, hch, hm⟩ := hr
  obtain ⟨filters, subCommunityId, scope⟩ := e
  simp only at hc hch hm
  subst hc
  rw [probes]
  cases scope with
  | channels ids =>
    cases hev : ev.channelId with
    | none => simp [hev, SubscriptionScope.matchesChannel] at hch
    | some chId =>
      have hmem : chId ∈ ids := by simpa [hev, SubscriptionScope.matchesChannel] using hch
      cases hk : extractKindsFromFilters filters with
      | none =>
        exact ⟨.channelWildcard subCommunityId chId, by simp,
          channelWildcard_mem_slots.mpr ⟨rfl, hmem, hk⟩⟩
      | some kinds =>
        exact ⟨.channelKind subCommunityId ⟨chId, ev.event.kind⟩, by simp,
          channelKind_mem_slots.mpr ⟨rfl, hmem, yieldsKind_of_match hk hm⟩⟩
  | global =>
    cases hev : ev.channelId with
    | some chId => simp [hev, SubscriptionScope.matchesChannel] at hch
    | none =>
      cases hp : extractGlobalPKindIndexKeys subCommunityId filters with
      | some keys =>
        obtain ⟨p, hpev, hkey⟩ := pKind_of_match hp hm
        exact ⟨.globalPKind ⟨subCommunityId, ev.event.kind, p⟩, by simpa using hpev,
          globalPKind_mem_slots.mpr ⟨rfl, rfl, keys, hp, hkey⟩⟩
      | none =>
        cases hk : extractKindsFromFilters filters with
        | none =>
          exact ⟨.globalWildcard subCommunityId, by simp,
            globalWildcard_mem_slots.mpr ⟨rfl, rfl, hp, hk⟩⟩
        | some kinds =>
          exact ⟨.globalKind subCommunityId ev.event.kind, by simp,
            globalKind_mem_slots.mpr ⟨rfl, rfl, hp, yieldsKind_of_match hk hm⟩⟩

theorem Coherent.fanOutScoped (h : Coherent r) (communityId : CommunityId) (ev : StoredEvent) :
    (r.fanOutScoped communityId ev).Nodup ∧
      ∀ conn sub, (conn, sub) ∈ r.fanOutScoped communityId ev ↔
        ∃ e, r.entry conn sub = some e ∧ Receives communityId ev e := by
  have hinit : FanOut.Ok ⟨[], []⟩ := ⟨List.nodup_nil, by simp⟩
  obtain ⟨hok, hmem⟩ := hinit.pushMatches r communityId ev
    ((probes communityId ev).flatMap r.postings)
  rw [fanOutScoped_eq]
  refine ⟨hok.nodup, ?_⟩
  intro conn sub
  rw [hmem]
  simp only [List.not_mem_nil, false_or, List.mem_flatMap]
  refine ⟨And.right, ?_⟩
  rintro ⟨e, he, hr⟩
  obtain ⟨slot, hprobe, hslot⟩ := exists_probe hr
  exact ⟨⟨slot, hprobe, (h.posted slot conn sub).mpr ⟨e, he, hslot⟩⟩, e, he, hr⟩

theorem mem_fullScan (r : SubscriptionRegistry) (communityId : CommunityId) (ev : StoredEvent)
    (conn : ConnId) (sub : SubId) :
    (conn, sub) ∈ r.fullScan communityId ev ↔
      ∃ e, r.entry conn sub = some e ∧ Receives communityId ev e := by
  simp only [fullScan, List.mem_flatMap, List.mem_map, List.mem_filter, decide_eq_true_eq,
    Prod.mk.injEq]
  constructor
  · rintro ⟨⟨_, connSubs⟩, hc, ⟨_, e⟩, ⟨he, hr⟩, rfl, rfl⟩
    refine ⟨e, ?_, hr⟩
    rw [entry, AList.mem_lookup_iff.mpr hc, Option.bind_some]
    exact AList.mem_lookup_iff.mpr he
  · rintro ⟨e, he, hr⟩
    obtain ⟨connSubs, hc, hs⟩ := Option.bind_eq_some_iff.mp he
    exact ⟨⟨conn, connSubs⟩, AList.mem_lookup_iff.mp hc, ⟨sub, e⟩,
      ⟨AList.mem_lookup_iff.mp hs, hr⟩, rfl, rfl⟩

theorem nodup_fullScan (r : SubscriptionRegistry) (communityId : CommunityId) (ev : StoredEvent) :
    (r.fullScan communityId ev).Nodup := by
  rw [fullScan, List.nodup_flatMap]
  constructor
  · intro conn _
    have hkeys := conn.2.nodupKeys.sublist
      (List.filter_sublist (p := fun sub => decide (Receives communityId ev sub.2)))
    apply List.Nodup.of_map Prod.snd
    rw [List.map_map]
    exact hkeys
  · apply (List.nodupKeys_iff_pairwise.mp r.subs.nodupKeys).imp
    intro c c' hne w hw hw'
    obtain ⟨s, _, rfl⟩ := List.mem_map.mp hw
    obtain ⟨s', _, he⟩ := List.mem_map.mp hw'
    exact hne (congrArg Prod.fst he).symm

/-- In every reachable registry the fan-out over the five indexes delivers to exactly the
subscriptions that a scan of all entries selects, each once. -/
theorem fanOutScoped_run (ops : List RegistryOp) (communityId : CommunityId) (ev : StoredEvent) :
    ((run ops).fanOutScoped communityId ev).Nodup ∧
      (∀ conn sub, (conn, sub) ∈ (run ops).fanOutScoped communityId ev ↔
        ∃ e, (run ops).entry conn sub = some e ∧ e.communityId = communityId ∧
          e.scope.matchesChannel ev.channelId = true ∧ filtersMatch e.filters ev = true) ∧
      ((run ops).fanOutScoped communityId ev).Perm ((run ops).fullScan communityId ev) := by
  obtain ⟨hnodup, hmem⟩ := (coherent_run ops).fanOutScoped communityId ev
  refine ⟨hnodup, hmem, ?_⟩
  rw [List.perm_ext_iff_of_nodup hnodup (nodup_fullScan _ communityId ev)]
  rintro ⟨conn, sub⟩
  rw [hmem, mem_fullScan]

end Buzz.SubscriptionRegistry
