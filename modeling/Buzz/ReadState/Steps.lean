import Buzz.ReadState.Runs

namespace Buzz.ReadState
set_option autoImplicit true
open Join

namespace Manager

variable {m m' : Manager} {c : Client}

/-- What only publishing and destroying change. -/
structure Frame (m m' : Manager) : Prop where
  destroyed : m'.destroyed = m.destroyed
  outgoing : m'.outgoing = m.outgoing
  ids : m'.recentlyPublishedIds = m.recentlyPublishedIds

theorem Frame.refl (m : Manager) : Frame m m :=
  ⟨rfl, rfl, rfl⟩

theorem Frame.trans {m'' : Manager} (h : Frame m m') (h' : Frame m' m'') : Frame m m'' :=
  ⟨h'.destroyed.trans h.destroyed, h'.outgoing.trans h.outgoing, h'.ids.trans h.ids⟩

theorem Frame.foldl {f : Manager → α → Manager} (hf : ∀ m a, Frame m (f m a)) (as : List α)
    (m : Manager) : Frame m (as.foldl f m) := by
  induction as generalizing m with
  | nil => exact .refl m
  | cons a as ih => exact (hf m a).trans (ih (f m a))

theorem advanceContext_frame (contextId : String) (unixTimestamp : ℚ) (publishable : Bool) :
    Frame m (m.advanceContext contextId unixTimestamp publishable) := by
  rw [advanceContext]
  split
  · exact .refl m
  · split
    · split
      · exact .refl m
      · exact ⟨rfl, rfl, rfl⟩
    · split
      · exact ⟨rfl, rfl, rfl⟩
      · exact ⟨rfl, rfl, rfl⟩

theorem mergeContext_frame (createdAt : Nat) (m : Manager) (e : String × ℚ) :
    Frame m (m.mergeContext createdAt e) := by
  rw [mergeContext]
  split
  · rename_i heq
    rw [← (Prod.mk.inj heq).1]
    exact ⟨rfl, rfl, rfl⟩
  · rename_i heq
    rw [← (Prod.mk.inj heq).1]
    exact ⟨rfl, rfl, rfl⟩

theorem incomingContext_frame (createdAt : Nat) (m : Manager) (e : String × ℚ) :
    Frame m (m.incomingContext createdAt e) := by
  rw [incomingContext]
  split
  · rename_i heq
    rw [← (Prod.mk.inj heq).1]
    exact ⟨rfl, rfl, rfl⟩
  · rename_i heq
    rw [← (Prod.mk.inj heq).1]
    exact ⟨rfl, rfl, rfl⟩

theorem handleDecrypted_frame (c : Client) (event : RelayEvent) :
    Frame m (m.handleDecrypted c event) := by
  rw [handleDecrypted]
  split
  · exact .refl m
  · rename_i parsed _
    split
    · exact .refl m
    · have hnote : Frame m (m.noteFetched parsed.createdAt) := ⟨rfl, rfl, rfl⟩
      exact hnote.trans (.foldl (incomingContext_frame parsed.createdAt) _ _)

theorem mergeParsed_frame (parsed : ParsedReadStateEvent) : Frame m (m.mergeParsed parsed) := by
  have hnote : Frame m (m.noteFetched parsed.createdAt) := ⟨rfl, rfl, rfl⟩
  exact hnote.trans (.foldl (mergeContext_frame parsed.createdAt) _ _)

theorem unionOwnBlobs_frame (own : Table String OwnBlob) :
    Frame m (m.unionOwnBlobs own) ∧ (m.unionOwnBlobs own).effectiveState = m.effectiveState := by
  rw [unionOwnBlobs]
  split
  · exact ⟨.refl m, rfl⟩
  · exact ⟨⟨rfl, rfl, rfl⟩, rfl⟩

/-- What one step of a `mergeEvents` does to the effective timestamps. -/
theorem mergeNext_effective (hlive : m.destroyed = false) (newSlotId : String) (task : Merge) :
    Frame m (m.mergeNext c newSlotId task).1 ∧ ∀ k, (m.mergeNext c newSlotId task).1.effective k =
      joinAt (m.effective k) ((ReadEntry.merge task.next).timestamps c) k := by
  obtain ⟨events, remaining, own, checking⟩ := task
  rw [mergeNext, hlive, if_neg Bool.false_ne_true]
  cases checking with
  | true =>
    cases remaining with
    | nil =>
      obtain ⟨hframe, heffective⟩ := unionOwnBlobs_frame (m := m) own
      refine ⟨hframe, fun k => ?_⟩
      rw [effective, heffective]
      rfl
    | cons event remaining =>
      dsimp only
      split
      · exact ⟨⟨hlive.symm, rfl, rfl⟩, fun _ => rfl⟩
      · exact ⟨.refl m, fun _ => rfl⟩
  | false =>
    cases remaining with
    | nil => exact ⟨.refl m, fun _ => rfl⟩
    | cons event remaining =>
      have htimestamps : (ReadEntry.merge
          (Merge.next ⟨events, event :: remaining, own, false⟩)).timestamps c =
            contextsOf c.decrypt c.pubkey event := rfl
      rw [htimestamps, contextsOf]
      cases hparse : parseReadStateEvent c.decrypt c.pubkey event with
      | none =>
        dsimp only [Client.parseEvent]
        rw [hparse]
        exact ⟨.refl m, fun _ => rfl⟩
      | some parsed =>
        dsimp only [Client.parseEvent]
        rw [hparse]
        exact ⟨mergeParsed_frame parsed, mergeParsed_effective parsed⟩

/-- The storage is joined where it covers the manager. -/
theorem hydrate_joins {stored : StoredReadState} (h : Covered m (.hydrate stored)) (k : String) :
    (m.hydrateFromLocalStorage stored).effective k =
      joinAt (m.effective k) (stored.contexts.entries.map fun e => (e.1, e.2)) k := by
  rw [hydrate_effective]
  cases hk : stored.contexts.lookup k with
  | none =>
    rw [joinAt_eq_self]
    · rfl
    · rintro e he rfl
      obtain ⟨own, hown, rfl⟩ := List.mem_map.mp he
      have hsome : stored.contexts.lookup own.1 = some own.2 := AList.mem_lookup_iff.mpr hown
      rw [hsome] at hk
      cases hk
  | some v =>
    apply le_antisymm
    · have hmem : (k, v) ∈ stored.contexts.entries.map fun e => (e.1, e.2) :=
        List.mem_map.mpr ⟨⟨k, v⟩, AList.mem_lookup_iff.mp hk, rfl⟩
      exact le_joinAt_of_mem hmem
    · rw [Option.getD_some, joinAt_le_iff]
      refine ⟨h k v hk, ?_⟩
      rintro e he rfl
      obtain ⟨own, hown, rfl⟩ := List.mem_map.mp he
      have hsome : stored.contexts.lookup own.1 = some own.2 := AList.mem_lookup_iff.mpr hown
      exact (Option.some.inj (hsome.symm.trans hk)).le

theorem mergeNext_frame (newSlotId : String) (task : Merge) :
    Frame m (m.mergeNext c newSlotId task).1 := by
  cases hlive : m.destroyed with
  | true =>
    rw [mergeNext, hlive, if_pos rfl]
    exact .refl m
  | false => exact (mergeNext_effective hlive newSlotId task).1

theorem receive_effective {event : RelayEvent} {echo : Bool} (h : m.receive c event = (m', echo)) :
    m'.effectiveState = m.effectiveState ∧ m'.destroyed = m.destroyed ∧
      m'.outgoing = m.outgoing ∧ (∀ id ∈ m'.recentlyPublishedIds, id ∈ m.recentlyPublishedIds) ∧
      (echo = true → event.id ∈ m.recentlyPublishedIds) := by
  rw [receive] at h
  split at h
  · obtain ⟨rfl, rfl⟩ := Prod.mk.inj h
    exact ⟨rfl, rfl, rfl, fun _ hid => hid, fun hecho => Bool.noConfusion hecho⟩
  · split at h
    · rename_i hmem
      obtain ⟨rfl, rfl⟩ := Prod.mk.inj h
      exact ⟨rfl, rfl, rfl, fun _ hid => List.mem_of_mem_erase hid, fun _ => hmem⟩
    · obtain ⟨rfl, rfl⟩ := Prod.mk.inj h
      exact ⟨rfl, rfl, rfl, fun _ hid => hid, fun hecho => Bool.noConfusion hecho⟩

theorem mem_addMember {α : Type} [DecidableEq α] {a b : α} {l : List α} (h : b ∈ addMember a l) :
    b ∈ l ∨ b = a := by
  rw [addMember] at h
  split at h
  · exact .inl h
  · obtain h | h := List.mem_append.mp h
    · exact .inl h
    · exact .inr (List.mem_singleton.mp h)

theorem mem_rememberPublishedId {id id' : EventId}
    (h : id' ∈ (m.rememberPublishedId id).recentlyPublishedIds) :
    id' ∈ m.recentlyPublishedIds ∨ id' = id := by
  apply mem_addMember
  have hids : (m.rememberPublishedId id).recentlyPublishedIds =
      if PUBLISHED_ID_MEMORY < (addMember id m.recentlyPublishedIds).length then
        (addMember id m.recentlyPublishedIds).tail else addMember id m.recentlyPublishedIds := rfl
  rw [hids] at h
  split at h
  · exact List.mem_of_mem_tail h
  · exact h

theorem publishableContexts_effective {e : String × ℚ} (h : e ∈ m.publishableContexts) :
    e.2 = m.effective e.1 := by
  obtain ⟨own, hown, rfl⟩ := List.mem_map.mp h
  have hlookup : m.effectiveState.lookup own.1 = some own.2 :=
    AList.mem_lookup_iff.mpr (List.mem_of_mem_filter hown)
  rw [effective, hlookup]
  rfl

end Manager

namespace ReadStep

variable {c : Client} {m m' : Manager} {entry : ReadEntry}

/-- A step joins what its entry brings, where hydration covers the manager and an echo tells
nothing new. -/
theorem effective (h : ReadStep c m entry m') (hlive : m.destroyed = false)
    (hcovered : Covered m entry) (hecho : ∀ event, entry = .receive event true →
      ∀ e ∈ contextsOf c.decrypt c.pubkey event, e.2 ≤ m.effective e.1) (k : String) :
    m'.effective k = joinAt (m.effective k) (entry.timestamps c) k := by
  cases h with
  | hydrate => exact Manager.hydrate_joins hcovered k
  | mark => exact Manager.advanceContext_joins hlive _ _ true k
  | seed => exact Manager.advanceContext_joins hlive _ _ false k
  | merge => exact (Manager.mergeNext_effective hlive _ _).2 k
  | @receive _ _ echo hreceive =>
    have hsame : m'.effective k = m.effective k := by
      rw [Manager.effective, (Manager.receive_effective hreceive).1]
      rfl
    rw [hsame]
    cases echo with
    | false => rfl
    | true =>
      symm
      apply joinAt_eq_self
      rintro e he rfl
      exact hecho _ rfl e he
  | handle => exact Manager.handleDecrypted_effective c _ hlive k
  | initialized => rfl
  | fetch => rfl
  | collect => rfl
  | publish => rfl
  | published => rfl
  | resetPublished => rfl
  | drain => rfl
  | destroy => rfl

/-- Nothing changes the timestamps of a manager that is destroyed. -/
theorem effective_destroyed (h : ReadStep c m entry m') (hdestroyed : m.destroyed = true)
    (k : String) : m'.effective k = m.effective k := by
  have hadvance : ∀ contextId unixTimestamp publishable,
      m.advanceContext contextId unixTimestamp publishable = m := by
    intro contextId unixTimestamp publishable
    rw [Manager.advanceContext, if_pos hdestroyed]
  cases h with
  | hydrate _ hlive => exact absurd (hlive.symm.trans hdestroyed) Bool.false_ne_true
  | mark =>
    rename_i contextId unixTimestamp now
    exact congrArg (·.effective k) (hadvance contextId unixTimestamp true)
  | seed =>
    rename_i contextId unixTimestamp
    exact congrArg (·.effective k) (hadvance contextId unixTimestamp false)
  | merge =>
    rename_i task newSlotId i hi
    have hnone : (m.mergeNext c newSlotId task).1 = m := by
      rw [Manager.mergeNext, if_pos hdestroyed]
    exact congrArg (·.effective k) hnone
  | receive hreceive =>
    rw [Manager.effective, (Manager.receive_effective hreceive).1]
    rfl
  | handle =>
    rename_i event i hi
    have hsame : m.handleDecrypted c event = m := by
      rw [Manager.handleDecrypted]
      split
      · rfl
      · rw [if_pos hdestroyed]
    exact congrArg (·.effective k) hsame
  | initialized => rfl
  | fetch => rfl
  | collect => rfl
  | publish => rfl
  | published => rfl
  | resetPublished => rfl
  | drain => rfl
  | destroy => rfl

/-- Only four kinds of step touch what goes out, the ids that went out or the end. -/
theorem frame (h : ReadStep c m entry m') :
    (Manager.Frame m m' ∧ entry.isDestroy = false) ∨
    (entry = .destroy ∧ m' = { m with destroyed := true }) ∨
    (∃ slots, entry = .collect slots ∧ (∀ slot ∈ slots, ∀ e ∈ slot, e ∈ m.publishableContexts) ∧
      m' = { m with outgoing := m.outgoing ++ slots }) ∨
    (∃ event, entry = .publish event ∧ m' = m.rememberPublishedId event.id) ∨
    ∃ event echo, entry = .receive event echo ∧ m.receive c event = (m', echo) := by
  cases h with
  | collect hslots => exact .inr (.inr (.inl ⟨_, rfl, hslots, rfl⟩))
  | publish => exact .inr (.inr (.inr (.inl ⟨_, rfl, rfl⟩)))
  | receive hreceive => exact .inr (.inr (.inr (.inr ⟨_, _, rfl, hreceive⟩)))
  | destroy => exact .inr (.inl ⟨rfl, rfl⟩)
  | mark =>
    obtain ⟨hdestroyed, houtgoing, hids⟩ := Manager.advanceContext_frame (m := m) _ _ true
    exact .inl ⟨⟨hdestroyed, houtgoing, hids⟩, rfl⟩
  | seed => exact .inl ⟨Manager.advanceContext_frame _ _ false, rfl⟩
  | merge =>
    obtain ⟨hdestroyed, houtgoing, hids⟩ := Manager.mergeNext_frame (m := m) (c := c) _ _
    exact .inl ⟨⟨hdestroyed, houtgoing, hids⟩, rfl⟩
  | handle =>
    obtain ⟨hdestroyed, houtgoing, hids⟩ := Manager.handleDecrypted_frame (m := m) c _
    exact .inl ⟨⟨hdestroyed, houtgoing, hids⟩, rfl⟩
  | hydrate => exact .inl ⟨⟨rfl, rfl, rfl⟩, rfl⟩
  | initialized => exact .inl ⟨⟨rfl, rfl, rfl⟩, rfl⟩
  | fetch => exact .inl ⟨⟨rfl, rfl, rfl⟩, rfl⟩
  | published => exact .inl ⟨⟨rfl, rfl, rfl⟩, rfl⟩
  | resetPublished => exact .inl ⟨⟨rfl, rfl, rfl⟩, rfl⟩
  | drain => exact .inl ⟨⟨rfl, rfl, rfl⟩, rfl⟩

theorem destroyed (h : ReadStep c m entry m') :
    m'.destroyed = (m.destroyed || entry.isDestroy) := by
  obtain ⟨hframe, hentry⟩ | ⟨rfl, rfl⟩ | ⟨slots, rfl, -, rfl⟩ | ⟨event, rfl, rfl⟩ |
    ⟨event, echo, rfl, hreceive⟩ := h.frame
  · rw [hframe.destroyed, hentry, Bool.or_false]
  · exact (Bool.or_true _).symm
  · exact (Bool.or_false _).symm
  · exact (Bool.or_false _).symm
  · exact (Manager.receive_effective hreceive).2.1.trans (Bool.or_false _).symm

/-- What goes out is some of what the manager has. -/
theorem outgoing (h : ReadStep c m entry m') {contexts : List (String × ℚ)}
    (hcontexts : contexts ∈ m'.outgoing) :
    contexts ∈ m.outgoing ∨ ∀ e ∈ contexts, e.2 = m.effective e.1 := by
  obtain ⟨hframe, -⟩ | ⟨rfl, rfl⟩ | ⟨slots, rfl, hslots, rfl⟩ | ⟨event, rfl, rfl⟩ |
    ⟨event, echo, rfl, hreceive⟩ := h.frame
  · rw [hframe.outgoing] at hcontexts
    exact .inl hcontexts
  · exact .inl hcontexts
  · obtain hold | hnew := List.mem_append.mp hcontexts
    · exact .inl hold
    · exact .inr fun e he => Manager.publishableContexts_effective (hslots contexts hnew e he)
  · exact .inl hcontexts
  · rw [(Manager.receive_effective hreceive).2.2.1] at hcontexts
    exact .inl hcontexts

theorem recentlyPublishedIds (h : ReadStep c m entry m') {id : EventId}
    (hid : id ∈ m'.recentlyPublishedIds) :
    id ∈ m.recentlyPublishedIds ∨ ∃ event, entry = .publish event ∧ event.id = id := by
  obtain ⟨hframe, -⟩ | ⟨rfl, rfl⟩ | ⟨slots, rfl, -, rfl⟩ | ⟨event, rfl, rfl⟩ |
    ⟨event, echo, rfl, hreceive⟩ := h.frame
  · rw [hframe.ids] at hid
    exact .inl hid
  · exact .inl hid
  · exact .inl hid
  · obtain hold | rfl := Manager.mem_rememberPublishedId hid
    · exact .inl hold
    · exact .inr ⟨event, rfl, rfl⟩
  · exact .inl ((Manager.receive_effective hreceive).2.2.2.1 id hid)

/-- A step takes a timestamp back in one way only: it hydrates from a storage that is behind. -/
theorem grows_iff (h : ReadStep c m entry m') : m.Grows m' ↔ Covered m entry := by
  constructor
  · intro hgrows
    cases h with
    | hydrate =>
      intro k v hv
      have hk := hgrows k
      rw [Manager.hydrate_effective, hv] at hk
      exact hk
    | _ => trivial
  · intro hcovered k
    cases hlive : m.destroyed with
    | true => exact (h.effective_destroyed hlive k).ge
    | false =>
      obtain ⟨event, rfl⟩ | hentry := em (∃ event, entry = .receive event true)
      · cases h with
        | receive hreceive =>
          rw [Manager.effective, Manager.effective, (Manager.receive_effective hreceive).1]
      · rw [h.effective hlive hcovered (fun event he => absurd ⟨event, he⟩ hentry)]
        exact le_joinAt _ _ k

end ReadStep

end Buzz.ReadState
