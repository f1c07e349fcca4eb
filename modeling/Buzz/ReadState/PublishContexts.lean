import Buzz.ReadState.Publishing

namespace Buzz.ReadState
set_option autoImplicit true

section Trimmed

variable {format : NumberText} {clientId : String} {contexts : List Entry} {maxBytes : ℕ}

theorem blobBytes_sublist (format : NumberText) (clientId : String) {entries : List Entry}
    (h : entries.Sublist contexts) :
    blobBytes format clientId entries ≤ blobBytes format clientId contexts := by
  obtain ⟨rest, hperm⟩ := h.exists_perm_append
  rw [blobBytes_perm format clientId hperm, blobBytes_eq, blobBytes_eq format clientId (_ ++ _),
    List.map_append, List.sum_append, List.length_append]
  omega

theorem trim_sublist :
    (trimContextsToBudget format contexts clientId maxBytes).1.Sublist contexts := by
  rw [trimContextsToBudget]
  by_cases hfits : blobBytes format clientId contexts ≤ maxBytes
  · rw [if_pos hfits]
  · rw [if_neg hfits]
    exact List.filter_sublist

/-- Channels are never evicted. -/
theorem trim_channels (format : NumberText) (clientId : String) (maxBytes : ℕ)
    (contexts : List Entry) : (contexts.filter fun e => !isThreadOrMsg e.1).Sublist
    (trimContextsToBudget format contexts clientId maxBytes).1 := by
  rw [trimContextsToBudget]
  by_cases hfits : blobBytes format clientId contexts ≤ maxBytes
  · rw [if_pos hfits]
    exact List.filter_sublist
  · rw [if_neg hfits]
    obtain ⟨k, _, hkeys, _⟩ := toEvict_spec format maxBytes (blobBytes format clientId contexts)
      (evictionOrder contexts)
    rw [hkeys]
    apply List.monotone_filter_right
    intro e hkind
    apply decide_eq_true
    intro hgone
    obtain ⟨gone, hmem, hkey⟩ := List.mem_map.mp hgone
    have hkind' := (mem_evictionOrder.mp (List.mem_of_mem_take hmem)).2
    rw [hkey] at hkind'
    rw [hkind'] at hkind
    cases hkind

theorem fitsAfterTrim_iff :
    (trimContextsToBudget format contexts clientId maxBytes).2.fitsAfterTrim = true ↔
      blobBytes format clientId (trimContextsToBudget format contexts clientId maxBytes).1 ≤
        maxBytes := by
  rw [trimContextsToBudget]
  by_cases hfits : blobBytes format clientId contexts ≤ maxBytes
  · rw [if_pos hfits]
    exact ⟨fun _ => hfits, fun _ => rfl⟩
  · rw [if_neg hfits]
    simp only [decide_eq_true_eq]

end Trimmed

section Current

variable {format : NumberText} {clientId : String} {contexts current : List Entry}

theorem distinctKeys_record (h : DistinctKeys contexts) :
    contexts.foldl assign [] = contexts.filter fun e => e.1 ≠ "__proto__" :=
  foldl_assign h

/-- One slot is not enough if the channels do not fit in it. -/
theorem currentContexts_eq_none_iff (h : DistinctKeys contexts) :
    currentContexts format clientId contexts = none ↔ READ_STATE_MAX_PLAINTEXT_BYTES <
      blobBytes format clientId ((contexts.foldl assign []).filter fun e => !isThreadOrMsg e.1) := by
  have hrecord : DistinctKeys (contexts.foldl assign []) := by
    rw [distinctKeys_record h]
    exact h.filter _
  rw [currentContexts]
  by_cases hfits : (trimContextsToBudget format (contexts.foldl assign []) clientId
      READ_STATE_MAX_PLAINTEXT_BYTES).2.fitsAfterTrim = true
  · have hbudget := fitsAfterTrim_iff.mp hfits
    have hchannels := blobBytes_sublist format clientId (trim_channels format clientId
      READ_STATE_MAX_PLAINTEXT_BYTES (contexts.foldl assign []))
    rw [if_pos hfits]
    constructor
    · intro hnone
      cases hnone
    · exact fun hlarge => absurd (lt_of_lt_of_le hlarge hchannels) (not_lt.mpr hbudget)
  · rw [if_neg hfits]
    refine ⟨fun _ => ?_, fun _ => rfl⟩
    by_contra hsmall
    obtain ⟨k, hkept, hbudget, _⟩ := trim_spec format hrecord (not_lt.mp hsmall)
    rw [← hkept] at hbudget
    exact hfits (fitsAfterTrim_iff.mpr hbudget)

theorem currentContexts_eq_some (h : currentContexts format clientId contexts = some current) :
    current = (trimContextsToBudget format (contexts.foldl assign []) clientId
      READ_STATE_MAX_PLAINTEXT_BYTES).1 := by
  rw [currentContexts] at h
  by_cases hfits : (trimContextsToBudget format (contexts.foldl assign []) clientId
      READ_STATE_MAX_PLAINTEXT_BYTES).2.fitsAfterTrim = true
  · rw [if_pos hfits] at h
    exact (Option.some.inj h).symm
  · rw [if_neg hfits] at h
    cases h

end Current

section Union

variable {entries : List Entry} {e : Entry}

/-- The union has only entries, and no entry is above it. -/
theorem maxUnion_spec (entries : List Entry) :
    (∀ k v, (maxUnion entries).lookup k = some v → (k, v) ∈ entries) ∧
      ∀ e ∈ entries, ∃ v, e.2 ≤ v ∧ (maxUnion entries).lookup e.1 = some v := by
  induction entries using List.reverseRecOn with
  | nil =>
    constructor
    · intro k v h
      cases h
    · intro e he
      cases he
  | append_singleton entries e ih =>
    obtain ⟨hfrom, habove⟩ := ih
    have hlast : maxUnion (entries ++ [e]) =
        if ((maxUnion entries).lookup e.1).all (· < e.2) then (maxUnion entries).insert e.1 e.2
        else maxUnion entries := by
      rw [maxUnion, List.foldl_append]
      rfl
    rw [hlast]
    by_cases hmore : ((maxUnion entries).lookup e.1).all (· < e.2) = true
    · rw [if_pos hmore]
      constructor
      · intro k v hv
        rw [List.mem_append]
        by_cases hk : k = e.1
        · subst hk
          rw [AList.lookup_insert] at hv
          obtain rfl := Option.some.inj hv
          exact .inr List.mem_cons_self
        · rw [AList.lookup_insert_ne hk] at hv
          exact .inl (hfrom k v hv)
      · intro e' he'
        by_cases hk : e'.1 = e.1
        · refine ⟨e.2, ?_, by rw [hk, AList.lookup_insert]⟩
          cases List.mem_append.mp he' with
          | inl hold =>
            obtain ⟨v, hv, hlookup⟩ := habove e' hold
            rw [hk] at hlookup
            rw [hlookup, Option.all_some, decide_eq_true_eq] at hmore
            exact le_trans hv hmore.le
          | inr hnew => rw [List.mem_singleton.mp hnew]
        · rw [AList.lookup_insert_ne hk]
          cases List.mem_append.mp he' with
          | inl hold => exact habove e' hold
          | inr hnew => exact absurd (congrArg Prod.fst (List.mem_singleton.mp hnew)) hk
    · rw [if_neg hmore]
      refine ⟨fun k v hv => List.mem_append_left _ (hfrom k v hv), ?_⟩
      intro e' he'
      cases List.mem_append.mp he' with
      | inl hold => exact habove e' hold
      | inr hnew =>
        rw [List.mem_singleton.mp hnew]
        cases hlookup : (maxUnion entries).lookup e.1 with
        | none =>
          rw [hlookup] at hmore
          exact absurd rfl hmore
        | some v =>
          rw [hlookup, Option.all_some, decide_eq_true_eq] at hmore
          exact ⟨v, not_lt.mp hmore, rfl⟩

theorem mem_maxUnion_entries {k : String} {v : ℚ} :
    (k, v) ∈ ((maxUnion entries).entries.map fun e => (e.1, e.2)) ↔
      (maxUnion entries).lookup k = some v := by
  constructor
  · intro hmem
    obtain ⟨own, hown, heq⟩ := List.mem_map.mp hmem
    cases heq
    exact AList.mem_lookup_iff.mpr hown
  · exact fun h => List.mem_map.mpr ⟨⟨k, v⟩, AList.mem_lookup_iff.mp h, rfl⟩

/-- What is the same as what was published last was published. -/
theorem lookup_of_identical {m : Manager} (h : m.isIdenticalToLastPublished entries = true)
    (he : e ∈ entries) : m.lastPublishedContexts.lookup e.1 = some e.2 :=
  of_decide_eq_true (List.all_eq_true.mp (Bool.and_eq_true_iff.mp h).2 e he)

end Union

section Split

variable {format : NumberText} {args : SplitArgs} {r : SlotSplitResult} {e : Entry}

/-- A channel is in some slot. -/
theorem channel_in_slot (hvalid : args.Valid)
    (h : splitContextsIntoBudgetedSlots format args = some r) (he : e ∈ args.channelEntries)
    (hname : e.1 ≠ "__proto__") : ∃ slot ∈ r.slots, e ∈ slot := by
  have hkind := hvalid.channel e he
  have hlen := (split_slots hvalid h).2.1
  have hpos := lt_of_lt_of_le hvalid.slot (slotCount_spec format hvalid).1
  obtain ⟨i, hi⟩ := List.mem_iff_getElem?.mp he
  have hturn := Nat.mod_lt i hpos
  have hslot : e ∈ r.slots.getD (i % args.slotCount format) [] := by
    rw [mem_slot_iff hvalid h hkind, mem_dealtTo]
    exact ⟨hturn, hname, i, hi, by rw [Nat.zero_add]⟩
  rw [List.getD_eq_getElem _ _ (hlen.symm ▸ hturn)] at hslot
  exact ⟨_, List.getElem_mem _, hslot⟩

/-- A thread or message that the trim keeps is in the primary slot. -/
theorem thread_in_slot (hvalid : args.Valid)
    (h : splitContextsIntoBudgetedSlots format args = some r) (he : e ∈ args.threadMsgEntries)
    (hkept : e.1 ∈ (trimContextsToBudget format (withThreads args ((distribute args.channelEntries
      (args.slotCount format)).getD 0 [])) args.clientId args.maxBytes).1.map Prod.fst) :
    ∃ slot ∈ r.slots, e ∈ slot := by
  obtain ⟨_, hlen, _, hprimary, _⟩ := split_slots hvalid h
  have hpos := lt_of_lt_of_le hvalid.slot (slotCount_spec format hvalid).1
  have hsub := dealtTo_sublist (args.slotCount format) 0 0 args.channelEntries
  have hboth := distinctKeys_append (hvalid.channels.sublist (hsub.map Prod.fst)) hvalid.threads
    (fun e he => hvalid.channel e (hsub.subset he)) hvalid.thread
  rw [distribute_getD hvalid.channels hpos, ← hprimary] at hkept
  obtain ⟨e', he', hkey⟩ := List.mem_map.mp hkept
  have hfrom : e' ∈ dealtTo (args.slotCount format) 0 0 args.channelEntries ++
      args.threadMsgEntries := by
    rw [← withThreads_eq hvalid hboth]
    exact (hprimary ▸ trim_sublist).subset he'
  have hsame := hboth.eq hfrom (List.mem_append_right _ he) hkey
  rw [hsame, List.getD_eq_getElem _ _ (hlen.symm ▸ hpos)] at he'
  exact ⟨_, List.getElem_mem _, he'⟩

end Split

end Buzz.ReadState
