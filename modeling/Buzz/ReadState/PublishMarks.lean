import Buzz.ReadState.PublishRuns

namespace Buzz.ReadState
set_option autoImplicit true

/-- The names that a lookup finds in every record. -/
def inheritedNames : List String :=
  ["__proto__", "__defineGetter__", "__defineSetter__", "__lookupGetter__", "__lookupSetter__",
    "constructor", "hasOwnProperty", "isPrototypeOf", "propertyIsEnumerable", "toLocaleString",
    "toString", "valueOf"]

/-- The context has its place in the slots that there may be: the channels fit in one slot or can be
split, and a thread or message is not trimmed. -/
structure FitsSlots (format : NumberText) (args : SplitArgs) (record : List Entry) (k : String) :
    Prop where
  trimmed : blobBytes format args.clientId (record.filter fun e => !isThreadOrMsg e.1) ≤
    args.maxBytes → isThreadOrMsg k = true →
      k ∈ (trimContextsToBudget format record args.clientId args.maxBytes).1.map Prod.fst
  split : args.maxBytes <
    blobBytes format args.clientId (record.filter fun e => !isThreadOrMsg e.1) →
      ∃ count, args.initialSlotCount ≤ count ∧ count ≤ args.maxSlots ∧
        args.overBudget format count = false
  primary : args.maxBytes <
    blobBytes format args.clientId (record.filter fun e => !isThreadOrMsg e.1) →
      isThreadOrMsg k = true → k ∈ (trimContextsToBudget format (withThreads args
        ((distribute args.channelEntries (args.slotCount format)).getD 0 [])) args.clientId
          args.maxBytes).1.map Prod.fst

namespace Publish

/-- It has still to look at the contexts. -/
def Looks : Publish → Prop
  | .fetching | .merging _ | .fetched => True
  | _ => False

/-- It has still to hand a context to the relay. -/
def Carries (k : String) (ts : ℚ) : Publish → Prop
  | .deleting _ contexts => ∃ v, ts ≤ v ∧ (k, v) ∈ contexts
  | .sending slots | .sent _ slots => ∃ v, ts ≤ v ∧ ∃ slot ∈ slots, (k, v) ∈ slot.2
  | _ => False

end Publish

/-- The condition on a step: the storage is not behind when it is read, what is published has its
place, and nothing waits to be published when the manager is destroyed. -/
def Meets (c : Client) (format : NumberText) (k : String) (p : Publisher) : PublishEntry → Prop
  | .read (.hydrate stored) =>
    ∀ v, stored.contexts.lookup k = some v → p.manager.effective k ≤ v
  | .publish contexts newSlotIds => p.manager.destroyed = false →
    FitsSlots format (splitArgs c.clientId p.extraSlotIds contexts newSlotIds)
      (contexts.foldl assign []) k
  | .destroy _ _ => p.debounceTimer = false ∧ ∀ publish ∈ p.publishes, ¬ publish.Looks
  | _ => True

namespace Publisher

/-- A mark waits: for a publish that looks at the contexts, or in one that has. -/
def Waits (k : String) (ts : ℚ) (p : Publisher) : Prop :=
  (p.manager.destroyed = false ∧
    (p.debounceTimer = true ∨ ∃ publish ∈ p.publishes, publish.Looks)) ∨
  ∃ publish ∈ p.publishes, publish.Carries k ts

end Publisher

/-- A mark is kept, and it was handed to the relay or waits. -/
structure KeptMark (H : Entry → Prop) (k : String) (ts : ℚ) (p : Publisher) : Prop where
  timestamp : ∃ v, ts ≤ v ∧ p.manager.effectiveState.lookup k = some v
  publishable : k ∈ p.manager.publishableContextIds
  waits : (∃ v, ts ≤ v ∧ H (k, v)) ∨ p.Waits k ts

section Content

variable {format : NumberText} {c : Client} {p : Publisher} {contexts : List Entry} {k : String}
  {v : ℚ} {H : Entry → Prop}

theorem Manager.mem_publishableContexts {m : Manager} (hv : m.effectiveState.lookup k = some v)
    (hk : k ∈ m.publishableContextIds) : (k, v) ∈ m.publishableContexts :=
  List.mem_map.mpr ⟨⟨k, v⟩, List.mem_filter.mpr ⟨AList.mem_lookup_iff.mp hv, decide_eq_true hk⟩, rfl⟩

theorem Manager.publishableContexts_distinct (m : Manager) : DistinctKeys m.publishableContexts := by
  rw [DistinctKeys, Manager.publishableContexts, List.map_map]
  exact (m.effectiveState.nodupKeys.sublist List.filter_sublist)

theorem splitArgs_valid (clientId : String) (newSlotIds : ℕ → String) {extraSlotIds : List String}
    (hdistinct : DistinctKeys contexts) (hslots : extraSlotIds.length + 1 ≤ READ_STATE_MAX_SLOTS) :
    (splitArgs clientId extraSlotIds contexts newSlotIds).Valid := by
  refine ⟨hdistinct.filter _, hdistinct.filter _, fun e he => ?_, fun e he => ?_,
    Nat.succ_le_succ (Nat.zero_le _), hslots⟩
  · exact Bool.not_eq_true' _ |>.mp (List.mem_filter.mp he).2
  · exact (List.mem_filter.mp he).2

/-- What is the same as what was published last was handed to the relay. -/
theorem publishUnlessIdentical_carries (hsound : Sound H p) (hmem : (k, v) ∈ contexts) (hts : ts ≤ v) :
    (∃ v, ts ≤ v ∧ H (k, v)) ∨
      ∃ q, (p.publishUnlessIdentical contexts).2 = some q ∧ q.Carries k ts := by
  rw [Publisher.publishUnlessIdentical]
  by_cases hsame : p.manager.isIdenticalToLastPublished contexts = true
  · rw [if_pos hsame]
    exact .inl ⟨v, hts, hsound.published k v (lookup_of_identical hsame hmem)⟩
  · rw [if_neg hsame]
    exact .inr ⟨_, rfl, v, hts, _, List.mem_cons_self, hmem⟩

theorem publishSplitSlots_carries (hsound : Sound H p) (hdistinct : DistinctKeys contexts)
    (hname : k ≠ "__proto__") (hmem : (k, v) ∈ contexts) (hts : ts ≤ v)
    (hlarge : READ_STATE_MAX_PLAINTEXT_BYTES < blobBytes format c.clientId
      ((contexts.foldl assign []).filter fun e => !isThreadOrMsg e.1))
    (hfits : FitsSlots format (splitArgs c.clientId p.extraSlotIds contexts newSlotIds)
      (contexts.foldl assign []) k) :
    (∃ v, ts ≤ v ∧ H (k, v)) ∨
      ∃ q, (p.publishSplitSlots format c contexts newSlotIds).2 = some q ∧ q.Carries k ts := by
  obtain ⟨count, hmin, hmax, hunder⟩ := hfits.split hlarge
  have hvalid := splitArgs_valid c.clientId newSlotIds hdistinct (hmin.trans hmax)
  rw [Publisher.publishSplitSlots]
  cases hsplit : splitContextsIntoBudgetedSlots format
      (splitArgs c.clientId p.extraSlotIds contexts newSlotIds) with
  | none =>
    rw [(split_eq_none_iff hvalid).mp hsplit count hmin hmax] at hunder
    cases hunder
  | some r =>
    have hslot : ∃ slot ∈ r.slots, (k, v) ∈ slot := by
      cases hkind : isThreadOrMsg k with
      | false =>
        have hchannel : (k, v) ∈ contexts.filter fun e => !isThreadOrMsg e.1 :=
          List.mem_filter.mpr ⟨hmem, by rw [hkind]; rfl⟩
        exact channel_in_slot hvalid hsplit hchannel hname
      | true =>
        have hin : (k, v) ∈ contexts.filter fun e => isThreadOrMsg e.1 :=
          List.mem_filter.mpr ⟨hmem, hkind⟩
        exact thread_in_slot hvalid hsplit hin (hfits.primary hlarge hkind)
    obtain ⟨slot, hin, hentry⟩ := hslot
    dsimp only
    split
    · rename_i hsame
      have hflat : (k, v) ∈ r.slots.flatten := List.mem_flatten.mpr ⟨slot, hin, hentry⟩
      obtain ⟨w, hle, hlookup⟩ := (maxUnion_spec r.slots.flatten).2 (k, v) hflat
      have hlast := lookup_of_identical hsame (mem_maxUnion_entries.mpr hlookup)
      exact .inl ⟨w, hts.trans hle, hsound.published k w hlast⟩
    · obtain ⟨i, hi, rfl⟩ := List.mem_iff_getElem.mp hin
      have hlen : r.slots.length =
          (p.manager.slotId :: (p.extraSlotIds ++ r.extraSlotIds)).length := by
        obtain ⟨_, hslots, hids, _⟩ := split_slots hvalid hsplit
        have hlow := (slotCount_spec format hvalid).1
        have hfirst : (splitArgs c.clientId p.extraSlotIds contexts newSlotIds).initialSlotCount =
          p.extraSlotIds.length + 1 := rfl
        rw [List.length_cons, List.length_append, hids, hslots]
        omega
      have hzip : i < ((p.manager.slotId :: (p.extraSlotIds ++ r.extraSlotIds)).zip
          r.slots).length := by
        rw [List.length_zip, ← hlen, min_self]
        exact hi
      refine .inr ⟨_, rfl, v, hts, _, List.getElem_mem hzip, ?_⟩
      rw [List.getElem_zip]
      exact hentry

/-- A publish that looks at a mark hands it over, if it has not been before. -/
theorem publish_carries (hsound : Sound H p) (hlive : p.manager.destroyed = false)
    (hcontexts : contexts.Perm p.manager.publishableContexts) (hname : k ≠ "__proto__")
    (hv : p.manager.effectiveState.lookup k = some v) (hk : k ∈ p.manager.publishableContextIds)
    (hts : ts ≤ v)
    (hfits : FitsSlots format (splitArgs c.clientId p.extraSlotIds contexts newSlotIds)
      (contexts.foldl assign []) k) :
    (∃ v, ts ≤ v ∧ H (k, v)) ∨
      ∃ q, (p.publish format c contexts newSlotIds).2 = some q ∧ q.Carries k ts := by
  have hmem : (k, v) ∈ contexts :=
    hcontexts.mem_iff.mpr (Manager.mem_publishableContexts hv hk)
  have hdistinct : DistinctKeys contexts :=
    (hcontexts.map Prod.fst).nodup_iff.mpr p.manager.publishableContexts_distinct
  rw [Publisher.publish, hlive, if_neg Bool.false_ne_true]
  cases hcurrent : currentContexts format c.clientId contexts with
  | none =>
    have hlarge := (currentContexts_eq_none_iff hdistinct).mp hcurrent
    dsimp only
    exact publishSplitSlots_carries hsound hdistinct hname hmem hts hlarge hfits
  | some current =>
    have hsmall : ¬ READ_STATE_MAX_PLAINTEXT_BYTES < blobBytes format c.clientId
        ((contexts.foldl assign []).filter fun e => !isThreadOrMsg e.1) := by
      intro hlarge
      rw [(currentContexts_eq_none_iff hdistinct).mpr hlarge] at hcurrent
      cases hcurrent
    have hrecord : (k, v) ∈ contexts.foldl assign [] := by
      rw [distinctKeys_record hdistinct]
      exact List.mem_filter.mpr ⟨hmem, decide_eq_true hname⟩
    have hin : (k, v) ∈ current := by
      rw [currentContexts_eq_some hcurrent]
      cases hkind : isThreadOrMsg k with
      | false =>
        have hchannel : (k, v) ∈ (contexts.foldl assign []).filter fun e => !isThreadOrMsg e.1 :=
          List.mem_filter.mpr ⟨hrecord, by rw [hkind]; rfl⟩
        exact (trim_channels format c.clientId READ_STATE_MAX_PLAINTEXT_BYTES _).subset hchannel
      | true =>
        obtain ⟨e, he, hkey⟩ := List.mem_map.mp (hfits.trimmed (not_lt.mp hsmall) hkind)
        have hsame : e = (k, v) := by
          have hall : DistinctKeys (contexts.foldl assign []) := by
            rw [distinctKeys_record hdistinct]
            exact hdistinct.filter _
          exact hall.eq (trim_sublist.subset he) hrecord hkey
        exact hsame ▸ he
    dsimp only
    split
    · exact publishUnlessIdentical_carries hsound hin hts
    · exact .inr ⟨_, rfl, v, hts, hin⟩

end Content

theorem PublishStep.of_mark (h : PublishStep c format p entry p')
    (hentry : entry = .mark k ts raised) :
    ∃ now, raised = p.raises k ts ∧ p' = p.markContextRead k ts now := by
  cases h with
  | @mark contextId unixTimestamp now =>
    cases hentry
    exact ⟨now, rfl, rfl⟩
  | _ => cases hentry

namespace KeptMark

variable {H H' : Entry → Prop} {c : Client} {format : NumberText} {entry : PublishEntry}
  {k : String} {ts : ℚ} {p p' : Publisher} {j : ℕ} {publish : Publish} {next : Option Publish}

theorem mono (h : KeptMark H k ts p) (hmono : ∀ e, H e → H' e) : KeptMark H' k ts p :=
  ⟨h.timestamp, h.publishable, h.waits.imp_left fun ⟨v, hle, hv⟩ => ⟨v, hle, hmono _ hv⟩⟩

theorem keep (h : KeptMark H k ts p) (hkeeps : p.manager.Keeps k m) :
    (∃ v, ts ≤ v ∧ m.effectiveState.lookup k = some v) ∧ k ∈ m.publishableContextIds := by
  obtain ⟨v, hle, hv⟩ := h.timestamp
  obtain ⟨v', hle', hv'⟩ := hkeeps.timestamp v hv
  exact ⟨⟨v', hle.trans hle', hv'⟩, hkeeps.publishable h.publishable⟩

theorem of_reads (h : KeptMark H k ts p) (hreads : p.Reads k p') : KeptMark H k ts p' := by
  obtain ⟨htimestamp, hpublishable⟩ := h.keep hreads.manager.toKeeps
  refine ⟨htimestamp, hpublishable, h.waits.imp_right fun hwaits => ?_⟩
  rw [Publisher.Waits, hreads.publishes, hreads.manager.destroyed]
  exact hwaits.imp_left fun ⟨hlive, hlooks⟩ => ⟨hlive, hlooks.imp_left hreads.timer⟩

/-- One call goes on: it may look, carry what it has looked at, or have handed it over. -/
theorem setPublish (h : KeptMark H k ts p) (hj : p.publishes[j]? = some publish)
    (hkeeps : p.manager.Keeps k p'.manager) (hpublishes : p'.publishes = p.publishes)
    (htimer : p'.debounceTimer = p.debounceTimer)
    (hlooks : p.manager.destroyed = false → publish.Looks →
      (∃ v, ts ≤ v ∧ H (k, v)) ∨ ∃ q, next = some q ∧ (q.Looks ∨ q.Carries k ts))
    (hcarries : publish.Carries k ts →
      (∃ v, ts ≤ v ∧ H (k, v)) ∨ ∃ q, next = some q ∧ q.Carries k ts) :
    KeptMark H k ts (p'.setPublish j next) := by
  obtain ⟨htimestamp, hpublishable⟩ := h.keep hkeeps
  have hj' : p'.publishes[j]? = some publish := hpublishes ▸ hj
  have hlive : (p'.setPublish j next).manager.destroyed = p.manager.destroyed := hkeeps.destroyed
  refine ⟨htimestamp, hpublishable, ?_⟩
  cases h.waits with
  | inl hdone => exact .inl hdone
  | inr hwaits =>
    rw [Publisher.Waits, hlive]
    cases hwaits with
    | inl hbefore =>
      obtain ⟨halive, hbefore⟩ := hbefore
      cases hbefore with
      | inl hpending => exact .inr (.inl ⟨halive, .inl (htimer.trans hpending)⟩)
      | inr hbefore =>
        obtain ⟨q, hq, hqlooks⟩ := hbefore
        cases Publisher.mem_setPublish_of_ne hj' (hpublishes ▸ hq) with
        | inr hother => exact .inr (.inl ⟨halive, .inr ⟨q, hother, hqlooks⟩⟩)
        | inl hsame =>
          cases hlooks halive (hsame ▸ hqlooks) with
          | inl hdone => exact .inl hdone
          | inr hnext =>
            obtain ⟨q', rfl, hq'⟩ := hnext
            have hmem := Publisher.mem_setPublish_self hj' q'
            cases hq' with
            | inl hagain => exact .inr (.inl ⟨halive, .inr ⟨q', hmem, hagain⟩⟩)
            | inr hcarry => exact .inr (.inr ⟨q', hmem, hcarry⟩)
    | inr hbefore =>
      obtain ⟨q, hq, hqcarries⟩ := hbefore
      cases Publisher.mem_setPublish_of_ne hj' (hpublishes ▸ hq) with
      | inr hother => exact .inr (.inr ⟨q, hother, hqcarries⟩)
      | inl hsame =>
        cases hcarries (hsame ▸ hqcarries) with
        | inl hdone => exact .inl hdone
        | inr hnext =>
          obtain ⟨q', rfl, hq'⟩ := hnext
          exact .inr (.inr ⟨q', Publisher.mem_setPublish_self hj' q', hq'⟩)

theorem keeps_of_prepares {result : Publisher × Option Publish}
    (hprepares : Publisher.Prepares p result) : p.manager.Keeps k result.1.manager := by
  obtain ⟨contexts, _, hmanager⟩ := hprepares.manager
  rw [hmanager]
  exact .of_eq rfl rfl rfl rfl

/-- The extra slots that a mark waits for are gone. -/
theorem publishDeleted_carries (hsound : Sound H p) (hcarries : Publish.Carries k ts (.deleting [] contexts)) :
    (∃ v, ts ≤ v ∧ H (k, v)) ∨
      ∃ q, (p.publishDeleted contexts).2 = some q ∧ q.Carries k ts := by
  obtain ⟨v, hts, hmem⟩ := hcarries
  exact publishUnlessIdentical_carries (hsound.withSlots []).setPublished_empty hmem hts

/-- One step that meets the condition keeps a mark. -/
theorem step (h : KeptMark H k ts p) (hsound : Sound H p) (hname : k ∉ inheritedNames)
    (hstep : PublishStep c format p entry p') (hmeets : Meets c format k p entry)
    (hmono : ∀ e, H e → H' e) (hnew : ∀ blob ∈ entry.handed c, ∀ e ∈ blob, H' e) :
    KeptMark H' k ts p' := by
  have h' := h.mono hmono
  have hsound' := hsound.mono hmono
  cases hstep with
  | read hentry hread =>
    cases hread with
    | hydrate =>
      have hreads := Manager.hydrateFromLocalStorage_reads hmeets
      exact h'.of_reads ⟨hreads, rfl, id⟩
    | @seed contextId unixTimestamp =>
      have hreads : p.manager.Reads k (p.manager.seedContextRead contextId unixTimestamp) :=
        Manager.advanceContext_reads contextId unixTimestamp false
      exact h'.of_reads ⟨hreads, rfl, id⟩
    | fetch => exact ⟨h'.timestamp, h'.publishable, h'.waits⟩
    | merge hi =>
      rename_i task newSlotId i
      have hkeeps := (Manager.mergeNext_spec (k := k) (m := p.manager) c newSlotId task).1
      obtain ⟨htimestamp, hpublishable⟩ := h'.keep hkeeps
      refine ⟨htimestamp, hpublishable, h'.waits.imp_right fun hwaits => ?_⟩
      exact hwaits.imp_left fun hbefore => ⟨hkeeps.destroyed.trans hbefore.1, hbefore.2⟩
    | receive hreceive =>
      rw [Manager.receive] at hreceive
      split at hreceive
      · rw [← (Prod.mk.inj hreceive).1]
        exact h'
      · split at hreceive
        · rw [← (Prod.mk.inj hreceive).1]
          exact ⟨h'.timestamp, h'.publishable, h'.waits⟩
        · rw [← (Prod.mk.inj hreceive).1]
          exact ⟨h'.timestamp, h'.publishable, h'.waits⟩
    | drain => exact ⟨h'.timestamp, h'.publishable, h'.waits⟩
    | _ => cases hentry
  | initialized => exact h'.of_reads (Publisher.finishInitialize_reads format c _ p)
  | mark => exact h'.of_reads (Publisher.markContextRead_reads _ _ _ p)
  | handle => exact h'.of_reads (Publisher.handleDecrypted_reads c _ _ p)
  | timer =>
    refine ⟨h'.timestamp, h'.publishable, h'.waits.imp_right fun hwaits => ?_⟩
    cases hwaits with
    | inl hbefore =>
      exact .inl ⟨hbefore.1, .inr ⟨.fetching, List.mem_append_right _ List.mem_cons_self, trivial⟩⟩
    | inr hbefore =>
      obtain ⟨q, hq, hcarries⟩ := hbefore
      exact .inr ⟨q, List.mem_append_left _ hq, hcarries⟩
  | fetched hj =>
    exact h'.setPublish hj (.of_eq rfl rfl rfl rfl) rfl rfl (fun _ _ => .inr ⟨_, rfl, .inl trivial⟩)
      fun hcarries => hcarries.elim
  | unreachable hj =>
    exact h'.setPublish hj (.of_eq rfl rfl rfl rfl) rfl rfl (fun _ _ => .inr ⟨_, rfl, .inl trivial⟩)
      fun hcarries => hcarries.elim
  | merge hj =>
    rename_i task newSlotId i
    have hkeeps := (Manager.mergeNext_spec (k := k) (m := p.manager) c newSlotId task).1
    refine h'.setPublish hj hkeeps rfl rfl ?_ ?_
    · intro _ _
      refine .inr ⟨_, rfl, .inl ?_⟩
      cases (p.manager.mergeNext c newSlotId task).2 with
      | none => trivial
      | some next => trivial
    · exact fun hcarries => hcarries.elim
  | publish hj hcontexts =>
    rename_i contexts newSlotIds i
    have hprepares : p.Prepares (p.publish format c contexts newSlotIds) :=
      Publisher.publish_prepares newSlotIds
    refine h'.setPublish hj (keeps_of_prepares hprepares) hprepares.publishes hprepares.timer ?_ ?_
    · intro hlive _
      obtain ⟨v, hts, hv⟩ := h'.timestamp
      have hproto : k ≠ "__proto__" := fun heq => hname (heq ▸ List.mem_cons_self)
      cases publish_carries hsound' hlive hcontexts hproto hv h'.publishable hts (hmeets hlive) with
      | inl hdone => exact .inl hdone
      | inr hnext =>
        obtain ⟨q, hq, hcarries⟩ := hnext
        exact .inr ⟨q, hq, .inr hcarries⟩
    · exact fun hcarries => hcarries.elim
  | delete hj =>
    exact h'.setPublish hj (.of_eq rfl rfl rfl rfl) rfl rfl (fun _ hlooks => hlooks.elim)
      fun hcarries => .inr ⟨_, rfl, hcarries⟩
  | deleted hj =>
    rename_i contexts i
    have hprepares := Publisher.publishDeleted_prepares contexts p
    exact h'.setPublish hj (keeps_of_prepares hprepares) hprepares.publishes hprepares.timer
      (fun _ hlooks => hlooks.elim) fun hcarries => publishDeleted_carries hsound' hcarries
  | send hj =>
    rename_i slotId contexts slots eventId i
    refine h'.setPublish hj (.of_eq rfl rfl rfl rfl) rfl rfl (fun _ hlooks => hlooks.elim) ?_
    intro hcarries
    obtain ⟨v, hts, slot, hslot, hmem⟩ := hcarries
    cases List.mem_cons.mp hslot with
    | inl hfirst =>
      rw [hfirst] at hmem
      exact .inl ⟨v, hts, hnew contexts List.mem_cons_self _ hmem⟩
    | inr hlater => exact .inr ⟨_, rfl, v, hts, slot, hlater, hmem⟩
  | accepted hj =>
    refine h'.setPublish hj (.of_eq rfl rfl rfl rfl) rfl rfl (fun _ hlooks => hlooks.elim) ?_
    exact fun hcarries => .inr ⟨_, rfl, hcarries⟩
  | finished hj =>
    refine h'.setPublish hj (.of_eq rfl rfl rfl rfl) rfl rfl (fun _ hlooks => hlooks.elim) ?_
    intro hcarries
    obtain ⟨v, hts, slot, hslot, hmem⟩ := hcarries
    cases hslot
  | destroy =>
    obtain ⟨hpending, hnone⟩ := hmeets
    rw [Publisher.destroy, hpending, if_neg Bool.false_ne_true]
    refine ⟨h'.timestamp, h'.publishable, h'.waits.imp_right fun hwaits => ?_⟩
    cases hwaits with
    | inl hbefore =>
      cases hbefore.2 with
      | inl htimer => exact absurd (hpending.symm.trans htimer) Bool.false_ne_true
      | inr hlooks =>
        obtain ⟨q, hq, hqlooks⟩ := hlooks
        exact absurd hqlooks (hnone q hq)
    | inr hbefore => exact .inr hbefore

/-- A mark that raises a timestamp waits for a publish. -/
theorem of_mark (hraises : p.raises k ts = true) (now : ℕ) :
    KeptMark H k ts (p.markContextRead k ts now) := by
  rw [Publisher.raises, Bool.and_eq_true_iff, Bool.not_eq_true', decide_eq_true_eq] at hraises
  obtain ⟨hlive, hmore⟩ := hraises
  have hadvance : p.manager.advanceContext k ts true =
      (p.manager.setEffective k ts).addPublishable k := by
    rw [Manager.advanceContext, hlive, if_neg Bool.false_ne_true, if_neg (not_le.mpr hmore)]
    rfl
  have hstate : (p.manager.markContextRead k ts now).effectiveState =
      (p.manager.advanceContext k ts true).effectiveState := rfl
  have hids : (p.manager.markContextRead k ts now).publishableContextIds =
      (p.manager.advanceContext k ts true).publishableContextIds := rfl
  have hdestroyed : (p.manager.markContextRead k ts now).destroyed =
      (p.manager.advanceContext k ts true).destroyed := rfl
  rw [hadvance] at hstate hids hdestroyed
  have hschedules : (decide (ts ≤ p.manager.effective k) &&
      decide (k ∈ p.manager.publishableContextIds)) = false := by
    rw [decide_eq_false (not_le.mpr hmore), Bool.false_and]
  rw [Publisher.markContextRead, hschedules, if_neg Bool.false_ne_true, Publisher.schedulePublish, hdestroyed]
  have hlive' : ((p.manager.setEffective k ts).addPublishable k).destroyed = false := hlive
  rw [hlive', if_neg Bool.false_ne_true]
  refine ⟨⟨ts, le_rfl, ?_⟩, ?_, .inr (.inl ⟨hdestroyed.trans hlive', .inl rfl⟩)⟩
  · rw [hstate]
    exact AList.lookup_insert _
  · rw [hids]
    exact Manager.addMember_self k _

end KeptMark

/-- The marks of a context in a run so far. -/
def MarksKept (c : Client) (k : String) (entries : List PublishEntry) (p : Publisher) : Prop :=
  Sound (Handed c entries) p ∧
    ∀ ts, .mark k ts true ∈ entries → KeptMark (Handed c entries) k ts p

section Marks

variable {c : Client} {format : NumberText} {k slotId : String} {extraSlotIds : List String}
  {entries : List PublishEntry} {entry : PublishEntry} {p p' : Publisher}

theorem Handed.snoc (h : Handed c entries e) : Handed c (entries ++ [entry]) e := by
  obtain ⟨blob, hblob, hmem⟩ := h
  refine ⟨blob, ?_, hmem⟩
  rw [handed, List.flatMap_append]
  exact List.mem_append_left _ hblob

theorem Handed.last (hblob : blob ∈ entry.handed c) (he : e ∈ blob) :
    Handed c (entries ++ [entry]) e := by
  refine ⟨blob, ?_, he⟩
  rw [handed, List.flatMap_append, List.flatMap_singleton]
  exact List.mem_append_right _ hblob

theorem MarksKept.step (h : MarksKept c k entries p) (hname : k ∉ inheritedNames)
    (hstep : PublishStep c format p entry p') (hmeets : Meets c format k p entry) :
    MarksKept c k (entries ++ [entry]) p' := by
  obtain ⟨hsound, hmarks⟩ := h
  have hmono : ∀ e, Handed c entries e → Handed c (entries ++ [entry]) e := fun e he => he.snoc
  have hnew : ∀ blob ∈ entry.handed c, ∀ e ∈ blob, Handed c (entries ++ [entry]) e :=
    fun blob hblob e he => .last hblob he
  refine ⟨hsound.step hstep hmono hnew, fun ts hts => ?_⟩
  cases List.mem_append.mp hts with
  | inl hold => exact (hmarks ts hold).step hsound hname hstep hmeets hmono hnew
  | inr hlast =>
    obtain ⟨now, hraises, rfl⟩ := hstep.of_mark (List.mem_singleton.mp hlast).symm
    exact KeptMark.of_mark hraises.symm now

theorem MarksKept.of_run (hname : k ∉ inheritedNames)
    (hrun : Run (fun p entry p' => PublishStep c format p entry p' ∧ Meets c format k p entry)
      (.new slotId extraSlotIds) entries p) : MarksKept c k entries p := by
  have hstart : MarksKept c k [] (.new slotId extraSlotIds) := by
    refine ⟨⟨fun id v hv => ?_, fun task htask => ?_, fun publish hpublish => ?_⟩, fun ts hts => ?_⟩
    · cases hv
    · cases htask
    · cases hpublish
    · cases hts
  exact hrun.history hstart fun _ _ _ _ hinv hstep => hinv.step hname hstep.1 hstep.2

theorem PublishStep.of_destroy (h : PublishStep c format p entry p')
    (hentry : entry = .destroy flushed due) : ∃ contexts newSlotIds,
      flushed = (if p.debounceTimer then p.destroy.published format c contexts newSlotIds else []) ∧
      due = (if p.debounceTimer then p.published format c contexts newSlotIds else []) := by
  cases h with
  | destroy hcontexts =>
    cases hentry
    exact ⟨_, _, rfl, rfl⟩
  | _ => cases hentry

/-- In every run whose steps meet the condition, each mark that raised its context is in a blob that
the relay was handed once no timer runs and no publish goes on, and each flush is the publish that
was due. -/
theorem marks_published (hname : k ∉ inheritedNames)
    (hrun : Run (fun p entry p' => PublishStep c format p entry p' ∧ Meets c format k p entry)
      (.new slotId extraSlotIds) entries p) :
    (p.Finished → ∀ ts, .mark k ts true ∈ entries →
      ∃ blob ∈ handed c entries, ∃ v, ts ≤ v ∧ (k, v) ∈ blob) ∧
    ∀ flushed due, .destroy flushed due ∈ entries → flushed = due := by
  constructor
  · intro hfinished ts hts
    cases ((MarksKept.of_run hname hrun).2 ts hts).waits with
    | inl hdone =>
      obtain ⟨v, hle, blob, hblob, hmem⟩ := hdone
      exact ⟨blob, hblob, v, hle, hmem⟩
    | inr hwaits =>
      have hnone : ∀ publish, publish ∉ p.publishes := by
        rw [hfinished.2]
        exact fun publish => List.not_mem_nil
      cases hwaits with
      | inl hlooks =>
        cases hlooks.2 with
        | inl htimer => exact absurd (hfinished.1.symm.trans htimer) Bool.false_ne_true
        | inr hlooks =>
          obtain ⟨q, hq, _⟩ := hlooks
          exact absurd hq (hnone q)
      | inr hcarries =>
        obtain ⟨q, hq, _⟩ := hcarries
        exact absurd hq (hnone q)
  · intro flushed due hentry
    obtain ⟨before, after, rfl⟩ := List.append_of_mem hentry
    obtain ⟨q, q', _, hstep, _⟩ := hrun.split
    obtain ⟨contexts, newSlotIds, rfl, rfl⟩ := hstep.1.of_destroy rfl
    have htimer : q.debounceTimer = false := hstep.2.1
    rw [htimer, if_neg Bool.false_ne_true, if_neg Bool.false_ne_true]

end Marks

/-- A client that can decrypt nothing. -/
def lonelyClient : Client :=
  ⟨HexId.ofNat 64 1, "desktop", fun _ => none⟩

def oneMark : List Entry :=
  [("general", 100)]

def marked : Publisher :=
  (Publisher.new "slot" []).markContextRead "general" 100 0

theorem oneMark_perm : oneMark.Perm marked.manager.publishableContexts := by
  decide +kernel

theorem oneMark_current : currentContexts wholeNumbers "desktop" oneMark = some oneMark := by
  decide +kernel

theorem oneMark_publish {p : Publisher} (hmanager : p.manager = marked.manager)
    (hslots : p.extraSlotIds = []) (newSlotIds : ℕ → String) :
    p.publish wholeNumbers lonelyClient oneMark newSlotIds =
      (p, some (.sending [("slot", oneMark)])) := by
  have hclient : lonelyClient.clientId = "desktop" := rfl
  have hlive : marked.manager.destroyed = false := rfl
  have hmore : marked.manager.isIdenticalToLastPublished oneMark = false := rfl
  have hslot : marked.manager.slotId = "slot" := rfl
  rw [Publisher.publish, hmanager, hlive, if_neg Bool.false_ne_true, hclient, oneMark_current]
  dsimp only
  rw [if_pos hslots, Publisher.publishUnlessIdentical, hmanager, hmore, if_neg Bool.false_ne_true,
    hslot]

theorem oneMark_fits : FitsSlots wholeNumbers (splitArgs "desktop" [] oneMark fun _ => "")
    (oneMark.foldl assign []) "general" := by
  have hkind : isThreadOrMsg "general" ≠ true := by decide +kernel
  have hsmall : ¬ READ_STATE_MAX_PLAINTEXT_BYTES < blobBytes wholeNumbers "desktop"
      ((oneMark.foldl assign []).filter fun e => !isThreadOrMsg e.1) := by
    decide +kernel
  exact ⟨fun _ h => absurd h hkind, fun h => absurd h hsmall, fun _ h => absurd h hkind⟩

/-- The timer has fired, and the relay has not answered the fetch. -/
def fetched : Publisher :=
  { marked with debounceTimer := false, publishes := [.fetched] }

theorem fetched_publish : PublishStep lonelyClient wholeNumbers fetched
    (.publish oneMark fun _ => "") (fetched.setPublish 0 (some (.sending [("slot", oneMark)]))) := by
  have hstep : PublishStep lonelyClient wholeNumbers fetched (.publish oneMark fun _ => "")
      ((fetched.publish wholeNumbers lonelyClient oneMark fun _ => "").1.setPublish 0
        (fetched.publish wholeNumbers lonelyClient oneMark fun _ => "").2) :=
    .publish rfl oneMark_perm
  have hpublish : fetched.publish wholeNumbers lonelyClient oneMark (fun _ => "") =
      (fetched, some (.sending [("slot", oneMark)])) := oneMark_publish (p := fetched) rfl rfl _
  rw [hpublish] at hstep
  exact hstep

/-- The relay has the mark, and has not answered. -/
def sent : Publisher :=
  { fetched with
    manager := fetched.manager.rememberPublishedId (HexId.ofNat 64 2)
    publishes := [.sent oneMark []] }

theorem marks_published_timer : ∃ entries p,
    Run (fun p entry p' => PublishStep lonelyClient wholeNumbers p entry p' ∧
      Meets lonelyClient wholeNumbers "general" p entry) (.new "slot" []) entries p ∧
    .mark "general" 100 true ∈ entries ∧
    ∃ blob ∈ handed lonelyClient entries, ∃ v, 100 ≤ v ∧ ("general", v) ∈ blob := by
  have hname : "general" ∉ inheritedNames := by decide +kernel
  have hmark : Run (fun p entry p' => PublishStep lonelyClient wholeNumbers p entry p' ∧
      Meets lonelyClient wholeNumbers "general" p entry) (.new "slot" [])
      ([] ++ [.mark "general" 100 true]) marked := Run.nil.snoc ⟨.mark, trivial⟩
  have hfetched : Run (fun p entry p' => PublishStep lonelyClient wholeNumbers p entry p' ∧
      Meets lonelyClient wholeNumbers "general" p entry) (.new "slot" [])
      ([] ++ [.mark "general" 100 true] ++ [.timer] ++ [.fetched]) fetched :=
    (hmark.snoc ⟨.timer rfl, trivial⟩).snoc ⟨.unreachable (k := 0) rfl, trivial⟩
  have hsent : PublishStep lonelyClient wholeNumbers
      (fetched.setPublish 0 (some (.sending [("slot", oneMark)]))) (.send oneMark) sent :=
    .send (k := 0) rfl
  have haccepted : PublishStep lonelyClient wholeNumbers sent .accepted
      ({ sent with manager := sent.manager.slotPublished oneMark 7 }.setPublish 0
        (some (.sending []))) :=
    .accepted rfl
  have hended := (((hfetched.snoc ⟨fetched_publish, fun _ => oneMark_fits⟩).snoc
    ⟨hsent, trivial⟩).snoc ⟨haccepted, trivial⟩).snoc ⟨.finished (k := 0) rfl, trivial⟩
  exact ⟨_, _, hended, by simp, (marks_published hname hended).1 ⟨rfl, rfl⟩ 100 (by simp)⟩

/-- A mark is not published when the manager is destroyed before its timer fires. -/
theorem marks_lost : ∃ entries p,
    Run (PublishStep lonelyClient wholeNumbers) (.new "slot" []) entries p ∧ p.Finished ∧
    .mark "general" 100 true ∈ entries ∧ handed lonelyClient entries = [] ∧
    .destroy [] [oneMark] ∈ entries := by
  have hmark : Run (PublishStep lonelyClient wholeNumbers) (.new "slot" [])
      ([] ++ [.mark "general" 100 true]) marked := Run.nil.snoc .mark
  have hdestroyed : ∀ p : Publisher, p.manager.destroyed = true →
      p.publish wholeNumbers lonelyClient oneMark (fun _ => "") = (p, none) := by
    intro p hp
    rw [Publisher.publish, if_pos hp]
  have hflush : PublishStep lonelyClient wholeNumbers marked (.destroy [] [oneMark])
      marked.destroy := by
    have hflushed : marked.destroy.published wholeNumbers lonelyClient oneMark (fun _ => "") = [] := by
      rw [Publisher.published, hdestroyed _ rfl]
    have hdue : marked.published wholeNumbers lonelyClient oneMark (fun _ => "") = [oneMark] := by
      rw [Publisher.published, oneMark_publish rfl rfl]
      rfl
    have htimer : marked.debounceTimer = true := rfl
    have hstep : PublishStep lonelyClient wholeNumbers marked
        (.destroy (if marked.debounceTimer then
            marked.destroy.published wholeNumbers lonelyClient oneMark fun _ => "" else [])
          (if marked.debounceTimer then
            marked.published wholeNumbers lonelyClient oneMark fun _ => "" else []))
        marked.destroy :=
      .destroy oneMark_perm
    rw [htimer, if_pos rfl, if_pos rfl, hflushed, hdue] at hstep
    exact hstep
  have hfetched : PublishStep lonelyClient wholeNumbers marked.destroy .fetched
      (marked.destroy.setPublish 0 (some .fetched)) := .unreachable rfl
  have hlooked : PublishStep lonelyClient wholeNumbers (marked.destroy.setPublish 0 (some .fetched))
      (.publish oneMark fun _ => "")
      ((marked.destroy.setPublish 0 (some .fetched)).setPublish 0 none) := by
    have hstep : PublishStep lonelyClient wholeNumbers
        (marked.destroy.setPublish 0 (some .fetched)) (.publish oneMark fun _ => "")
        (Publisher.setPublish 0
          ((marked.destroy.setPublish 0 (some .fetched)).publish wholeNumbers lonelyClient oneMark
            fun _ => "").2
          ((marked.destroy.setPublish 0 (some .fetched)).publish wholeNumbers lonelyClient oneMark
            fun _ => "").1) :=
      .publish rfl oneMark_perm
    rw [hdestroyed _ rfl] at hstep
    exact hstep
  exact ⟨_, _, ((hmark.snoc hflush).snoc hfetched).snoc hlooked, ⟨rfl, rfl⟩, by simp, rfl, by simp⟩

end Buzz.ReadState
