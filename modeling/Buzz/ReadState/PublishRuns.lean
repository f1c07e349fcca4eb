import Buzz.ReadState.PublishFrame

namespace Buzz.ReadState
set_option autoImplicit true

namespace Publisher

variable {k : String} {p p' : Publisher} {j : ℕ} {publish : Publish} {next : Option Publish}

/-- Nothing is published, and no timer stops. -/
structure Reads (k : String) (p p' : Publisher) : Prop where
  manager : p.manager.Reads k p'.manager
  publishes : p'.publishes = p.publishes
  timer : p.debounceTimer = true → p'.debounceTimer = true

theorem reads_schedulePublish (hmanager : p.manager.Reads k p'.manager)
    (hpublishes : p'.publishes = p.publishes) (htimer : p'.debounceTimer = p.debounceTimer) :
    Reads k p p'.schedulePublish := by
  rw [schedulePublish]
  by_cases hdestroyed : p'.manager.destroyed = true
  · rw [if_pos hdestroyed]
    exact ⟨hmanager, hpublishes, fun h => htimer.trans h⟩
  · rw [if_neg hdestroyed]
    exact ⟨hmanager, hpublishes, fun _ => rfl⟩

theorem markContextRead_reads (contextId : String) (unixTimestamp : ℚ) (now : ℕ) (p : Publisher) :
    Reads k p (p.markContextRead contextId unixTimestamp now) := by
  have hmanager : p.manager.Reads k (p.manager.markContextRead contextId unixTimestamp now) :=
    Manager.markContextRead_reads contextId unixTimestamp now
  rw [markContextRead]
  split
  · exact ⟨hmanager, rfl, id⟩
  · exact reads_schedulePublish hmanager rfl rfl

theorem handleDecrypted_reads (c : Client) (event : RelayEvent) (j : ℕ) (p : Publisher) :
    Reads k p (p.handleDecrypted c event j) := by
  have hreads : p.manager.Reads k (p.manager.handleDecrypted c event) :=
    Manager.handleDecrypted_reads c event
  have hmanager : p.manager.Reads k
      { p.manager.handleDecrypted c event with inFlight := p.manager.inFlight.eraseIdx j } :=
    ⟨⟨hreads.destroyed, hreads.merges, hreads.timestamp, hreads.publishable⟩, hreads.published⟩
  rw [handleDecrypted]
  cases c.parseEvent event with
  | none => exact ⟨hmanager, rfl, id⟩
  | some parsed =>
    dsimp only
    split
    · exact reads_schedulePublish hmanager rfl rfl
    · exact ⟨hmanager, rfl, id⟩

theorem finishInitialize_reads (format : NumberText) (c : Client) (contexts : List Entry)
    (p : Publisher) : Reads k p (p.finishInitialize format c contexts) := by
  have hmanager : p.manager.Reads k { p.manager with initialized := true } :=
    ⟨.of_eq rfl rfl rfl rfl, rfl⟩
  rw [finishInitialize]
  split
  · exact ⟨.refl _, rfl, id⟩
  · dsimp only
    split
    · exact reads_schedulePublish hmanager rfl rfl
    · split
      · exact ⟨hmanager, rfl, id⟩
      · exact reads_schedulePublish hmanager rfl rfl

/-- After a change of one call, the calls are the others and what it has become. -/
theorem mem_setPublish {q : Publish} (hq : q ∈ (p.setPublish j next).publishes) :
    q ∈ p.publishes ∨ next = some q := by
  cases next with
  | none => exact .inl (List.mem_of_mem_eraseIdx hq)
  | some publish => exact (List.mem_or_eq_of_mem_set hq).imp_right fun h => congrArg some h.symm

theorem mem_setPublish_of_ne {q : Publish} (hj : p.publishes[j]? = some publish)
    (hq : q ∈ p.publishes) : q = publish ∨ q ∈ (p.setPublish j next).publishes := by
  obtain ⟨i, hi⟩ := List.mem_iff_getElem?.mp hq
  by_cases hij : i = j
  · subst hij
    exact .inl (Option.some.inj (hi.symm.trans hj))
  · right
    cases next with
    | none =>
      have hlist : (p.setPublish j none).publishes = p.publishes.eraseIdx j := rfl
      rw [hlist]
      exact List.mem_eraseIdx_iff_getElem?.mpr ⟨i, hij, hi⟩
    | some publish' =>
      have hset : (p.publishes.set j publish')[i]? = some q := by
        rw [List.getElem?_set_ne (Ne.symm hij)]
        exact hi
      exact List.mem_of_getElem? hset

theorem mem_setPublish_self (hj : p.publishes[j]? = some publish) (q : Publish) :
    q ∈ (p.setPublish j (some q)).publishes :=
  List.mem_set (List.getElem?_eq_some_iff.mp hj).1 q

end Publisher

theorem Manager.slotPublished_published {H : Entry → Prop} {m : Manager} {contexts : List Entry}
    (h : ∀ id v, m.lastPublishedContexts.lookup id = some v → H (id, v))
    (hcontexts : ∀ e ∈ contexts, H e) (id : String) (v : ℚ)
    (hv : (m.slotPublished contexts createdAt).lastPublishedContexts.lookup id = some v) :
    H (id, v) := by
  have hfold : ∀ (contexts : List Entry) (t : Table String ℚ), (∀ e ∈ contexts, H e) →
      (∀ id v, t.lookup id = some v → H (id, v)) →
      ∀ id v, (contexts.foldl (fun t e => t.insert e.1 e.2) t).lookup id = some v → H (id, v) := by
    intro contexts
    induction contexts with
    | nil => exact fun t _ ht => ht
    | cons e contexts ih =>
      intro t hall ht
      apply ih _ fun e' he' => hall e' (List.mem_cons_of_mem e he')
      intro id v hlookup
      by_cases hid : id = e.1
      · subst hid
        rw [AList.lookup_insert] at hlookup
        rw [← Option.some.inj hlookup]
        exact hall e List.mem_cons_self
      · rw [AList.lookup_insert_ne hid] at hlookup
        exact ht id v hlookup
  exact hfold contexts m.lastPublishedContexts hcontexts h id v hv

/-- What the relay has been handed, as far as it is known. -/
def Handed (c : Client) (entries : List PublishEntry) (e : Entry) : Prop :=
  ∃ blob ∈ handed c entries, e ∈ blob

/-- The own blobs that a merge has noted were handed to the relay. -/
def Merge.Handed (H : Entry → Prop) (task : Merge) : Prop :=
  ∀ dTag own, task.ownBlobsBySlot.lookup dTag = some own → ∀ e ∈ own.blob.contexts, H e

def Publish.Handed (H : Entry → Prop) : Publish → Prop
  | .merging task => task.Handed H
  | .sent contexts _ => ∀ e ∈ contexts, H e
  | _ => True

/-- What counts as published last was handed to the relay. -/
structure Sound (H : Entry → Prop) (p : Publisher) : Prop where
  published : ∀ id v, p.manager.lastPublishedContexts.lookup id = some v → H (id, v)
  merges : ∀ task ∈ p.manager.merges, task.Handed H
  publishes : ∀ publish ∈ p.publishes, publish.Handed H

namespace Sound

variable {H H' : Entry → Prop} {c : Client} {format : NumberText} {entry : PublishEntry}
  {p p' : Publisher} {j : ℕ} {publish : Publish} {next : Option Publish}

theorem mono (h : Sound H p) (hmono : ∀ e, H e → H' e) : Sound H' p := by
  refine ⟨fun id v hv => hmono _ (h.published id v hv),
    fun task htask dTag own hown e he => hmono e (h.merges task htask dTag own hown e he), ?_⟩
  intro publish hpublish
  have hbefore := h.publishes publish hpublish
  cases publish with
  | merging task => exact fun dTag own hown e he => hmono e (hbefore dTag own hown e he)
  | sent contexts slots => exact fun e he => hmono e (hbefore e he)
  | fetching => trivial
  | fetched => trivial
  | deleting slotIds contexts => trivial
  | sending slots => trivial

theorem of_reads (h : Sound H p) (hreads : p.Reads k p') : Sound H p' := by
  refine ⟨?_, ?_, ?_⟩
  · rw [hreads.manager.published]
    exact h.published
  · rw [hreads.manager.merges]
    exact h.merges
  · rw [hreads.publishes]
    exact h.publishes

theorem setPublish (h : Sound H p) (hnext : ∀ q, next = some q → q.Handed H) :
    Sound H (p.setPublish j next) := by
  refine ⟨h.published, h.merges, fun q hq => ?_⟩
  cases Publisher.mem_setPublish hq with
  | inl hold => exact h.publishes q hold
  | inr hnew => exact hnext q hnew

theorem setPublished_empty (h : Sound H p) : Sound H (p.setPublished ∅) := by
  refine ⟨fun id v hv => ?_, h.merges, h.publishes⟩
  have hnone : (∅ : Table String ℚ).lookup id = some v := hv
  cases hnone

theorem withSlots (h : Sound H p) (extraSlotIds : List String) :
    Sound H { p with extraSlotIds := extraSlotIds } :=
  ⟨h.published, h.merges, h.publishes⟩

end Sound

/-- What comes out of the rest of a `publish` has been handed to the relay by nobody. -/
def Publish.Fresh : Publish → Prop
  | .deleting _ _ | .sending _ => True
  | _ => False

namespace Publisher

variable {format : NumberText} {c : Client} {p : Publisher} {contexts : List Entry}

/-- What the rest of a `publish` leaves of a publisher, but for its extra slots. -/
structure Prepares (p : Publisher) (result : Publisher × Option Publish) : Prop where
  manager : ∃ contexts, (contexts = p.manager.lastPublishedContexts ∨ contexts = ∅) ∧
    result.1.manager = { p.manager with lastPublishedContexts := contexts }
  timer : result.1.debounceTimer = p.debounceTimer
  publishes : result.1.publishes = p.publishes
  next : ∀ q, result.2 = some q → q.Fresh

theorem publishUnlessIdentical_prepares (contexts : List Entry) (p : Publisher) :
    Prepares p (p.publishUnlessIdentical contexts) := by
  rw [publishUnlessIdentical]
  split
  · exact ⟨⟨_, .inl rfl, rfl⟩, rfl, rfl, fun q hq => Option.noConfusion rfl (heq_of_eq hq)⟩
  · refine ⟨⟨_, .inl rfl, rfl⟩, rfl, rfl, fun q hq => ?_⟩
    rw [← Option.some.inj hq]
    trivial

theorem publishSplitSlots_prepares (newSlotIds : ℕ → String) :
    Prepares p (p.publishSplitSlots format c contexts newSlotIds) := by
  rw [publishSplitSlots]
  split
  · refine ⟨⟨_, .inl rfl, rfl⟩, rfl, rfl, fun q hq => ?_⟩
    cases hq
  · dsimp only
    split
    · refine ⟨⟨_, .inl rfl, rfl⟩, rfl, rfl, fun q hq => ?_⟩
      cases hq
    · refine ⟨⟨_, .inr rfl, rfl⟩, rfl, rfl, fun q hq => ?_⟩
      rw [← Option.some.inj hq]
      trivial

theorem publish_prepares (newSlotIds : ℕ → String) :
    Prepares p (p.publish format c contexts newSlotIds) := by
  rw [Publisher.publish]
  split
  · refine ⟨⟨_, .inl rfl, rfl⟩, rfl, rfl, fun q hq => ?_⟩
    cases hq
  · split
    · exact publishSplitSlots_prepares newSlotIds
    · split
      · exact publishUnlessIdentical_prepares _ p
      · refine ⟨⟨_, .inl rfl, rfl⟩, rfl, rfl, fun q hq => ?_⟩
        rw [← Option.some.inj hq]
        trivial

theorem publishDeleted_prepares (contexts : List Entry) (p : Publisher) :
    Prepares p (p.publishDeleted contexts) := by
  obtain ⟨⟨published, hpublished, hmanager⟩, htimer, hpublishes, hnext⟩ :=
    publishUnlessIdentical_prepares contexts ({ p with extraSlotIds := [] }.setPublished ∅)
  refine ⟨⟨∅, .inr rfl, ?_⟩, htimer, hpublishes, hnext⟩
  have hempty : published = ∅ := hpublished.elim id id
  rw [hempty] at hmanager
  exact hmanager

end Publisher

theorem Sound.of_prepares (h : Sound H p) (hprepares : Publisher.Prepares p result) (j : ℕ) :
    Sound H (result.1.setPublish j result.2) := by
  obtain ⟨contexts, hcontexts, hmanager⟩ := hprepares.manager
  apply Sound.setPublish
  · refine ⟨fun id v hv => ?_, ?_, ?_⟩
    · rw [hmanager] at hv
      cases hcontexts with
      | inl hsame => exact h.published id v (hsame ▸ hv)
      | inr hempty =>
        rw [hempty] at hv
        cases hv
    · rw [hmanager]
      exact h.merges
    · rw [hprepares.publishes]
      exact h.publishes
  · intro q hq
    have hfresh := hprepares.next q hq
    cases q with
    | deleting slotIds contexts => trivial
    | sending slots => trivial
    | fetching => cases hfresh
    | merging task => cases hfresh
    | fetched => cases hfresh
    | sent contexts slots => cases hfresh

/-- One step keeps it: only what a step hands to the relay, or gets from it, counts as published. -/
theorem Sound.step (h : Sound H p) (hstep : PublishStep c format p entry p')
    (hmono : ∀ e, H e → H' e) (hnew : ∀ blob ∈ entry.handed c, ∀ e ∈ blob, H' e) : Sound H' p' := by
  have h' := h.mono hmono
  have hown : ∀ (task : Merge) (newSlotId : String) (next : Merge), task.Handed H →
      (∀ blob ∈ ownContexts c task.next, ∀ e ∈ blob, H' e) →
      (p.manager.mergeNext c newSlotId task).2 = some next → next.Handed H' := by
    intro task newSlotId next htask hblobs hnext dTag own hlookup e he
    cases (Manager.mergeNext_spec (k := "") c newSlotId task).2.2 next hnext dTag own hlookup with
    | inl hold => exact hmono e (htask dTag own hold e he)
    | inr hown => exact hblobs _ hown e he
  have hlast : ∀ (task : Merge) (newSlotId : String) (id : String) (v : ℚ), task.Handed H →
      (p.manager.mergeNext c newSlotId task).1.lastPublishedContexts.lookup id = some v →
      H' (id, v) := by
    intro task newSlotId id v htask hv
    cases (Manager.mergeNext_spec (k := "") c newSlotId task).2.1 id v hv with
    | inl hold => exact h'.published id v hold
    | inr hown =>
      obtain ⟨dTag, own, hlookup, he⟩ := hown
      exact hmono _ (htask dTag own hlookup _ he)
  cases hstep with
  | read hentry hread =>
    cases hread with
    | hydrate => exact ⟨h'.published, h'.merges, h'.publishes⟩
    | @seed contextId unixTimestamp =>
      have hreads : p.manager.Reads "" (p.manager.seedContextRead contextId unixTimestamp) :=
        Manager.advanceContext_reads contextId unixTimestamp false
      exact h'.of_reads ⟨hreads, rfl, id⟩
    | fetch =>
      refine ⟨h'.published, fun task htask => ?_, h'.publishes⟩
      cases List.mem_append.mp htask with
      | inl hold => exact h'.merges task hold
      | inr hlast =>
        rw [List.mem_singleton.mp hlast]
        intro dTag own hown
        cases hown
    | merge hi =>
      rename_i task newSlotId i
      have htask := h.merges task (List.mem_of_getElem? hi)
      refine ⟨fun id v hv => hlast task newSlotId id v htask hv, fun task' htask' => ?_,
        h'.publishes⟩
      have hmerges : task' ∈ Merge.replace i (p.manager.mergeNext c newSlotId task).2
          p.manager.merges := htask'
      cases hnext : (p.manager.mergeNext c newSlotId task).2 with
      | none =>
        rw [hnext] at hmerges
        exact h'.merges task' (List.mem_of_mem_eraseIdx hmerges)
      | some next =>
        rw [hnext] at hmerges
        cases List.mem_or_eq_of_mem_set hmerges with
        | inl hold => exact h'.merges task' hold
        | inr heq => exact heq ▸ hown task newSlotId next htask hnew hnext
    | receive hreceive =>
      rw [Manager.receive] at hreceive
      split at hreceive
      · rw [← (Prod.mk.inj hreceive).1]
        exact h'
      · split at hreceive
        · rw [← (Prod.mk.inj hreceive).1]
          exact ⟨h'.published, h'.merges, h'.publishes⟩
        · rw [← (Prod.mk.inj hreceive).1]
          exact ⟨h'.published, h'.merges, h'.publishes⟩
    | drain => exact ⟨h'.published, h'.merges, h'.publishes⟩
    | _ => cases hentry
  | initialized => exact h'.of_reads (Publisher.finishInitialize_reads (k := "") format c _ p)
  | mark => exact h'.of_reads (Publisher.markContextRead_reads (k := "") _ _ _ p)
  | handle => exact h'.of_reads (Publisher.handleDecrypted_reads (k := "") c _ _ p)
  | timer =>
    refine ⟨h'.published, h'.merges, fun publish hpublish => ?_⟩
    cases List.mem_append.mp hpublish with
    | inl hold => exact h'.publishes publish hold
    | inr hlast =>
      rw [List.mem_singleton.mp hlast]
      trivial
  | fetched =>
    apply h'.setPublish
    intro q hq
    rw [← Option.some.inj hq]
    intro dTag own hown
    cases hown
  | unreachable =>
    apply h'.setPublish
    intro q hq
    rw [← Option.some.inj hq]
    trivial
  | merge hi =>
    rename_i task newSlotId i
    have htask : task.Handed H := h.publishes _ (List.mem_of_getElem? hi)
    apply Sound.setPublish
    · refine ⟨fun id v hv => hlast task newSlotId id v htask hv, ?_, h'.publishes⟩
      have hkeeps := (Manager.mergeNext_spec (k := "") (m := p.manager) c newSlotId task).1
      exact hkeeps.merges ▸ h'.merges
    · intro q hq
      rw [← Option.some.inj hq]
      cases hnext : (p.manager.mergeNext c newSlotId task).2 with
      | none => trivial
      | some next => exact hown task newSlotId next htask hnew hnext
  | publish => exact h'.of_prepares (Publisher.publish_prepares _) _
  | delete =>
    apply h'.setPublish
    intro q hq
    rw [← Option.some.inj hq]
    trivial
  | deleted => exact h'.of_prepares (Publisher.publishDeleted_prepares _ p) _
  | send hi =>
    rename_i slotId contexts slots eventId i
    apply Sound.setPublish
    · exact ⟨h'.published, h'.merges, h'.publishes⟩
    · intro q hq
      rw [← Option.some.inj hq]
      exact hnew contexts List.mem_cons_self
  | accepted hi =>
    rename_i contexts slots createdAt i
    have hsent : ∀ e ∈ contexts, H e := h.publishes _ (List.mem_of_getElem? hi)
    apply Sound.setPublish
    · exact ⟨Manager.slotPublished_published h'.published fun e he => hmono e (hsent e he),
        h'.merges, h'.publishes⟩
    · intro q hq
      rw [← Option.some.inj hq]
      trivial
  | finished =>
    apply h'.setPublish
    intro q hq
    cases hq
  | destroy =>
    rw [Publisher.destroy]
    split
    · refine ⟨h'.published, h'.merges, fun publish hpublish => ?_⟩
      cases List.mem_append.mp hpublish with
      | inl hold => exact h'.publishes publish hold
      | inr hlast =>
        rw [List.mem_singleton.mp hlast]
        trivial
    · exact ⟨h'.published, h'.merges, h'.publishes⟩

end Buzz.ReadState
