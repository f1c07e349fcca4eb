import Buzz.ReadState.Steps

namespace Buzz.ReadState
set_option autoImplicit true
open Join

/-- What a manager has taken in, and all that it has sent. -/
structure Kept (c : Client) (entries : List ReadEntry) (m : Manager) : Prop where
  destroyed : m.destroyed = entries.any ReadEntry.isDestroy
  effective : ∀ k, m.effective k = joinAt 0 (received c entries) k
  outgoing : ∀ contexts ∈ m.outgoing, ∀ e ∈ contexts, e.2 ≤ m.effective e.1
  published : ∀ event, .publish event ∈ entries →
    ∀ e ∈ contextsOf c.decrypt c.pubkey event, e.2 ≤ m.effective e.1
  ids : ∀ id ∈ m.recentlyPublishedIds, ∃ event, .publish event ∈ entries ∧ event.id = id

theorem received_snoc (c : Client) (entries : List ReadEntry) (entry : ReadEntry) :
    received c (entries ++ [entry]) = received c entries ++
      if entries.any ReadEntry.isDestroy then [] else entry.timestamps c := by
  induction entries with
  | nil =>
    cases entry with
    | destroy => rfl
    | _ => exact List.append_nil _
  | cons a entries ih =>
    cases ha : a.isDestroy with
    | true =>
      have hstop : ∀ more, received c (a :: more) = [] := by
        intro more
        rw [received, List.takeWhile_cons, ha]
        rfl
      rw [List.cons_append, hstop, hstop, List.any_cons, ha]
      rfl
    | false =>
      have hgo : ∀ more, received c (a :: more) = a.timestamps c ++ received c more := by
        intro more
        rw [received, List.takeWhile_cons, ha]
        rfl
      rw [List.cons_append, hgo, hgo, List.any_cons, ha, ih, List.append_assoc]
      rfl

namespace Kept

variable {c : Client} {entries : List ReadEntry} {entry : ReadEntry} {m m' : Manager}

theorem step (h : Kept c entries m) (hstep : ReadStep c m entry m') (hcovered : Covered m entry)
    (hids : SameIds (entries ++ [entry])) : Kept c (entries ++ [entry]) m' := by
  have hgrows := hstep.grows_iff.mpr hcovered
  refine ⟨?_, fun k => ?_, fun contexts hcontexts e he => ?_, fun event hevent e he => ?_,
    fun id hid => ?_⟩
  · rw [hstep.destroyed, h.destroyed, List.any_append, List.any_cons, List.any_nil, Bool.or_false]
  · rw [received_snoc, ← h.destroyed, joinAt_append, ← h.effective]
    cases hlive : m.destroyed with
    | true => exact hstep.effective_destroyed hlive k
    | false =>
      apply hstep.effective hlive hcovered
      rintro event rfl e he
      have hmem : event.id ∈ m.recentlyPublishedIds := by
        cases hstep with
        | receive hreceive => exact (Manager.receive_effective hreceive).2.2.2.2 rfl
      obtain ⟨published, hpublished, hsame⟩ := h.ids event.id hmem
      have hevent : published = event := hids published event
        (List.mem_append_left _ hpublished) (List.mem_append_right _ (List.mem_singleton.mpr rfl))
        hsame
      rw [hevent] at hpublished
      exact h.published event hpublished e he
  · obtain hold | hnew := hstep.outgoing hcontexts
    · exact (h.outgoing contexts hold e he).trans (hgrows e.1)
    · exact (hnew e he).le.trans (hgrows e.1)
  · obtain hold | hnew := List.mem_append.mp hevent
    · exact (h.published event hold e he).trans (hgrows e.1)
    · obtain rfl := List.mem_singleton.mp hnew
      cases hstep with
      | publish hcontexts hall =>
        exact (h.outgoing _ hcontexts e (hall e he)).trans (hgrows e.1)
  · obtain hold | ⟨event, rfl, hevent⟩ := hstep.recentlyPublishedIds hid
    · obtain ⟨event, hevent, hsame⟩ := h.ids id hold
      exact ⟨event, List.mem_append_left _ hevent, hsame⟩
    · exact ⟨event, List.mem_append_right _ (List.mem_singleton.mpr rfl), hevent⟩

theorem of_run (hrun : Run (fun m entry m' => ReadStep c m entry m' ∧ Covered m entry)
    (.new slotId) entries m) (hids : SameIds entries) : Kept c entries m := by
  induction hrun with
  | nil => exact ⟨rfl, fun _ => rfl, fun _ h => (List.not_mem_nil h).elim,
      fun _ h => (List.not_mem_nil h).elim, fun _ h => (List.not_mem_nil h).elim⟩
  | snoc _ hlast ih =>
    have hbefore := ih fun event event' hpublish hreceive =>
      hids event event' (List.mem_append_left _ hpublish) (List.mem_append_left _ hreceive)
    exact hbefore.step hlast.1 hlast.2 hids

end Kept

/-- The timestamps of a manager never decrease and are at the end what it has been given, and what
any other that has been given the same has, exactly where each hydration finds the storage ahead. -/
theorem effective_join_iff (hids : SameIds entries) :
    (Run (fun m entry m' => ReadStep c m entry m' ∧ m.Grows m') (.new slotId) entries m ∧
      (∀ k, m.effective k = joinAt 0 (received c entries) k) ∧
      ∀ other otherSlot otherEntries other', SameIds otherEntries →
        Run (fun m entry m' => ReadStep other m entry m' ∧ Covered m entry) (.new otherSlot)
          otherEntries other' →
        (∀ e, e ∈ received c entries ↔ e ∈ received other otherEntries) →
        ∀ k, m.effective k = other'.effective k) ↔
    Run (fun m entry m' => ReadStep c m entry m' ∧ Covered m entry) (.new slotId) entries m := by
  have hsteps : ∀ m entry m', (ReadStep c m entry m' ∧ m.Grows m') ↔
      (ReadStep c m entry m' ∧ Covered m entry) :=
    fun m entry m' => and_congr_right fun hstep => hstep.grows_iff
  constructor
  · rintro ⟨hgrows, -, -⟩
    exact hgrows.mono fun m entry m' h => (hsteps m entry m').mp h
  · intro hrun
    have heffective := (Kept.of_run hrun hids).effective
    refine ⟨hrun.mono fun m entry m' h => (hsteps m entry m').mpr h, heffective, ?_⟩
    intro other otherSlot otherEntries other' hother hotherRun hsame k
    rw [heffective, (Kept.of_run hotherRun hother).effective, joinAt_congr hsame]

/-- A client that can decrypt nothing. -/
def firstClient : Client :=
  ⟨HexId.ofNat 64 1, "desktop", fun _ => none⟩

/-- The storage of an earlier session. -/
def firstStored : StoredReadState :=
  ⟨(∅ : Table String ℚ).insert "general" 50, ["general"], ∅⟩

theorem effective_join_iff_hydrated : ∃ m,
    SameIds [.hydrate firstStored, .mark "general" 100 0] ∧
    Run (fun m entry m' => ReadStep firstClient m entry m' ∧ m.Grows m') (.new "slot")
      [.hydrate firstStored, .mark "general" 100 0] m ∧
    m.effective "general" = joinAt 0 (received firstClient
      [.hydrate firstStored, .mark "general" 100 0]) "general" := by
  have hids : SameIds [.hydrate firstStored, .mark "general" 100 0] := by
    intro event event' hpublish
    cases hpublish with
    | tail _ h =>
      cases h with
      | tail _ h => cases h
  have hcovered : Covered (.new "slot") (.hydrate firstStored) := by
    intro k v hv
    have hmem : (⟨k, v⟩ : Sigma fun _ => ℚ) ∈ firstStored.contexts.entries :=
      AList.mem_lookup_iff.mp hv
    obtain h := List.mem_singleton.mp hmem
    cases h
    exact (by decide : (0 : ℚ) ≤ 50)
  have hrun : Run (fun m entry m' => ReadStep firstClient m entry m' ∧ Covered m entry) (.new "slot")
      ([] ++ [.hydrate firstStored] ++ [.mark "general" 100 0]) _ :=
    (Run.nil.snoc ⟨.hydrate rfl rfl, hcovered⟩).snoc ⟨.mark, trivial⟩
  obtain ⟨hgrows, heffective, -⟩ := (effective_join_iff hids).mpr hrun
  exact ⟨_, hids, hgrows, heffective "general"⟩

/-- A mark before the storage is read is taken back by it. -/
theorem effective_taken_back : ∃ m m',
    SameIds [.mark "general" 100 0, .hydrate firstStored] ∧
    Run (ReadStep firstClient) (.new "slot") [.mark "general" 100 0] m ∧
    ReadStep firstClient m (.hydrate firstStored) m' ∧
    m'.effective "general" < m.effective "general" ∧
    m'.effective "general" ≠ joinAt 0 (received firstClient
      [.mark "general" 100 0, .hydrate firstStored]) "general" := by
  have hids : SameIds [.mark "general" 100 0, .hydrate firstStored] := by
    intro event event' hpublish
    cases hpublish with
    | tail _ h =>
      cases h with
      | tail _ h => cases h
  have hjoin : joinAt 0 (received firstClient
      [.mark "general" 100 0, .hydrate firstStored]) "general" = max (max 0 100) (50 : ℚ) := rfl
  refine ⟨(Manager.new "slot").markContextRead "general" 100 0, _, hids,
    Run.nil.snoc .mark, .hydrate rfl rfl, ?_, ?_⟩
  · exact (by decide : (50 : ℚ) < 100)
  · rw [hjoin]
    exact (by decide : (50 : ℚ) ≠ max (max 0 100) 50)

end Buzz.ReadState
