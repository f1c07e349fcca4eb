import Buzz.Unread.Past

namespace Buzz.Unread
set_option autoImplicit true

variable {δ : Type}

/-- A step after which an override stays as it was: its device compacts, publishes, or receives what was
published before a clear that it has taken in. -/
def Entry.Stale (i : δ) (ctx : String) (clears : List Clear) : Entry δ → Prop
  | .markUnread j _ => j ≠ i
  | .markRead j _ _ => j ≠ i
  | .advanceFrontier j _ _ => j ≠ i
  | .compact _ _ _ => True
  | .publish _ _ _ => True
  | .reinstall j => j ≠ i
  | .receive j p _ => j = i → ∃ κ ∈ clears, κ.context = ctx ∧ p ∈ κ.before

theorem Entry.Stale.not_reinstalls {entry : Entry δ} {i : δ} {ctx : String} {clears : List Clear}
    (h : entry.Stale i ctx clears) : ¬ entry.Reinstalls i := by
  cases entry with
  | reinstall j => exact h
  | _ => exact id

variable [DecidableEq δ]

/-- What a cleared override is while only stale blobs come. -/
structure StaysCleared (n : Net δ) (i : δ) (ctx : String) (n' : Net δ) : Prop where
  isLegacy : (n'.devices i).isLegacy = (n.devices i).isLegacy
  published : ∃ blobs, n'.published = n.published ++ blobs
  cleared : ((n'.devices i).view ctx).Cleared
  clearCounter : ((n.devices i).view ctx).clearCounter ≤ ((n'.devices i).view ctx).clearCounter

namespace StaysCleared

variable {n m n' : Net δ} {i : δ} {ctx : String} {entry : Entry δ} {clears : List Clear}
  {known : List ℕ}

theorem viewStep {v : View} (hv : v.Cleared) (hentry : entry.Stale i ctx clears)
    (htop : ∀ p blob, entry = .receive i p blob → (blob.view ctx).top ≤ v.clearCounter) :
    (entry.viewStep i ctx v).Cleared := by
  cases entry with
  | markUnread j k =>
    have hj : ¬ j = i := hentry
    rw [Entry.viewStep, if_neg fun h => hj h.1]
    exact hv
  | markRead j k ts =>
    have hj : ¬ j = i := hentry
    rw [Entry.viewStep, if_neg fun h => hj h.1]
    exact hv
  | advanceFrontier j k ts =>
    have hj : ¬ j = i := hentry
    rw [Entry.viewStep, if_neg fun h => hj h.1]
    exact hv
  | compact j k rewritten =>
    rw [Entry.viewStep]
    split
    · exact hv.compacted
    · exact hv
  | publish j blob rewritten => exact hv
  | reinstall j =>
    have hj : ¬ j = i := hentry
    rw [Entry.viewStep, if_neg hj]
    exact hv
  | receive j p blob =>
    rw [Entry.viewStep]
    split
    · rename_i hj
      subst hj
      exact hv.sup (htop p blob rfl)
    · exact hv

theorem step (h : StaysCleared n i ctx m) (hlegacy : (n.devices i).isLegacy = false)
    (hcovers : Covers n known clears (n.devices i).view) (hstep : NetStep m entry n')
    (hentry : entry.Stale i ctx clears) : StaysCleared n i ctx n' := by
  have hview := hstep.view (h.isLegacy.trans hlegacy) ctx
  obtain ⟨blobs, hpublished⟩ := h.published
  refine ⟨(hstep.isLegacy i).trans h.isLegacy, ?_, ?_, ?_⟩
  · rw [hstep.published, hpublished, List.append_assoc]
    exact ⟨_, rfl⟩
  · rw [hview]
    apply viewStep h.cleared hentry
    rintro p blob rfl
    -- a clear that is behind the device counts higher than the stale blob does
    obtain ⟨κ, hκ, rfl, hp⟩ := hentry rfl
    obtain ⟨hlt, hbelow⟩ := hcovers.clears κ hκ p hp
    have htold : n.told p κ.context = blob.view κ.context := by
      cases hstep with
      | receive hblob =>
        rw [← Covers.told_append hpublished hlt, Net.told, hblob]
        rfl
    rw [← htold]
    exact hbelow.le.trans h.clearCounter
  · rw [hview]
    exact h.clearCounter.trans (Entry.viewStep_grows hentry.not_reinstalls ctx _).2

theorem of_run (hrun : Run NetStep n more n') (hlegacy : (n.devices i).isLegacy = false)
    (hcovers : Covers n known clears (n.devices i).view)
    (hcleared : ((n.devices i).view ctx).Cleared) (hstale : ∀ entry ∈ more, entry.Stale i ctx clears) :
    StaysCleared n i ctx n' := by
  induction hrun with
  | nil => exact ⟨rfl, ⟨[], (List.append_nil _).symm⟩, hcleared, le_refl _⟩
  | snoc _ hlast ih =>
    have hbefore := ih fun entry hentry => hstale entry (List.mem_append_left _ hentry)
    exact hbefore.step hlegacy hcovers hlast
      (hstale _ (List.mem_append_right _ (List.mem_singleton.mpr rfl)))

end StaysCleared

theorem Device.overrideIsSet_eq_false {d : Device} (h : (d.view ctx).Cleared) :
    d.overrideIsSet ctx .clear = false := by
  apply Bool.eq_false_of_not_eq_true
  rw [overrideIsSet, overrideSetB_iff]
  exact h.not_live

/-- Devices that have published what they keep, and have taken in the same since they made it anew,
agree; what is published as not live makes nothing live together; and an override whose sets have all
been cleared is not set again by what happened before a clear. -/
theorem overrides_converge {clientId : δ → String} {isLegacy : δ → Bool} {n : Net δ}
    (hrun : Run NetStep (.new clientId isLegacy) entries n) :
    (∀ i j ctx, isLegacy i = false → isLegacy j = false →
      (info i ctx entries).settled = true → (info j ctx entries).settled = true →
      (∀ blob, blob ∈ (info i ctx entries).heard ↔ blob ∈ (info j ctx entries).heard) →
      ∀ latestTs, (n.devices i).verdict ctx latestTs .clear =
        (n.devices j).verdict ctx latestTs .clear) ∧
    (∀ ctx blobs, (∀ blob ∈ blobs, blob ∈ n.published ∧ ¬ (blob.view ctx).Live) →
      ¬ (joinedView blobs ctx).Live) ∧
    ∀ i ctx, isLegacy i = false → ((n.devices i).view ctx).Cleared → ∀ more n',
      Run NetStep n more n' →
      (∀ entry ∈ more, entry.Stale i ctx ((past isLegacy entries).clears i)) →
      (n'.devices i).overrideIsSet ctx .clear = false := by
  refine ⟨?_, (Net.Sound.of_run hrun).join_not_live, ?_⟩
  · intro i j ctx hi hj hsettled hsettled' hheard latestTs
    exact verdict_eq_of_heard (Info.Kept.of_run hrun hi ctx).2 (Info.Kept.of_run hrun hj ctx).2
      ⟨hsettled, hsettled'⟩ hheard latestTs
  · intro i ctx hi hcleared more n' hmore hstale
    have hkept := Past.Kept.of_run hrun
    have hstays := StaysCleared.of_run hmore ((hkept.legacy i).trans hi) (hkept.devices i hi)
      hcleared hstale
    exact Device.overrideIsSet_eq_false hstays.cleared

/-- No device is legacy. -/
def upgraded : Net ℕ :=
  .new (fun _ => "") fun _ => false

theorem overrides_converge_first : ∃ entries n blob n', Run NetStep upgraded entries n ∧
    (n.devices 0).verdict "c" 5 .clear = (n.devices 1).verdict "c" 5 .clear ∧
    ¬ (joinedView [] "c").Live ∧
    Run NetStep n ([] ++ [.receive 2 0 blob]) n' ∧ (n'.devices 2).overrideIsSet "c" .clear = false := by
  have hpublished := ((Run.nil (s := upgraded)).snoc (@NetStep.markUnread ℕ _ _ 0 "c")).snoc
    (@NetStep.publish ℕ _ _ 0)
  have hreceived := (hpublished.snoc (@NetStep.receive ℕ _ _ 0 _ 1 rfl)).snoc
    (@NetStep.receive ℕ _ _ 0 _ 2 rfl)
  have hrun := hreceived.snoc (@NetStep.markRead ℕ _ _ 2 "c" 7)
  obtain ⟨hagree, hjoin, hcleared⟩ := overrides_converge hrun
  refine ⟨_, _, _, _, hrun, hagree 0 1 "c" rfl rfl rfl rfl (fun _ => Iff.rfl) 5,
    hjoin "c" [] (fun _ h => (List.not_mem_nil h).elim),
    Run.nil.snoc (@NetStep.receive ℕ _ _ 0 _ 2 rfl), hcleared 2 "c" rfl ?_ _ _
      (Run.nil.snoc (@NetStep.receive ℕ _ _ 0 _ 2 rfl)) ?_⟩
  · exact (by decide : 1 ≤ 2)
  · intro entry hentry
    obtain rfl := List.mem_singleton.mp hentry
    exact fun _ => ⟨⟨"c", [0]⟩, List.mem_singleton.mpr rfl, rfl, List.mem_singleton.mpr rfl⟩

/-- The blobs that a device has received or published. -/
def taken (i : δ) (entries : List (Entry δ)) : List Blob :=
  entries.filterMap fun
    | .receive j _ blob => if j = i then some blob else none
    | .publish j blob _ => if j = i then some blob else none
    | _ => none

/-- A compaction takes away a baseline that another device has: two devices that have taken in the
same show different verdicts, and a set that only the frontier had passed is back with an old blob. A
clear does nothing against sets that its device did not know. -/
theorem overrides_diverge : ∃ entries n, Run NetStep upgraded entries n ∧
    ((taken 2 entries).Perm (taken 3 entries) ∧
      (n.devices 2).verdict "c" 5 .clear = false ∧ (n.devices 3).verdict "c" 5 .clear = true) ∧
    ((n.devices 1).overrideIsSet "c" .clear = false ∧
      (∃ κ ∈ (past (fun _ => false) entries).clears 1, κ.context = "c" ∧ 0 ∈ κ.before) ∧
      ∃ blob n', NetStep n (.receive 1 0 blob) n' ∧
        (n'.devices 1).overrideIsSet "c" .clear = true) ∧
    ∃ blob n' n'', NetStep n (.markRead 4 "c" 100) n' ∧
      (n'.devices 4).overrideIsSet "c" .clear = false ∧
      NetStep n' (.receive 4 0 blob) n'' ∧ (n''.devices 4).overrideIsSet "c" .clear = true := by
  have h1 := (Run.nil (s := upgraded)).snoc (@NetStep.advanceFrontier ℕ _ _ 0 "c" 100)
  have h2 := h1.snoc (@NetStep.markUnread ℕ _ _ 0 "c")
  have h3 := h2.snoc (@NetStep.markUnread ℕ _ _ 0 "c")
  have h4 := h3.snoc (@NetStep.publish ℕ _ _ 0)
  have h5 := h4.snoc (@NetStep.markUnread ℕ _ _ 1 "c")
  have h6 := h5.snoc (@NetStep.markUnread ℕ _ _ 1 "c")
  have h7 := h6.snoc (@NetStep.markUnread ℕ _ _ 1 "c")
  have h8 := h7.snoc (@NetStep.markUnread ℕ _ _ 1 "c")
  have h9 := h8.snoc (@NetStep.publish ℕ _ _ 1)
  have h10 := h9.snoc (@NetStep.receive ℕ _ _ 0 _ 2 rfl)
  have h11 := h10.snoc (@NetStep.markRead ℕ _ _ 2 "c" 100)
  have h12 := h11.snoc (@NetStep.compact ℕ _ _ 2 "c")
  have h13 := h12.snoc (@NetStep.publish ℕ _ _ 2)
  have h14 := h13.snoc (@NetStep.receive ℕ _ _ 1 _ 2 rfl)
  have h15 := h14.snoc (@NetStep.receive ℕ _ _ 0 _ 3 rfl)
  have h16 := h15.snoc (@NetStep.receive ℕ _ _ 1 _ 3 rfl)
  have h17 := h16.snoc (@NetStep.receive ℕ _ _ 2 _ 3 rfl)
  have h18 := h17.snoc (@NetStep.receive ℕ _ _ 2 _ 1 rfl)
  refine ⟨_, _, h18, ⟨(List.Perm.swap _ _ _).cons _, rfl, rfl⟩, ⟨rfl, ?_, ?_⟩, ?_⟩
  · exact ⟨⟨"c", [0]⟩, List.mem_singleton.mpr rfl, rfl, List.mem_singleton.mpr rfl⟩
  · exact ⟨_, _, @NetStep.receive ℕ _ _ 0 _ 1 rfl, rfl⟩
  · exact ⟨_, _, _, @NetStep.markRead ℕ _ _ 4 "c" 100, rfl, @NetStep.receive ℕ _ _ 0 _ 4 rfl, rfl⟩

end Buzz.Unread
