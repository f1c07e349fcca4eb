import Buzz.Unread.Runs

namespace Buzz.Unread
set_option autoImplicit true

variable {δ : Type}

namespace View

/-- No baseline is above the frontier. -/
def Based : View → Prop
  | (f, _, _, b) => b ≤ f

/-- A register as it is published: live, or with a clear counter only. -/
def Canonical (v : View) : Prop :=
  v.Live ∨ ∃ f c, v = (f, 0, c, 0)

theorem Based.sup {v w : View} (hv : v.Based) (hw : w.Based) : (v ⊔ w).Based := by
  obtain ⟨f, s, c, b⟩ := v
  obtain ⟨f', s', c', b'⟩ := w
  exact sup_le_sup hv hw

theorem Based.compacted {v : View} (h : v.Based) : v.compacted.Based := by
  obtain ⟨f, s, c, b⟩ := v
  rw [View.compacted]
  split
  · exact h
  · exact Nat.zero_le f

theorem canonical_compacted (v : View) : v.compacted.Canonical := by
  obtain hlive | hdead := em v.compacted.Live
  · exact .inl hlive
  · exact .inr (compacted_eq_of_not_live hdead)

theorem le_marked {v : View} (h : v.Based) : v ≤ v.marked := by
  obtain ⟨f, s, c, b⟩ := v
  exact ⟨le_refl f, (le_max_left s c).trans (Nat.le_succ _), le_refl c, h⟩

theorem le_advanced (v : View) (ts : ℤ) : v ≤ v.advanced ts := by
  obtain ⟨f, s, c, b⟩ := v
  exact ⟨le_max_left f _, le_refl _⟩

theorem le_cleared (v : View) : v ≤ v.cleared := by
  obtain ⟨f, s, c, b⟩ := v
  exact ⟨le_refl f, le_refl s, (le_max_right s c).trans (Nat.le_succ _), le_refl b⟩

end View

/-- The componentwise maximum of what blobs tell of a context. -/
def joinedView (blobs : List Blob) (ctx : String) : View :=
  match blobs with
  | [] => (0, 0, 0, 0)
  | blob :: blobs => blob.view ctx ⊔ joinedView blobs ctx

/-- What the devices that are not legacy and the blobs always are. -/
structure Net.Sound (n : Net δ) : Prop where
  based : ∀ i, (n.devices i).isLegacy = false → ∀ ctx, ((n.devices i).view ctx).Based
  published : ∀ blob ∈ n.published, ∀ ctx, (blob.view ctx).Based ∧ (blob.view ctx).Canonical

namespace Net.Sound

variable {n n' : Net δ} {entry : Entry δ}

/-- Registers that are published as not live make no live one together. -/
theorem join_not_live (h : n.Sound) (ctx : String) (blobs : List Blob)
    (hblobs : ∀ blob ∈ blobs, blob ∈ n.published ∧ ¬ (blob.view ctx).Live) :
    ¬ (joinedView blobs ctx).Live := by
  have hjoin : ∃ f c, joinedView blobs ctx = (f, 0, c, 0) := by
    induction blobs with
    | nil => exact ⟨0, 0, rfl⟩
    | cons blob blobs ih =>
      obtain ⟨f, c, hrest⟩ := ih fun own hown => hblobs own (List.mem_cons_of_mem _ hown)
      obtain ⟨hblob, hdead⟩ := hblobs blob (List.mem_cons_self ..)
      obtain hlive | ⟨f', c', hview⟩ := (h.published blob hblob ctx).2
      · exact absurd hlive hdead
      · exact ⟨max f' f, max c' c, by rw [joinedView, hrest, hview]; rfl⟩
  obtain ⟨f, c, hjoin⟩ := hjoin
  rw [hjoin]
  exact fun hlive => absurd hlive.1 (Nat.not_lt_zero c)

variable [DecidableEq δ]

theorem viewStep {v : View} (hv : v.Based) (i : δ) (ctx : String)
    (hentry : ∀ p blob, entry = .receive i p blob → (blob.view ctx).Based) :
    (entry.viewStep i ctx v).Based := by
  cases entry with
  | markUnread j k =>
    rw [Entry.viewStep]
    split
    · exact le_refl v.1
    · exact hv
  | markRead j k ts =>
    rw [Entry.viewStep]
    split
    · exact hv.trans (le_max_left _ _)
    · exact hv
  | advanceFrontier j k ts =>
    rw [Entry.viewStep]
    split
    · exact hv.trans (le_max_left _ _)
    · exact hv
  | compact j k rewritten =>
    rw [Entry.viewStep]
    split
    · exact hv.compacted
    · exact hv
  | publish j blob rewritten => exact hv
  | reinstall j =>
    rw [Entry.viewStep]
    split
    · exact le_refl 0
    · exact hv
  | receive j p blob =>
    rw [Entry.viewStep]
    split
    · rename_i hj
      subst hj
      exact hv.sup (hentry p blob rfl)
    · exact hv

theorem step (h : n.Sound) (hstep : NetStep n entry n') : n'.Sound := by
  constructor
  · intro i hlegacy ctx
    rw [hstep.isLegacy] at hlegacy
    rw [hstep.view hlegacy]
    apply viewStep (h.based i hlegacy ctx)
    rintro p blob rfl
    cases hstep with
    | receive hblob => exact (h.published blob (List.mem_of_getElem? hblob) ctx).1
  · rw [hstep.published]
    intro blob hblob ctx
    obtain hold | hnew := List.mem_append.mp hblob
    · exact h.published blob hold ctx
    · cases hstep with
      | @publish i =>
        obtain rfl := List.mem_singleton.mp hnew
        rw [Device.view_publishBlob]
        split
        · exact ⟨Nat.zero_le _, .inr ⟨_, 0, rfl⟩⟩
        · rename_i hlegacy
          exact ⟨(h.based i (Bool.eq_false_iff.mpr hlegacy) ctx).compacted,
            View.canonical_compacted _⟩
      | _ => exact (List.not_mem_nil hnew).elim

theorem of_run (hrun : Run NetStep (.new clientId isLegacy) entries n) : n.Sound := by
  induction hrun with
  | nil => exact ⟨fun _ _ _ => le_refl 0, fun _ h => (List.not_mem_nil h).elim⟩
  | snoc _ hlast ih => exact ih.step hlast

end Net.Sound

/-- What a device has taken in of a context since its register was last made anew: the blobs that it
has received or published, and whether it has published what it has done itself. -/
structure Info where
  heard : List Blob
  settled : Bool

variable [DecidableEq δ]

namespace Info

def step (i : δ) (ctx : String) (g : Info) : Entry δ → Info
  | .markUnread j k => if j = i ∧ k = ctx then { g with settled := false } else g
  | .markRead j k _ => if j = i ∧ k = ctx then { g with settled := false } else g
  | .advanceFrontier j k _ => if j = i ∧ k = ctx then { g with settled := false } else g
  | .compact j k rewritten => if (j = i ∧ k = ctx) ∧ rewritten = true then ⟨[], false⟩ else g
  | .publish j blob rewritten =>
    if j = i then
      if rewritten ctx then ⟨[], false⟩ else ⟨blob :: g.heard, true⟩
    else g
  | .reinstall j => if j = i then ⟨[], true⟩ else g
  | .receive j _ blob => if j = i then { g with heard := blob :: g.heard } else g

end Info

def info (i : δ) (ctx : String) (entries : List (Entry δ)) : Info :=
  entries.foldl (Info.step i ctx) ⟨[], true⟩

/-- A device has all that it has heard, and nothing else when it is settled. -/
structure Info.Kept (g : Info) (ctx : String) (v : View) : Prop where
  upper : ∀ blob ∈ g.heard, blob.view ctx ≤ v
  least : g.settled = true → ∀ w, (∀ blob ∈ g.heard, blob.view ctx ≤ w) → v ≤ w

namespace Info.Kept

variable {g : Info} {ctx : String} {v w : View} {n n' : Net δ} {entry : Entry δ}

theorem unsettle (h : g.Kept ctx v) (hle : v ≤ w) : Kept { g with settled := false } ctx w :=
  ⟨fun blob hblob => (h.upper blob hblob).trans hle, fun hsettled => Bool.noConfusion hsettled⟩

theorem forget (ctx : String) (v : View) : Kept ⟨[], false⟩ ctx v :=
  ⟨fun _ h => (List.not_mem_nil h).elim, fun hsettled => Bool.noConfusion hsettled⟩

theorem start (ctx : String) : Kept ⟨[], true⟩ ctx (0, 0, 0, 0) :=
  ⟨fun _ h => (List.not_mem_nil h).elim, fun _ _ _ => bot_le⟩

theorem publish (h : g.Kept ctx v) {blob : Blob} (hblob : blob.view ctx = v) :
    Kept ⟨blob :: g.heard, true⟩ ctx v := by
  constructor
  · intro own hown
    obtain rfl | hown := List.mem_cons.mp hown
    · exact hblob.le
    · exact h.upper own hown
  · intro _ w hw
    rw [← hblob]
    exact hw blob (List.mem_cons_self ..)

theorem receive (h : g.Kept ctx v) (blob : Blob) :
    Kept { g with heard := blob :: g.heard } ctx (v ⊔ blob.view ctx) := by
  constructor
  · intro own hown
    obtain rfl | hown := List.mem_cons.mp hown
    · exact le_sup_right
    · exact (h.upper own hown).trans le_sup_left
  · intro hsettled w hw
    apply sup_le
    · exact h.least hsettled w fun own hown => hw own (List.mem_cons_of_mem _ hown)
    · exact hw blob (List.mem_cons_self ..)

theorem step {i : δ} (h : g.Kept ctx ((n.devices i).view ctx)) (hsound : n.Sound)
    (hlegacy : (n.devices i).isLegacy = false) (hstep : NetStep n entry n') :
    (g.step i ctx entry).Kept ctx ((n'.devices i).view ctx) := by
  rw [hstep.view hlegacy]
  cases hstep with
  | markUnread =>
    rw [Info.step, Entry.viewStep]
    split
    · exact h.unsettle (View.le_marked (hsound.based i hlegacy ctx))
    · exact h
  | markRead =>
    rw [Info.step, Entry.viewStep]
    split
    · exact h.unsettle ((View.le_advanced _ _).trans (View.le_cleared _))
    · exact h
  | advanceFrontier =>
    rw [Info.step, Entry.viewStep]
    split
    · exact h.unsettle (View.le_advanced _ _)
    · exact h
  | @compact j k =>
    rw [Info.step, Entry.viewStep]
    split
    · exact forget ctx _
    · rename_i hsame
      split
      · rename_i hown
        obtain ⟨rfl, rfl⟩ := hown
        have hview : ((n.devices j).view k).compacted = (n.devices j).view k := by
          by_contra hne
          apply hsame
          refine ⟨⟨rfl, rfl⟩, decide_eq_true ?_⟩
          rw [Device.view_doCompact, if_pos rfl]
          exact hne
        rw [hview]
        exact h
      · exact h
  | publish =>
    rw [Info.step, Entry.viewStep]
    split
    · rename_i hj
      subst hj
      split
      · exact forget ctx _
      · rename_i hsame
        apply h.publish
        by_contra hne
        exact hsame (decide_eq_true hne)
    · exact h
  | reinstall =>
    rw [Info.step, Entry.viewStep]
    split
    · exact start ctx
    · exact h
  | receive hblob =>
    rw [Info.step, Entry.viewStep]
    split
    · exact h.receive _
    · exact h

theorem of_run {i : δ} {isLegacy : δ → Bool} (hrun : Run NetStep (.new clientId isLegacy) entries n)
    (hlegacy : isLegacy i = false) (ctx : String) :
    (n.devices i).isLegacy = false ∧ (info i ctx entries).Kept ctx ((n.devices i).view ctx) := by
  induction hrun with
  | nil => exact ⟨hlegacy, start ctx⟩
  | snoc hbefore hlast ih =>
    obtain ⟨hi, hkept⟩ := ih
    rw [info, List.foldl_append]
    exact ⟨(hlast.isLegacy i).trans hi, hkept.step (.of_run hbefore) hi hlast⟩

end Info.Kept

theorem Device.verdict_congr {d d' : Device} {ctx : String} (h : d.view ctx = d'.view ctx)
    (latestTs : ℤ) : d.verdict ctx latestTs .clear = d'.verdict ctx latestTs .clear := by
  have hfrontier : d.effectiveFrontier ctx = d'.effectiveFrontier ctx := congrArg Prod.fst h
  have hset : d.overrideIsSet ctx .clear = d'.overrideIsSet ctx .clear := by
    rw [Bool.eq_iff_iff, overrideIsSet, overrideIsSet, overrideSetB_iff, overrideSetB_iff]
    exact iff_of_eq (congrArg View.Live h)
  rw [verdict, verdict, hfrontier, hset]

/-- Settled devices that have heard the same show the same. -/
theorem verdict_eq_of_heard {n : Net δ} {i j : δ}
    (hi : (info i ctx entries).Kept ctx ((n.devices i).view ctx))
    (hj : (info j ctx entries).Kept ctx ((n.devices j).view ctx))
    (hsettled : (info i ctx entries).settled = true ∧ (info j ctx entries).settled = true)
    (hheard : ∀ blob, blob ∈ (info i ctx entries).heard ↔ blob ∈ (info j ctx entries).heard)
    (latestTs : ℤ) :
    (n.devices i).verdict ctx latestTs .clear = (n.devices j).verdict ctx latestTs .clear := by
  apply Device.verdict_congr
  apply le_antisymm
  · exact hi.least hsettled.1 _ fun blob hblob => hj.upper blob ((hheard blob).mp hblob)
  · exact hj.least hsettled.2 _ fun blob hblob => hi.upper blob ((hheard blob).mpr hblob)

end Buzz.Unread
