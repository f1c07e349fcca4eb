import Buzz.Unread.Agreement

namespace Buzz.Unread
set_option autoImplicit true

variable {δ : Type}

/-- A clear of a context, and the publications that its device had taken in before it. -/
structure Clear where
  context : String
  before : List ℕ

/-- What happened before: the publications and the clears that are behind what a device has, or behind
what was published. -/
structure Past (δ : Type) where
  known : δ → List ℕ
  clears : δ → List Clear
  published : List (List ℕ × List Clear)

namespace Past

def start : Past δ :=
  ⟨fun _ => [], fun _ => [], []⟩

def behind (g : Past δ) (p : ℕ) : List ℕ × List Clear :=
  (g.published[p]?).getD ([], [])

theorem behind_append (g : Past δ) (own : List ℕ × List Clear) (p : ℕ) :
    behind { g with published := g.published ++ [own] } p =
      if p = g.published.length then own else g.behind p := by
  rw [behind, behind]
  dsimp only
  split
  · rename_i hp
    rw [hp, List.getElem?_concat_length]
    rfl
  · rename_i hp
    obtain hlt | hgt := Nat.lt_or_gt_of_ne hp
    · rw [List.getElem?_append_left hlt]
    · have hle : (g.published ++ [own]).length ≤ p := by
        rw [List.length_append]
        exact hgt
      rw [List.getElem?_eq_none hle, List.getElem?_eq_none hgt.le]

/-- A legacy device takes in no override, and clears none. -/
def step [DecidableEq δ] (isLegacy : δ → Bool) (g : Past δ) : Entry δ → Past δ
  | .markRead i ctx _ =>
    if isLegacy i then g
    else { g with clears := Function.update g.clears i (⟨ctx, g.known i⟩ :: g.clears i) }
  | .publish i _ _ =>
    if isLegacy i then { g with published := g.published ++ [([], [])] }
    else { g with
      known := Function.update g.known i (g.published.length :: g.known i)
      published := g.published ++ [(g.known i, g.clears i)] }
  | .reinstall i =>
    { g with known := Function.update g.known i [], clears := Function.update g.clears i [] }
  | .receive i p _ =>
    if isLegacy i then g
    else { g with
      known := Function.update g.known i (p :: ((g.behind p).1 ++ g.known i))
      clears := Function.update g.clears i ((g.behind p).2 ++ g.clears i) }
  | _ => g

end Past

def past [DecidableEq δ] (isLegacy : δ → Bool) (entries : List (Entry δ)) : Past δ :=
  entries.foldl (Past.step isLegacy) Past.start

/-- What a publication tells of a context. -/
def Net.told (n : Net δ) (p : ℕ) (ctx : String) : View :=
  (n.published[p]?).elim (0, 0, 0, 0) (·.view ctx)

/-- Counters are not below those that are behind them, and clear counters are above. -/
structure Covers (n : Net δ) (known : List ℕ) (clears : List Clear) (v : String → View) : Prop where
  known : ∀ p ∈ known, p < n.published.length ∧ ∀ ctx, (n.told p ctx).top ≤ (v ctx).top
  clears : ∀ κ ∈ clears, ∀ p ∈ κ.before, p < n.published.length ∧
    (n.told p κ.context).top < (v κ.context).clearCounter

namespace Covers

variable {n n' : Net δ} {known known' : List ℕ} {clears clears' : List Clear}
  {v w : String → View}

theorem grow (h : Covers n known clears v) (htop : ∀ ctx, (v ctx).top ≤ (w ctx).top)
    (hclear : ∀ ctx, (v ctx).clearCounter ≤ (w ctx).clearCounter) : Covers n known clears w := by
  constructor
  · intro p hp
    obtain ⟨hlt, hle⟩ := h.known p hp
    exact ⟨hlt, fun ctx => (hle ctx).trans (htop ctx)⟩
  · intro κ hκ p hp
    obtain ⟨hlt, hbelow⟩ := h.clears κ hκ p hp
    exact ⟨hlt, hbelow.trans_le (hclear κ.context)⟩

theorem nil (n : Net δ) (v : String → View) : Covers n [] [] v :=
  ⟨fun _ h => (List.not_mem_nil h).elim, fun _ h => (List.not_mem_nil h).elim⟩

theorem sup (h : Covers n known clears v) (h' : Covers n known' clears' w) :
    Covers n (known' ++ known) (clears' ++ clears) fun ctx => v ctx ⊔ w ctx := by
  constructor
  · intro p hp
    obtain hp | hp := List.mem_append.mp hp
    · obtain ⟨hlt, hle⟩ := h'.known p hp
      refine ⟨hlt, fun ctx => ?_⟩
      rw [View.top_sup]
      exact (hle ctx).trans (le_max_right _ _)
    · obtain ⟨hlt, hle⟩ := h.known p hp
      refine ⟨hlt, fun ctx => ?_⟩
      rw [View.top_sup]
      exact (hle ctx).trans (le_max_left _ _)
  · intro κ hκ p hp
    obtain hκ | hκ := List.mem_append.mp hκ
    · obtain ⟨hlt, hbelow⟩ := h'.clears κ hκ p hp
      rw [View.clearCounter_sup]
      exact ⟨hlt, hbelow.trans_le (le_max_right _ _)⟩
    · obtain ⟨hlt, hbelow⟩ := h.clears κ hκ p hp
      rw [View.clearCounter_sup]
      exact ⟨hlt, hbelow.trans_le (le_max_left _ _)⟩

theorem cons_known (h : Covers n known clears v) (hp : p < n.published.length)
    (htop : ∀ ctx, (n.told p ctx).top ≤ (v ctx).top) : Covers n (p :: known) clears v := by
  refine ⟨fun q hq => ?_, h.clears⟩
  obtain rfl | hq := List.mem_cons.mp hq
  · exact ⟨hp, htop⟩
  · exact h.known q hq

/-- A clear counts higher than all that is known. -/
theorem clear (h : Covers n known clears v) (htop : ∀ ctx, (v ctx).top ≤ (w ctx).top)
    (hclear : ∀ ctx, (v ctx).clearCounter ≤ (w ctx).clearCounter) (ctx : String)
    (habove : (v ctx).top < (w ctx).clearCounter) : Covers n known (⟨ctx, known⟩ :: clears) w := by
  have hgrown := h.grow htop hclear
  refine ⟨hgrown.known, fun κ hκ p hp => ?_⟩
  obtain rfl | hκ := List.mem_cons.mp hκ
  · obtain ⟨hlt, hle⟩ := h.known p hp
    exact ⟨hlt, (hle ctx).trans_lt habove⟩
  · exact hgrown.clears κ hκ p hp

theorem told_append {blobs : List Blob} (hpublished : n'.published = n.published ++ blobs)
    (hp : p < n.published.length) : n'.told p = n.told p := by
  funext ctx
  rw [Net.told, Net.told, hpublished, List.getElem?_append_left hp]

theorem published (h : Covers n known clears v) {blobs : List Blob}
    (hpublished : n'.published = n.published ++ blobs) : Covers n' known clears v := by
  have hlength : n.published.length ≤ n'.published.length := by
    rw [hpublished, List.length_append]
    exact Nat.le_add_right _ _
  constructor
  · intro p hp
    obtain ⟨hlt, hle⟩ := h.known p hp
    rw [told_append hpublished hlt]
    exact ⟨hlt.trans_le hlength, hle⟩
  · intro κ hκ p hp
    obtain ⟨hlt, hbelow⟩ := h.clears κ hκ p hp
    rw [told_append hpublished hlt]
    exact ⟨hlt.trans_le hlength, hbelow⟩

end Covers

variable [DecidableEq δ]

namespace View

theorem top_marked (v : View) : v.top ≤ v.marked.top := by
  obtain ⟨f, s, c, b⟩ := v
  exact le_max_of_le_left (Nat.le_succ _)

theorem top_lt_cleared (v : View) : v.top < v.cleared.clearCounter :=
  Nat.lt_succ_self v.top

end View

def Entry.Reinstalls (i : δ) : Entry δ → Prop
  | .reinstall j => j = i
  | _ => False

/-- Only a reinstallation takes a counter back. -/
theorem Entry.viewStep_grows {entry : Entry δ} {i : δ} (h : ¬ entry.Reinstalls i) (ctx : String)
    (v : View) : v.top ≤ (entry.viewStep i ctx v).top ∧
      v.clearCounter ≤ (entry.viewStep i ctx v).clearCounter := by
  cases entry with
  | markUnread j k =>
    rw [viewStep]
    split
    · exact ⟨v.top_marked, le_refl _⟩
    · exact ⟨le_refl _, le_refl _⟩
  | markRead j k ts =>
    rw [viewStep]
    split
    · have habove : v.top < ((v.advanced ts).cleared).clearCounter := View.top_lt_cleared _
      exact ⟨habove.le.trans (View.clearCounter_le_top _), v.clearCounter_le_top.trans habove.le⟩
    · exact ⟨le_refl _, le_refl _⟩
  | advanceFrontier j k ts =>
    rw [viewStep]
    split
    · exact ⟨le_refl _, le_refl _⟩
    · exact ⟨le_refl _, le_refl _⟩
  | compact j k rewritten =>
    rw [viewStep]
    split
    · exact ⟨v.top_compacted.ge, v.clearCounter_le_compacted⟩
    · exact ⟨le_refl _, le_refl _⟩
  | publish j blob rewritten => exact ⟨le_refl _, le_refl _⟩
  | reinstall j =>
    have hj : ¬ j = i := h
    rw [viewStep, if_neg hj]
    exact ⟨le_refl _, le_refl _⟩
  | receive j p blob =>
    rw [viewStep]
    split
    · rw [View.top_sup, View.clearCounter_sup]
      exact ⟨le_max_left _ _, le_max_left _ _⟩
    · exact ⟨le_refl _, le_refl _⟩

/-- The counters of each device and of each publication cover what is behind it. -/
structure Past.Kept (isLegacy : δ → Bool) (g : Past δ) (n : Net δ) : Prop where
  legacy : ∀ i, (n.devices i).isLegacy = isLegacy i
  length : g.published.length = n.published.length
  devices : ∀ i, isLegacy i = false → Covers n (g.known i) (g.clears i) (n.devices i).view
  published : ∀ p, Covers n (g.behind p).1 (g.behind p).2 (n.told p)

namespace Past.Kept

variable {isLegacy : δ → Bool} {g : Past δ} {n n' : Net δ} {entry : Entry δ}

theorem carried (h : g.Kept isLegacy n) (hstep : NetStep n entry n') {i : δ}
    (hi : isLegacy i = false) (hentry : ¬ entry.Reinstalls i) :
    Covers n' (g.known i) (g.clears i) (n'.devices i).view := by
  have hview := hstep.view ((h.legacy i).trans hi)
  apply ((h.devices i hi).published hstep.published).grow
  · intro ctx
    rw [hview]
    exact (Entry.viewStep_grows hentry ctx _).1
  · intro ctx
    rw [hview]
    exact (Entry.viewStep_grows hentry ctx _).2

/-- What is behind the publications stays when nothing is published. -/
theorem published_same (h : g.Kept isLegacy n) (hstep : NetStep n entry n')
    (hentry : entry.publishedBlob = []) (p : ℕ) :
    Covers n' (g.behind p).1 (g.behind p).2 (n'.told p) := by
  have hsame : n'.published = n.published := by
    rw [hstep.published, hentry, List.append_nil]
  have htold : n'.told p = n.told p := by
    funext ctx
    rw [Net.told, Net.told, hsame]
  rw [htold]
  exact (h.published p).published hstep.published

theorem step_devices (h : g.Kept isLegacy n) (hstep : NetStep n entry n') (i : δ)
    (hi : isLegacy i = false) :
    Covers n' ((g.step isLegacy entry).known i) ((g.step isLegacy entry).clears i)
      (n'.devices i).view := by
  have hview := hstep.view ((h.legacy i).trans hi)
  have hcarried := h.carried hstep hi
  have hbefore := (h.devices i hi).published hstep.published
  cases entry with
  | markUnread j k => exact hcarried id
  | advanceFrontier j k ts => exact hcarried id
  | compact j k rewritten => exact hcarried id
  | markRead j k ts =>
    have hgrown := hcarried id
    rw [Past.step]
    split
    · exact hgrown
    · dsimp only
      by_cases hij : i = j
      · subst hij
        rw [Function.update_self]
        have hread : (n'.devices i).view k = (((n.devices i).view k).advanced ts).cleared := by
          rw [hview, Entry.viewStep, if_pos ⟨rfl, rfl⟩]
        apply hbefore.clear
        · intro ctx
          rw [hview]
          exact (Entry.viewStep_grows id ctx _).1
        · intro ctx
          rw [hview]
          exact (Entry.viewStep_grows id ctx _).2
        · rw [hread]
          exact View.top_lt_cleared (((n.devices i).view k).advanced ts)
      · rw [Function.update_of_ne hij]
        exact hgrown
  | publish j blob rewritten =>
    have hgrown := hcarried id
    rw [Past.step]
    split
    · exact hgrown
    · dsimp only
      by_cases hij : i = j
      · subst hij
        rw [Function.update_self, h.length]
        have hlast : n'.told n.published.length = blob.view := by
          funext ctx
          rw [Net.told, hstep.published, Entry.publishedBlob, List.getElem?_concat_length]
          rfl
        apply hgrown.cons_known
        · rw [hstep.published, List.length_append]
          exact Nat.lt_succ_self _
        · intro ctx
          rw [hlast, hview]
          cases hstep with
          | publish =>
            rw [Device.view_publishBlob, (h.legacy i).trans hi, if_neg Bool.false_ne_true,
              View.top_compacted]
            rfl
      · rw [Function.update_of_ne hij]
        exact hgrown
  | reinstall j =>
    rw [Past.step]
    dsimp only
    by_cases hij : i = j
    · rw [hij, Function.update_self, Function.update_self]
      exact .nil _ _
    · rw [Function.update_of_ne hij, Function.update_of_ne hij]
      exact hcarried (Ne.symm hij)
  | receive j p blob =>
    have hgrown := hcarried id
    rw [Past.step]
    split
    · exact hgrown
    · dsimp only
      by_cases hij : i = j
      · subst hij
        rw [Function.update_self, Function.update_self]
        have htold : n'.told p = blob.view ∧ p < n'.published.length := by
          cases hstep with
          | receive hblob =>
            obtain ⟨hlt, -⟩ := List.getElem?_eq_some_iff.mp hblob
            refine ⟨?_, hlt⟩
            funext ctx
            show (n.published[p]?).elim _ _ = _
            rw [hblob]
            rfl
        have hbehind := h.published_same hstep rfl p
        have hjoined := hbefore.sup hbehind
        rw [htold.1] at hbehind hjoined
        have hsup : (n'.devices i).view = fun ctx => (n.devices i).view ctx ⊔ blob.view ctx := by
          funext ctx
          rw [hview, Entry.viewStep, if_pos rfl]
        rw [hsup]
        apply hjoined.cons_known htold.2
        intro ctx
        rw [htold.1, View.top_sup]
        exact le_max_right _ _
      · rw [Function.update_of_ne hij, Function.update_of_ne hij]
        exact hgrown

theorem step_published (h : g.Kept isLegacy n) (hstep : NetStep n entry n') (p : ℕ) :
    Covers n' ((g.step isLegacy entry).behind p).1 ((g.step isLegacy entry).behind p).2
      (n'.told p) := by
  cases entry with
  | publish j blob rewritten =>
    have hlast : n'.told g.published.length = blob.view := by
      funext ctx
      rw [h.length, Net.told, hstep.published, Entry.publishedBlob, List.getElem?_concat_length]
      rfl
    have hold : p ≠ g.published.length → Covers n' (g.behind p).1 (g.behind p).2 (n'.told p) := by
      intro hp
      rw [h.length] at hp
      obtain hlt | hgt := Nat.lt_or_gt_of_ne hp
      · rw [Covers.told_append hstep.published hlt]
        exact (h.published p).published hstep.published
      · have hnone : g.behind p = ([], []) := by
          rw [Past.behind, List.getElem?_eq_none (h.length.le.trans hgt.le)]
          rfl
        rw [hnone]
        exact .nil _ _
    rw [Past.step]
    split
    · rw [Past.behind_append]
      split
      · exact .nil _ _
      · rename_i hp
        exact hold hp
    · rename_i hj
      rw [Bool.not_eq_true] at hj
      have hbehind := Past.behind_append { g with
        known := Function.update g.known j (g.published.length :: g.known j) }
          (g.known j, g.clears j) p
      rw [hbehind]
      split
      · rename_i hp
        rw [hp, hlast]
        have hcompacted : ∀ ctx, blob.view ctx = ((n'.devices j).view ctx).compacted := by
          intro ctx
          cases hstep with
          | publish => rw [Device.view_publishBlob, (h.legacy j).trans hj, if_neg Bool.false_ne_true]
        have hown := h.carried hstep hj id
        apply hown.grow
        · intro ctx
          rw [hcompacted, View.top_compacted]
        · intro ctx
          rw [hcompacted]
          exact View.clearCounter_le_compacted _
      · rename_i hp
        exact hold hp
  | markUnread j k => exact h.published_same hstep rfl p
  | advanceFrontier j k ts => exact h.published_same hstep rfl p
  | compact j k rewritten => exact h.published_same hstep rfl p
  | markRead j k ts =>
    rw [Past.step]
    split
    · exact h.published_same hstep rfl p
    · exact h.published_same hstep rfl p
  | reinstall j => exact h.published_same hstep rfl p
  | receive j q blob =>
    rw [Past.step]
    split
    · exact h.published_same hstep rfl p
    · exact h.published_same hstep rfl p

theorem step (h : g.Kept isLegacy n) (hstep : NetStep n entry n') :
    (g.step isLegacy entry).Kept isLegacy n' := by
  refine ⟨fun i => (hstep.isLegacy i).trans (h.legacy i), ?_, h.step_devices hstep,
    h.step_published hstep⟩
  rw [hstep.published, List.length_append, ← h.length]
  cases entry with
  | publish j blob rewritten =>
    rw [Past.step]
    split
    · exact List.length_append
    · exact List.length_append
  | markRead j k ts =>
    rw [Past.step]
    split
    · rfl
    · rfl
  | receive j p blob =>
    rw [Past.step]
    split
    · rfl
    · rfl
  | _ => rfl

theorem of_run (hrun : Run NetStep (.new clientId isLegacy) entries n) :
    (past isLegacy entries).Kept isLegacy n := by
  induction hrun with
  | nil => exact ⟨fun _ => rfl, rfl, fun _ _ => .nil _ _, fun _ => .nil _ _⟩
  | snoc _ hlast ih =>
    rw [past, List.foldl_append]
    exact ih.step hlast

end Past.Kept

end Buzz.Unread
