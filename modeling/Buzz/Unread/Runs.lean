import Buzz.Lib.Run
import Buzz.Unread.Wire

namespace Buzz.Unread
set_option autoImplicit true

namespace View

def marked : View → View
  | (f, s, c, _) => (f, Device.bump s c, c, f)

def advanced (ts : ℤ) : View → View
  | (f, s, c, b) => (max f ts.toNat, s, c, b)

def cleared : View → View
  | (f, s, c, b) => (f, s, Device.bump s c, b)

end View

namespace Device

variable {d : Device}

theorem view_setOverride (d : Device) (ctx k : String) (reg : RegB) :
    (d.setOverride ctx reg).view k =
      if k = ctx then Unread.view (d.effectiveFrontier ctx) (some reg) else d.view k := by
  rw [setOverride]
  split
  · rename_i hk
    subst hk
    rw [view, AList.lookup_insert]
    rfl
  · rename_i hk
    rw [view, AList.lookup_insert_ne hk]
    rfl

theorem view_doMarkUnread (hlegacy : d.isLegacy = false) (ctx k : String) :
    (d.doMarkUnread ctx).view k = if k = ctx then (d.view k).marked else d.view k := by
  rw [doMarkUnread, if_neg (Bool.eq_false_iff.mp hlegacy), view_setOverride]
  split
  · rename_i hk
    rw [hk]
    rfl
  · rfl

theorem view_doAdvanceFrontier (ctx : String) (ts : ℤ) (k : String) :
    (d.doAdvanceFrontier ctx ts).view k = if k = ctx then (d.view k).advanced ts else d.view k := by
  rw [doAdvanceFrontier, view, effectiveFrontier]
  split
  · rename_i hk
    subst hk
    rw [AList.lookup_insert]
    rfl
  · rename_i hk
    rw [AList.lookup_insert_ne hk]
    rfl

theorem view_doMarkRead (hlegacy : d.isLegacy = false) (ctx : String) (ts : ℤ) (k : String) :
    (d.doMarkRead ctx ts).view k =
      if k = ctx then ((d.view k).advanced ts).cleared else d.view k := by
  have hmoved : (d.doAdvanceFrontier ctx ts).isLegacy = false := hlegacy
  rw [doMarkRead, if_neg (Bool.eq_false_iff.mp hmoved), view_setOverride, view_doAdvanceFrontier]
  split
  · rename_i hk
    have hview : (d.doAdvanceFrontier ctx ts).view ctx = (d.view ctx).advanced ts := by
      rw [view_doAdvanceFrontier, if_pos rfl]
    rw [hk, ← hview]
    rfl
  · rfl

theorem view_doCompact (ctx k : String) :
    (d.doCompact ctx .clear).view k = if k = ctx then (d.view k).compacted else d.view k := by
  rw [doCompact]
  split
  · rename_i hnone
    split
    · rename_i hk
      rw [hk, view, hnone]
      rfl
    · rfl
  · rename_i reg hreg
    have hcompacted : Unread.view (d.effectiveFrontier ctx)
        (compactB reg (d.effectiveFrontier ctx) .clear) = (d.view ctx).compacted := by
      rw [view_compactB, view, hreg]
    split
    · rename_i hnone
      rw [hnone] at hcompacted
      split
      · rename_i hk
        rw [hk, ← hcompacted, view, AList.lookup_erase]
        rfl
      · rename_i hk
        rw [view, AList.lookup_erase_ne hk]
        rfl
    · rename_i result hsome
      rw [hsome] at hcompacted
      rw [view_setOverride, hcompacted]
      split
      · rename_i hk
        rw [hk]
      · rfl

theorem isLegacy_doMarkUnread (ctx : String) : (d.doMarkUnread ctx).isLegacy = d.isLegacy := by
  rw [doMarkUnread]
  split
  · rfl
  · rfl

theorem isLegacy_doMarkRead (ctx : String) (ts : ℤ) :
    (d.doMarkRead ctx ts).isLegacy = d.isLegacy := by
  rw [doMarkRead]
  dsimp only
  split
  · rfl
  · rfl

theorem isLegacy_doCompact (ctx : String) : (d.doCompact ctx .clear).isLegacy = d.isLegacy := by
  rw [doCompact]
  split
  · rfl
  · split
    · rfl
    · rfl

end Device

/-- The devices, and all that any of them has published. -/
structure Net (δ : Type) where
  devices : δ → Device
  published : List Blob

/-- A step of a net. A compaction tells whether it changes the register, and a publication for which
contexts it does not tell what the device keeps. -/
inductive Entry (δ : Type) where
  | markUnread (i : δ) (ctx : String)
  | markRead (i : δ) (ctx : String) (frontierTs : ℤ)
  | advanceFrontier (i : δ) (ctx : String) (ts : ℤ)
  | compact (i : δ) (ctx : String) (rewritten : Bool)
  | publish (i : δ) (blob : Blob) (rewritten : String → Bool)
  | reinstall (i : δ)
  | receive (i : δ) (p : ℕ) (blob : Blob)

variable {δ : Type} [DecidableEq δ]

namespace Net

def new (clientId : δ → String) (isLegacy : δ → Bool) : Net δ :=
  ⟨fun i => .new (clientId i) (isLegacy i), []⟩

def set (i : δ) (d : Device) (n : Net δ) : Net δ :=
  { n with devices := Function.update n.devices i d }

theorem devices_set (n : Net δ) (i j : δ) (d : Device) :
    (n.set j d).devices i = if j = i then d else n.devices i := by
  have hupdate : (n.set j d).devices i = if i = j then d else n.devices i :=
    Function.update_apply n.devices j d i
  rw [hupdate]
  simp only [eq_comm]

end Net

/-- The steps of the devices, and the delivery of what has been published at any time before. -/
inductive NetStep (n : Net δ) : Entry δ → Net δ → Prop where
  | markUnread : NetStep n (.markUnread i ctx) (n.set i ((n.devices i).doMarkUnread ctx))
  | markRead : NetStep n (.markRead i ctx ts) (n.set i ((n.devices i).doMarkRead ctx ts))
  | advanceFrontier :
      NetStep n (.advanceFrontier i ctx ts) (n.set i ((n.devices i).doAdvanceFrontier ctx ts))
  | compact : NetStep n
      (.compact i ctx (((n.devices i).doCompact ctx .clear).view ctx ≠ (n.devices i).view ctx))
      (n.set i ((n.devices i).doCompact ctx .clear))
  | publish : NetStep n
      (.publish i ((n.devices i).publishBlob .clear)
        fun ctx => ((n.devices i).publishBlob .clear).view ctx ≠ (n.devices i).view ctx)
      { n with published := n.published ++ [(n.devices i).publishBlob .clear] }
  | reinstall : NetStep n (.reinstall i) (n.set i (n.devices i).doReinstall)
  | receive (h : n.published[p]? = some blob) :
      NetStep n (.receive i p blob) (n.set i ((n.devices i).receiveMerge blob))

namespace Entry

/-- What an entry does to what a device knows of a context. -/
def viewStep (i : δ) (ctx : String) (entry : Entry δ) (v : View) : View :=
  match entry with
  | .markUnread j k => if j = i ∧ k = ctx then v.marked else v
  | .markRead j k ts => if j = i ∧ k = ctx then (v.advanced ts).cleared else v
  | .advanceFrontier j k ts => if j = i ∧ k = ctx then v.advanced ts else v
  | .compact j k _ => if j = i ∧ k = ctx then v.compacted else v
  | .publish _ _ _ => v
  | .reinstall j => if j = i then (0, 0, 0, 0) else v
  | .receive j _ blob => if j = i then v ⊔ blob.view ctx else v

def publishedBlob : Entry δ → List Blob
  | .publish _ blob _ => [blob]
  | _ => []

end Entry

namespace NetStep

variable {n n' : Net δ} {entry : Entry δ}

theorem isLegacy (h : NetStep n entry n') (i : δ) :
    (n'.devices i).isLegacy = (n.devices i).isLegacy := by
  have hset : ∀ j d, d.isLegacy = (n.devices j).isLegacy →
      ((n.set j d).devices i).isLegacy = (n.devices i).isLegacy := by
    intro j d hd
    rw [Net.devices_set]
    split
    · rename_i hj
      rw [hd, hj]
    · rfl
  cases h with
  | markUnread => exact hset _ _ (Device.isLegacy_doMarkUnread _)
  | markRead => exact hset _ _ (Device.isLegacy_doMarkRead _ _)
  | advanceFrontier => exact hset _ _ rfl
  | compact => exact hset _ _ (Device.isLegacy_doCompact _)
  | publish => rfl
  | reinstall => exact hset _ _ rfl
  | receive => exact hset _ _ rfl

theorem published (h : NetStep n entry n') :
    n'.published = n.published ++ entry.publishedBlob := by
  cases h with
  | publish => rfl
  | _ => exact (List.append_nil _).symm

/-- A device that is not legacy does to each context what the entry says. -/
theorem view (h : NetStep n entry n') {i : δ} (hlegacy : (n.devices i).isLegacy = false)
    (ctx : String) :
    (n'.devices i).view ctx = entry.viewStep i ctx ((n.devices i).view ctx) := by
  have hset : ∀ j d (v : View), (j = i → d.view ctx = v) →
      ((n.set j d).devices i).view ctx = if j = i then v else (n.devices i).view ctx := by
    intro j d v hd
    rw [Net.devices_set]
    split
    · rename_i hj
      exact hd hj
    · rfl
  have hone : ∀ (j : δ) (k : String) (v : View),
      (if j = i then if ctx = k then v else (n.devices i).view ctx else (n.devices i).view ctx) =
        if j = i ∧ k = ctx then v else (n.devices i).view ctx := by
    intro j k v
    by_cases hj : j = i
    · simp only [hj, if_true, true_and, eq_comm]
    · rw [if_neg hj, if_neg fun h => hj h.1]
  cases h with
  | @markUnread j k =>
    refine (hset j _ _ ?_).trans (hone j k _)
    rintro rfl
    exact Device.view_doMarkUnread hlegacy k ctx
  | @markRead j k ts =>
    refine (hset j _ _ ?_).trans (hone j k _)
    rintro rfl
    exact Device.view_doMarkRead hlegacy k ts ctx
  | @advanceFrontier j k ts =>
    refine (hset j _ _ ?_).trans (hone j k _)
    rintro rfl
    exact Device.view_doAdvanceFrontier k ts ctx
  | @compact j k =>
    refine (hset j _ _ ?_).trans (hone j k _)
    rintro rfl
    exact Device.view_doCompact k ctx
  | publish => rfl
  | reinstall => exact hset _ _ _ fun _ => rfl
  | @receive p blob j =>
    apply hset
    rintro rfl
    exact Device.view_receiveMerge blob hlegacy ctx

end NetStep

end Buzz.Unread
