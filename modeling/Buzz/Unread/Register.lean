import Mathlib

namespace Buzz.Unread
set_option autoImplicit true

/-- What wins where the two counters are the same. -/
inductive TiePolicy where
  | set
  | clear
deriving DecidableEq

/-- A counter of sets, one of clears, and the frontier at the last set. -/
structure RegB where
  s : ℕ := 0
  c : ℕ := 0
  b : ℕ := 0
deriving DecidableEq

def mergeRegB : Option RegB → Option RegB → Option RegB
  | none, b => b
  | some a, none => some a
  | some a, some b => some ⟨max a.s b.s, max a.c b.c, max a.b b.b⟩

def overrideSetB (reg : Option RegB) (frontierVal : ℕ) (tiePolicy : TiePolicy) : Bool :=
  match reg with
  | none => false
  | some reg =>
    if reg.b < frontierVal ∧ 0 < reg.s then false
    else if reg.c < reg.s then true
    else if reg.s = reg.c ∧ 0 < reg.s then tiePolicy = .set
    else false

/-- A register that is not live keeps the higher of its counters, as the one of clears. -/
def compactB (reg : RegB) (frontierVal : ℕ) (tiePolicy : TiePolicy) : Option RegB :=
  if reg.s = 0 ∧ reg.c = 0 then none
  else if overrideSetB (some reg) frontierVal tiePolicy then some reg
  else some ⟨0, max reg.s reg.c, 0⟩

/-- What is known of a context: the frontier, and the set counter, the clear counter and the baseline
of its register, where no register is one with nothing in it. -/
abbrev View := ℕ × ℕ × ℕ × ℕ

def view (frontierVal : ℕ) (reg : Option RegB) : View :=
  (frontierVal, (reg.getD {}).s, (reg.getD {}).c, (reg.getD {}).b)

namespace View

/-- The override is set, where clears win. -/
def Live : View → Prop
  | (f, s, c, b) => c < s ∧ f ≤ b

/-- Every set has been cleared. -/
def Cleared : View → Prop
  | (_, s, c, _) => s ≤ c

def clearCounter : View → ℕ
  | (_, _, c, _) => c

/-- The highest counter that there has been. -/
def top : View → ℕ
  | (_, s, c, _) => max s c

/-- What is left of a view when its register is compacted. -/
def compacted : View → View
  | (f, s, c, b) => if c < s ∧ f ≤ b then (f, s, c, b) else (f, 0, max s c, 0)

theorem Cleared.not_live {v : View} (h : v.Cleared) : ¬ v.Live := by
  obtain ⟨f, s, c, b⟩ := v
  exact fun hlive => absurd hlive.1 (not_lt.mpr h)

theorem clearCounter_le_top (v : View) : v.clearCounter ≤ v.top := by
  obtain ⟨f, s, c, b⟩ := v
  exact le_max_right s c

@[simp]
theorem top_sup (v w : View) : (v ⊔ w).top = max v.top w.top := by
  obtain ⟨f, s, c, b⟩ := v
  obtain ⟨f', s', c', b'⟩ := w
  exact sup_sup_sup_comm s s' c c'

@[simp]
theorem clearCounter_sup (v w : View) :
    (v ⊔ w).clearCounter = max v.clearCounter w.clearCounter := by
  obtain ⟨f, s, c, b⟩ := v
  obtain ⟨f', s', c', b'⟩ := w
  rfl

/-- What never had a set above the clears leaves them cleared. -/
theorem Cleared.sup {v w : View} (h : v.Cleared) (hw : w.top ≤ v.clearCounter) :
    (v ⊔ w).Cleared := by
  obtain ⟨f, s, c, b⟩ := v
  obtain ⟨f', s', c', b'⟩ := w
  have hs' : s' ≤ c := (le_max_left s' c').trans hw
  exact max_le (le_max_of_le_left h) (le_max_of_le_left hs')

@[simp]
theorem top_compacted (v : View) : v.compacted.top = v.top := by
  obtain ⟨f, s, c, b⟩ := v
  rw [compacted]
  split
  · rfl
  · exact Nat.zero_max _

theorem clearCounter_le_compacted (v : View) : v.clearCounter ≤ v.compacted.clearCounter := by
  obtain ⟨f, s, c, b⟩ := v
  rw [compacted]
  split
  · exact le_refl c
  · exact le_max_right s c

theorem Cleared.compacted {v : View} (h : v.Cleared) : v.compacted.Cleared := by
  obtain ⟨f, s, c, b⟩ := v
  rw [View.compacted]
  split
  · exact h
  · exact Nat.zero_le _

/-- A compacted register that is not live has no set in it. -/
theorem compacted_eq_of_not_live {v : View} (h : ¬ v.compacted.Live) :
    ∃ f c, v.compacted = (f, 0, c, 0) := by
  obtain ⟨f, s, c, b⟩ := v
  rw [compacted] at h ⊢
  split
  · rename_i hlive
    rw [if_pos hlive] at h
    exact absurd hlive h
  · exact ⟨f, max s c, rfl⟩

end View

theorem overrideSetB_iff (reg : Option RegB) (f : ℕ) :
    overrideSetB reg f .clear = true ↔ (view f reg).Live := by
  cases reg with
  | none =>
    constructor
    · exact fun h => Bool.noConfusion h
    · exact fun h => absurd h.1 (lt_irrefl 0)
  | some reg =>
    obtain ⟨s, c, b⟩ := reg
    show overrideSetB (some ⟨s, c, b⟩) f .clear = true ↔ c < s ∧ f ≤ b
    rw [overrideSetB]
    split
    · rename_i hpast
      constructor
      · exact fun h => Bool.noConfusion h
      · exact fun h => absurd h.2 (not_le.mpr hpast.1)
    · rename_i hpast
      split
      · rename_i hcs
        have hfb : f ≤ b := not_lt.mp fun hbf => hpast ⟨hbf, (Nat.zero_le c).trans_lt hcs⟩
        exact iff_of_true rfl ⟨hcs, hfb⟩
      · rename_i hcs
        have hnot : ¬ (c < s ∧ f ≤ b) := fun h => hcs h.1
        split
        · exact iff_of_false Bool.false_ne_true hnot
        · exact iff_of_false Bool.false_ne_true hnot

theorem view_merge (f f' : ℕ) (a b : Option RegB) :
    view (max f f') (mergeRegB a b) = view f a ⊔ view f' b := by
  cases a with
  | none =>
    cases b with
    | none => rfl
    | some b =>
      show (max f f', b.s, b.c, b.b) = (max f f', max 0 b.s, max 0 b.c, max 0 b.b)
      rw [Nat.zero_max, Nat.zero_max, Nat.zero_max]
  | some a =>
    cases b with
    | none =>
      show (max f f', a.s, a.c, a.b) = (max f f', max a.s 0, max a.c 0, max a.b 0)
      rw [Nat.max_zero, Nat.max_zero, Nat.max_zero]
    | some b => rfl

theorem view_compactB (f : ℕ) (reg : RegB) :
    view f (compactB reg f .clear) = (view f (some reg)).compacted := by
  obtain ⟨s, c, b⟩ := reg
  show view f (compactB ⟨s, c, b⟩ f .clear) =
    if c < s ∧ f ≤ b then (f, s, c, b) else (f, 0, max s c, 0)
  rw [compactB]
  split
  · rename_i hzero
    obtain ⟨rfl, rfl⟩ := hzero
    rw [if_neg fun h => absurd h.1 (lt_irrefl 0)]
    rfl
  · split
    · rename_i hset
      have hlive : c < s ∧ f ≤ b := (overrideSetB_iff _ f).mp hset
      rw [if_pos hlive]
      rfl
    · rename_i hset
      have hdead : ¬ (c < s ∧ f ≤ b) := fun h => hset ((overrideSetB_iff _ f).mpr h)
      rw [if_neg hdead]
      rfl

end Buzz.Unread
