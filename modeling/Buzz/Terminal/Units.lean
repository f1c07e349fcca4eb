import Buzz.Lib.Saturating

namespace Buzz.Terminal
set_option autoImplicit true

/-- Read access to the cursor column of whatever is driven. -/
class CursorColumn (H : Type) where
  cursorColumn : H → ℕ

/-- The callback of a handler whose argument the wrapper rewrites. -/
class Handler (H : Type) extends CursorColumn H where
  moveBackwardTabs : ℕ → H → H

open CursorColumn Handler

/-- Wraps a handler, forwarding every callback and counting them. -/
structure Counting (H : Type) where
  inner : H
  units : ℕ
  work : ℕ
  columns : ℕ
  lines : ℕ
  scrollback : ℕ

namespace Counting

variable {H : Type}

def new (inner : H) (columns lines scrollback : ℕ) : Counting H where
  inner := inner
  units := 0
  work := 0
  columns := columns
  lines := lines
  scrollback := scrollback

/-- Cells in the grid. -/
def cells (c : Counting H) : ℕ := satMul c.columns c.lines

/-- A parameter charged at its clamped value. -/
def clamp (n bound : ℕ) : ℕ := max (min n bound) 1

def charge (c : Counting H) (weight : ℕ) : Counting H where
  inner := c.inner
  units := satAdd c.units 1
  work := satAdd c.work weight
  columns := c.columns
  lines := c.lines
  scrollback := c.scrollback

variable [Handler H]

/-- A step that finds no stop scans the whole row to the left of the cursor. -/
def scanned (before after : ℕ) : ℕ :=
  if after = before then before else before - after

/-- One delegated step, charged at the cells that it scanned. -/
def stepBackward (c : Counting H) : Counting H where
  inner := moveBackwardTabs 1 c.inner
  units := c.units
  work := satAdd c.work
    (scanned (cursorColumn c.inner) (cursorColumn (moveBackwardTabs 1 c.inner)))
  columns := c.columns
  lines := c.lines
  scrollback := c.scrollback

/-- The loop stops at the first step that does not move the cursor. -/
def loopBackward : ℕ → Counting H → Counting H
  | 0, c => c
  | count + 1, c =>
    if cursorColumn c.stepBackward.inner = cursorColumn c.inner then c.stepBackward
    else loopBackward count c.stepBackward

def moveBackwardTabs (count : ℕ) (c : Counting H) : Counting H :=
  loopBackward count (c.charge 1)

end Counting

/-- A row with its tab stops and the cursor on it. -/
structure Row where
  columns : ℕ
  tabs : ℕ → Bool
  cursor : Fin columns

/-- The greatest stop strictly left of a column. -/
def stopBefore (tabs : ℕ → Bool) : ℕ → Option ℕ
  | 0 => none
  | i + 1 => if tabs i then some i else stopBefore tabs i

theorem stopBefore_eq_some (tabs : ℕ → Bool) (column i : ℕ) : stopBefore tabs column = some i ↔
    i < column ∧ tabs i = true ∧ ∀ j, i < j → j < column → tabs j = false := by
  induction column with
  | zero => exact ⟨nofun, fun h => absurd h.1 (Nat.not_lt_zero _)⟩
  | succ k ih =>
    rw [stopBefore]
    by_cases hk : tabs k = true
    · rw [if_pos hk]
      constructor
      · intro h
        obtain rfl := Option.some.inj h
        exact ⟨Nat.lt_succ_self _, hk, fun j hij hj => absurd hij (by omega)⟩
      · intro h
        obtain ⟨hi, -, hmax⟩ := h
        by_cases hik : i < k
        · exact absurd hk (by rw [hmax k hik (Nat.lt_succ_self k)]; exact Bool.false_ne_true)
        · rw [Nat.le_antisymm (Nat.le_of_lt_succ hi) (Nat.not_lt.mp hik)]
    · rw [if_neg hk, ih]
      constructor
      · intro ⟨hi, hstop, hmax⟩
        refine ⟨Nat.lt_succ_of_lt hi, hstop, ?_⟩
        intro j hij hj
        by_cases hjk : j = k
        · rw [hjk]
          exact Bool.eq_false_iff.mpr hk
        · exact hmax j hij (by omega)
      · intro ⟨hi, hstop, hmax⟩
        have hik : i ≠ k := fun h => hk (h ▸ hstop)
        exact ⟨by omega, hstop, fun j hij hj => hmax j hij (by omega)⟩

theorem stopBefore_lt (h : stopBefore tabs column = some i) : i < column :=
  ((stopBefore_eq_some tabs column i).mp h).1

namespace Row

def backTabColumn (r : Row) : ℕ :=
  (stopBefore r.tabs r.cursor).getD r.cursor

theorem backTabColumn_le (r : Row) : r.backTabColumn ≤ r.cursor := by
  rw [backTabColumn]
  cases h : stopBefore r.tabs r.cursor with
  | none => exact le_rfl
  | some i => exact (stopBefore_lt h).le

/-- One step: to the greatest stop strictly left of the cursor, or nowhere. -/
def backTab (r : Row) : Row where
  columns := r.columns
  tabs := r.tabs
  cursor := ⟨r.backTabColumn, r.backTabColumn_le.trans_lt r.cursor.isLt⟩

theorem backTab_fixed {r : Row} (h : (r.backTab.cursor : ℕ) = r.cursor) : r.backTab = r := by
  have hcursor : (⟨r.backTabColumn, r.backTabColumn_le.trans_lt r.cursor.isLt⟩ : Fin r.columns) =
      r.cursor := Fin.ext h
  rw [backTab, hcursor]

end Row

instance : Handler Row where
  cursorColumn r := r.cursor
  moveBackwardTabs count := Row.backTab^[count]

/-- A handler together with the calls that were delegated to it. -/
structure Recorded (H : Type) where
  handler : H
  calls : ℕ

instance [Handler H] : Handler (Recorded H) where
  cursorColumn r := cursorColumn r.handler
  moveBackwardTabs count r := ⟨moveBackwardTabs count r.handler, r.calls + 1⟩

namespace Counting

section Work

variable {H : Type} [Handler H]

/-- The scanned distances telescope, up to one scan that finds nothing. -/
theorem loopBackward_work
    (hback : ∀ h : H, cursorColumn (Handler.moveBackwardTabs 1 h) ≤ cursorColumn h)
    (count : ℕ) (c : Counting H) :
    (c.loopBackward count).work ≤ c.work + cursorColumn c.inner := by
  induction count generalizing c with
  | zero => exact Nat.le_add_right _ _
  | succ count ih =>
    have hstep : c.stepBackward.work ≤
        c.work + scanned (cursorColumn c.inner) (cursorColumn c.stepBackward.inner) :=
      satAdd_le _ _
    rw [loopBackward]
    by_cases hfixed : cursorColumn c.stepBackward.inner = cursorColumn c.inner
    · rw [if_pos hfixed]
      rw [scanned, if_pos hfixed] at hstep
      exact hstep
    · rw [if_neg hfixed]
      rw [scanned, if_neg hfixed] at hstep
      have hle : cursorColumn c.stepBackward.inner ≤ cursorColumn c.inner := hback c.inner
      have hrest := ih c.stepBackward
      omega

theorem moveBackwardTabs_work
    (hback : ∀ h : H, cursorColumn (Handler.moveBackwardTabs 1 h) ≤ cursorColumn h)
    (count : ℕ) (c : Counting H) :
    (c.moveBackwardTabs count).work ≤ c.work + 1 + cursorColumn c.inner := by
  have hloop := loopBackward_work hback count (c.charge 1)
  have hcharge : (c.charge 1).work ≤ c.work + 1 := satAdd_le _ _
  exact hloop.trans (Nat.add_le_add_right hcharge _)

end Work

variable {c : Counting (Recorded Row)}

/-- A step that does not move the cursor will never move it. -/
theorem loopBackward_row (count : ℕ) (c : Counting (Recorded Row)) :
    (c.loopBackward count).inner.handler = Row.backTab^[count] c.inner.handler := by
  induction count generalizing c with
  | zero => rfl
  | succ count ih =>
    rw [loopBackward, Function.iterate_succ_apply]
    by_cases hfixed : cursorColumn c.stepBackward.inner = cursorColumn c.inner
    · have hrow : Row.backTab c.inner.handler = c.inner.handler := Row.backTab_fixed hfixed
      rw [if_pos hfixed, hrow, Function.iterate_fixed hrow]
      exact hrow
    · rw [if_neg hfixed]
      exact ih c.stepBackward

/-- Every call but the last one moves the cursor to the left. -/
theorem loopBackward_calls (count : ℕ) (c : Counting (Recorded Row)) :
    (c.loopBackward count).inner.calls ≤ c.inner.calls + cursorColumn c.inner + 1 := by
  induction count generalizing c with
  | zero => exact Nat.le_add_right_of_le (Nat.le_add_right _ _)
  | succ count ih =>
    have hcalls : c.stepBackward.inner.calls = c.inner.calls + 1 := rfl
    rw [loopBackward]
    by_cases hfixed : cursorColumn c.stepBackward.inner = cursorColumn c.inner
    · rw [if_pos hfixed, hcalls]
      omega
    · rw [if_neg hfixed]
      have hle : cursorColumn c.stepBackward.inner ≤ cursorColumn c.inner :=
        Row.backTabColumn_le c.inner.handler
      have hrest := ih c.stepBackward
      omega

/-- The early stop changes the cost of a back-tabulation and nothing else. -/
theorem moveBackwardTabs_row (count : ℕ) (c : Counting (Recorded Row)) :
    (c.moveBackwardTabs count).inner.handler =
      Handler.moveBackwardTabs count c.inner.handler ∧
    (c.moveBackwardTabs count).inner.calls ≤
      c.inner.calls + (c.inner.handler.cursor + 1) ∧
    (c.moveBackwardTabs count).work ≤ c.work + c.inner.handler.columns := by
  refine ⟨loopBackward_row count (c.charge 1), loopBackward_calls count (c.charge 1), ?_⟩
  have hwork := moveBackwardTabs_work (fun h => Row.backTabColumn_le h.handler) count c
  have hcursor : cursorColumn c.inner < c.inner.handler.columns := c.inner.handler.cursor.isLt
  omega

end Counting

end Buzz.Terminal
