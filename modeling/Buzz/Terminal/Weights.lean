import Buzz.Terminal.Units
import Buzz.Terminal.Fences

namespace Buzz.Terminal
set_option autoImplicit true

inductive LineClearMode where
  | right
  | left
  | all
deriving DecidableEq

inductive ClearMode where
  | below
  | above
  | all
  | saved
deriving DecidableEq

/-- The callbacks of a handler. `plain` stands for those of the plain table, which are charged one
unit each; `C` is the type of these calls. -/
inductive Callback (C : Type) where
  | plain (call : C)
  | moveBackwardTabs (count : ℕ)
  | eraseChars (count : ℕ)
  | deleteChars (count : ℕ)
  | insertBlank (count : ℕ)
  | putTab (count : ℕ)
  | moveForwardTabs (count : ℕ)
  | scrollUp (n : ℕ)
  | deleteLines (n : ℕ)
  | scrollDown (n : ℕ)
  | insertBlankLines (n : ℕ)
  | clearLine (mode : LineClearMode)
  | clearScreen (mode : ClearMode)
  | decaln
  | resetState

/-- Terminal dimensions in cells, plus how much scrollback to retain. -/
structure Size where
  columns : ℕ
  screenLines : ℕ
  scrollback : ℕ

/-- A handler of the callbacks on a grid of some width, which the cursor does not leave. -/
class GridHandler (C : outParam Type) (H : Type) extends Handler H where
  columns : H → ℕ
  forward : Callback C → H → H
  resize : Size → H → H
  cursor_lt : ∀ h, cursorColumn h < max (columns h) 1
  columns_resize : ∀ size h, columns (resize size h) = size.columns
  columns_forward : ∀ callback h, columns (forward callback h) = columns h
  columns_backTab : ∀ count h, columns (moveBackwardTabs count h) = columns h
  backTab_le : ∀ h, cursorColumn (moveBackwardTabs 1 h) ≤ cursorColumn h

namespace Counting

variable {C H : Type}

/-- The price of a callback: an upper bound on the cells that it can touch. The callback that is
written out by hand has none. -/
def weight (c : Counting H) : Callback C → ℕ
  | .plain _ => 1
  | .moveBackwardTabs _ => 0
  | .eraseChars count => clamp count c.columns
  | .deleteChars _ => c.columns
  | .insertBlank _ => c.columns
  | .putTab _ => c.columns
  | .moveForwardTabs _ => c.columns
  | .scrollUp n => satMul (clamp n c.lines) c.columns
  | .deleteLines n => satMul (clamp n c.lines) c.columns
  | .scrollDown n => satMul (clamp n c.lines) c.columns
  | .insertBlankLines n => satMul (clamp n c.lines) c.columns
  | .clearLine _ => c.columns
  | .clearScreen _ => c.cells
  | .decaln => c.cells
  | .resetState => satAdd (satMul c.cells 2) (satMul c.scrollback c.columns)

variable [GridHandler C H]

def dispatch (c : Counting H) (callback : Callback C) : Counting H :=
  match callback with
  | .moveBackwardTabs count => c.moveBackwardTabs count
  | callback =>
    { c.charge (c.weight callback) with inner := GridHandler.forward callback c.inner }

/-- The callbacks of a slice, one after the other. -/
def dispatchAll (c : Counting H) (callbacks : List (Callback C)) : Counting H :=
  callbacks.foldl dispatch c

end Counting

/-- What a callback costs at most on a grid. A back-tabulation pays for one pass over the row. -/
def price (columns lines scrollback : ℕ) : Callback C → ℕ
  | .moveBackwardTabs _ => max columns 1
  | callback => (Counting.new () columns lines scrollback).weight callback

def totalPrice (columns lines scrollback : ℕ) (callbacks : List (Callback C)) : ℕ :=
  (callbacks.map (price columns lines scrollback)).sum

/-- The callbacks that weigh no more than a row and need no escape sequence. -/
def Callback.IsLight : Callback C → Prop
  | .plain _ => True
  | .putTab _ => True
  | _ => False

def Callback.IsPlain : Callback C → Prop
  | .plain _ => True
  | _ => False

section Price

variable {C H : Type} [GridHandler C H]

/-- The wrapper keeps its grid, and the handler its width. -/
structure SameGrid (c d : Counting H) : Prop where
  columns : d.columns = c.columns
  lines : d.lines = c.lines
  scrollback : d.scrollback = c.scrollback
  width : GridHandler.columns d.inner = GridHandler.columns c.inner

theorem SameGrid.trans {c d e : Counting H} (h : SameGrid c d) (h' : SameGrid d e) :
    SameGrid c e where
  columns := h'.columns.trans h.columns
  lines := h'.lines.trans h.lines
  scrollback := h'.scrollback.trans h.scrollback
  width := h'.width.trans h.width

namespace Counting

theorem stepBackward_sameGrid (c : Counting H) : SameGrid c c.stepBackward where
  columns := rfl
  lines := rfl
  scrollback := rfl
  width := GridHandler.columns_backTab 1 c.inner

theorem loopBackward_sameGrid (count : ℕ) (c : Counting H) :
    SameGrid c (c.loopBackward count) := by
  induction count generalizing c with
  | zero => exact ⟨rfl, rfl, rfl, rfl⟩
  | succ count ih =>
    rw [loopBackward]
    by_cases hfixed : CursorColumn.cursorColumn c.stepBackward.inner =
        CursorColumn.cursorColumn c.inner
    · rw [if_pos hfixed]
      exact c.stepBackward_sameGrid
    · rw [if_neg hfixed]
      exact c.stepBackward_sameGrid.trans (ih c.stepBackward)

theorem dispatch_sameGrid (c : Counting H) (callback : Callback C) :
    SameGrid c (c.dispatch callback) := by
  cases callback with
  | moveBackwardTabs count =>
    have h := loopBackward_sameGrid count (c.charge 1)
    exact ⟨h.columns, h.lines, h.scrollback, h.width⟩
  | _ => exact ⟨rfl, rfl, rfl, GridHandler.columns_forward _ _⟩

/-- A callback costs no more than its price. -/
theorem dispatch_work (c : Counting H) (hwidth : GridHandler.columns c.inner = c.columns)
    (callback : Callback C) :
    (c.dispatch callback).work ≤ c.work + price c.columns c.lines c.scrollback callback := by
  cases callback with
  | moveBackwardTabs count =>
    have hwork := moveBackwardTabs_work GridHandler.backTab_le count c
    have hcursor := GridHandler.cursor_lt c.inner
    rw [hwidth] at hcursor
    have hprice : price c.columns c.lines c.scrollback (.moveBackwardTabs count : Callback C) =
        max c.columns 1 := rfl
    rw [hprice, dispatch]
    omega
  | _ => exact satAdd_le _ _

theorem dispatchAll_work (c : Counting H) (hwidth : GridHandler.columns c.inner = c.columns)
    (callbacks : List (Callback C)) :
    (c.dispatchAll callbacks).work ≤
      c.work + totalPrice c.columns c.lines c.scrollback callbacks := by
  induction callbacks generalizing c with
  | nil => exact Nat.le_add_right _ _
  | cons callback callbacks ih =>
    have hgrid := c.dispatch_sameGrid callback
    have hfirst := c.dispatch_work hwidth callback
    have hrest := ih (c.dispatch callback) (by rw [hgrid.width, hwidth, hgrid.columns])
    rw [hgrid.columns, hgrid.lines, hgrid.scrollback] at hrest
    rw [totalPrice, List.map_cons, List.sum_cons, ← totalPrice]
    have hcons : c.dispatchAll (callback :: callbacks) =
        (c.dispatch callback).dispatchAll callbacks := rfl
    rw [hcons]
    omega

theorem dispatchAll_sameGrid (c : Counting H) (callbacks : List (Callback C)) :
    SameGrid c (c.dispatchAll callbacks) := by
  induction callbacks generalizing c with
  | nil => exact ⟨rfl, rfl, rfl, rfl⟩
  | cons callback callbacks ih => exact (c.dispatch_sameGrid callback).trans (ih _)

end Counting

theorem totalPrice_append (columns lines scrollback : ℕ) (front back : List (Callback C)) :
    totalPrice columns lines scrollback (front ++ back) =
      totalPrice columns lines scrollback front + totalPrice columns lines scrollback back := by
  rw [totalPrice, List.map_append, List.sum_append]
  rfl

theorem price_light {callback : Callback C} (h : callback.IsLight) (columns lines scrollback : ℕ) :
    price columns lines scrollback callback ≤ max columns 1 := by
  cases callback with
  | plain call => exact le_max_right _ _
  | putTab count => exact le_max_left _ _
  | _ => exact h.elim

theorem price_plain {callback : Callback C} (h : callback.IsPlain) (columns lines scrollback : ℕ) :
    price columns lines scrollback callback = 1 := by
  cases callback with
  | plain call => rfl
  | _ => exact h.elim

theorem totalPrice_light {callbacks : List (Callback C)} (h : ∀ c ∈ callbacks, c.IsLight)
    (columns lines scrollback : ℕ) :
    totalPrice columns lines scrollback callbacks ≤ callbacks.length * max columns 1 := by
  rw [totalPrice]
  have hsum := List.sum_le_card_nsmul (callbacks.map (price columns lines scrollback))
    (max columns 1)
  rw [List.length_map, smul_eq_mul] at hsum
  apply hsum
  rw [List.forall_mem_map]
  exact fun c hc => price_light (h c hc) columns lines scrollback

theorem totalPrice_plain {callbacks : List (Callback C)} (h : ∀ c ∈ callbacks, c.IsPlain)
    (columns lines scrollback : ℕ) :
    totalPrice columns lines scrollback callbacks = callbacks.length := by
  rw [totalPrice, List.map_congr_left fun c hc => price_plain (h c hc) columns lines scrollback,
    List.map_const', List.sum_replicate, smul_eq_mul, mul_one]

end Price

end Buzz.Terminal
