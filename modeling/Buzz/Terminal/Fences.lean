import Buzz.Lib.Saturating

namespace Buzz.Terminal
set_option autoImplicit true

/-- Max bytes a synchronized update may buffer before it is aborted. -/
def SYNC_CAP : ℕ := 65536

/-- Max parser-visible bytes chargeable before the parser is rebuilt. -/
def OSC_BUDGET : ℕ := 262144

/-- Max work one drain may spend before returning, in cell-equivalents. -/
def WORK_BUDGET : ℕ := 250000

def MAX_SLICE : ℕ := 256

def TAIL_CAP : ℕ := 4194304

def TAIL_RESUME : ℕ := 1048576

/-- `x.clamp(low, high)`, for `low ≤ high`. -/
def clampTo (low high x : ℕ) : ℕ := max low (min x high)

/-- Work the single worst uninterruptible callback can cost on this grid. -/
def maxAtomWork (columns lines scrollback : ℕ) : ℕ :=
  max (satAdd (satMul (satMul columns lines) 2) (satMul scrollback columns)) columns

/-- Bytes to hand the parser next. -/
def sliceBytesRemaining (columns lines scrollback spent nextEscape : ℕ) : ℕ :=
  let remaining := WORK_BUDGET - spent
  if 0 < nextEscape then
    clampTo 1 (min nextEscape MAX_SLICE) (remaining / max columns 1)
  else
    clampTo 1 MAX_SLICE (remaining / max (maxAtomWork columns lines scrollback / 2) 1)

/-- Upper bound on the work a single drain can do. -/
def maxDrainWork (columns lines scrollback : ℕ) : ℕ :=
  satAdd WORK_BUDGET (maxAtomWork columns lines scrollback)

/-- Which fences are active. -/
structure Fences where
  syncAbort : Bool
  oscBudget : Bool

def Fences.ALL : Fences := ⟨true, true⟩

structure FenceStats where
  syncAborts : ℕ
  maxRelease : ℕ
  oscResets : ℕ
  chargedBytes : ℕ
  completedUnits : ℕ
  completedWork : ℕ
  maxPending : ℕ
  tailBreaches : ℕ
  abandonedBytes : ℕ

def FenceStats.default : FenceStats := ⟨0, 0, 0, 0, 0, 0, 0, 0, 0⟩

section Slice

variable {columns lines scrollback spent nextEscape : ℕ}

theorem le_clampTo (low high x : ℕ) : low ≤ clampTo low high x := le_max_left _ _

theorem clampTo_le (h : low ≤ high) (x : ℕ) : clampTo low high x ≤ high :=
  max_le h (min_le_right _ _)

/-- What is clamped from below is the lower end or lies below the value. -/
theorem clampTo_cases (low high x : ℕ) : clampTo low high x = low ∨ clampTo low high x ≤ x := by
  cases le_total (min x high) low with
  | inl h => exact .inl (max_eq_left h)
  | inr h =>
    rw [clampTo, max_eq_right h]
    exact .inr (min_le_left _ _)

theorem sliceBytesRemaining_pos :
    1 ≤ sliceBytesRemaining columns lines scrollback spent nextEscape := by
  rw [sliceBytesRemaining]
  split
  · exact le_clampTo _ _ _
  · exact le_clampTo _ _ _

theorem sliceBytesRemaining_le :
    sliceBytesRemaining columns lines scrollback spent nextEscape ≤ MAX_SLICE := by
  have hone : 1 ≤ MAX_SLICE := by decide
  rw [sliceBytesRemaining]
  split
  · rename_i h
    exact (clampTo_le (le_min h hone) _).trans (min_le_right _ _)
  · exact clampTo_le hone _

theorem sliceBytesRemaining_le_escape (h : 0 < nextEscape) :
    sliceBytesRemaining columns lines scrollback spent nextEscape ≤ nextEscape := by
  have hone : 1 ≤ MAX_SLICE := by decide
  rw [sliceBytesRemaining]
  rw [if_pos h]
  exact (clampTo_le (le_min h hone) _).trans (min_le_left _ _)

/-- A plain slice is one byte, or is paid for by what is left of the budget. -/
theorem sliceBytesRemaining_plain (h : 0 < nextEscape) :
    sliceBytesRemaining columns lines scrollback spent nextEscape = 1 ∨
      sliceBytesRemaining columns lines scrollback spent nextEscape * max columns 1 ≤
        WORK_BUDGET - spent := by
  rw [sliceBytesRemaining]
  rw [if_pos h]
  apply (clampTo_cases _ _ _).imp_right
  intro hle
  exact (Nat.mul_le_mul_right _ hle).trans (Nat.div_mul_le_self _ _)

/-- So is a slice that may hold escapes, at half of the worst atom for each byte. -/
theorem sliceBytesRemaining_escape :
    sliceBytesRemaining columns lines scrollback spent 0 = 1 ∨
      sliceBytesRemaining columns lines scrollback spent 0 *
        max (maxAtomWork columns lines scrollback / 2) 1 ≤ WORK_BUDGET - spent := by
  rw [sliceBytesRemaining]
  rw [if_neg (lt_irrefl 0)]
  apply (clampTo_cases _ _ _).imp_right
  intro hle
  exact (Nat.mul_le_mul_right _ hle).trans (Nat.div_mul_le_self _ _)

end Slice

theorem columns_le_maxAtomWork (columns lines scrollback : ℕ) :
    columns ≤ maxAtomWork columns lines scrollback := le_max_right _ _

end Buzz.Terminal
