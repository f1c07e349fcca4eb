import Buzz.Terminal.Weights

namespace Buzz.Terminal
set_option autoImplicit true

def ESC : UInt8 := 0x1b

/-- The parser library: a machine that takes bytes and dispatches callbacks, and a processor around
it that holds the bytes of a synchronized update back. -/
structure Vte (C S P : Type) where
  start : S
  step : S → UInt8 → S × List (Callback C)
  new : P
  state : P → S
  buffered : P → List UInt8
  advance : P → List UInt8 → P × List (Callback C)
  stopSync : P → P × List (Callback C)

/-- Bytes that are parsed as they come. -/
def parseBytes (step : S → UInt8 → S × List (Callback C)) :
    S → List UInt8 → S × List (Callback C)
  | s, [] => (s, [])
  | s, b :: bytes =>
    let (s', callbacks) := step s b
    let (s'', more) := parseBytes step s' bytes
    (s'', callbacks ++ more)

theorem parseBytes_cons (step : S → UInt8 → S × List (Callback C)) (s : S) (b : UInt8)
    (bytes : List UInt8) :
    parseBytes step s (b :: bytes) =
      ((parseBytes step (step s b).1 bytes).1,
        (step s b).2 ++ (parseBytes step (step s b).1 bytes).2) := rfl

theorem parseBytes_append (step : S → UInt8 → S × List (Callback C)) (s : S)
    (front back : List UInt8) :
    parseBytes step s (front ++ back) =
      ((parseBytes step (parseBytes step s front).1 back).1,
        (parseBytes step s front).2 ++ (parseBytes step (parseBytes step s front).1 back).2) := by
  induction front generalizing s with
  | nil => rfl
  | cons b front ih =>
    rw [List.cons_append, parseBytes_cons, parseBytes_cons, ih, List.append_assoc]

namespace Vte

variable {C S P : Type} (vte : Vte C S P)

def parse (s : S) (bytes : List UInt8) : S × List (Callback C) :=
  parseBytes vte.step s bytes

def syncBytesCount (p : P) : ℕ :=
  (vte.buffered p).length

/-- How many bytes, held back or new, one call shows to the parser. -/
def visible (p : P) (bytes : List UInt8) : ℕ :=
  vte.syncBytesCount p + bytes.length - vte.syncBytesCount (vte.advance p bytes).1

/-- The bytes that one call shows to the parser. -/
def seen (p : P) (bytes : List UInt8) : List UInt8 :=
  (vte.buffered p ++ bytes).take (vte.visible p bytes)

/-- What the processor does with its bytes: a call parses the first of those it has, in their
order, and holds the rest back; `stop_sync` parses all that is held back. -/
structure Buffers : Prop where
  new_state : vte.state vte.new = vte.start
  new_buffered : vte.buffered vte.new = []
  advance_buffered : ∀ p bytes,
    vte.seen p bytes ++ vte.buffered (vte.advance p bytes).1 = vte.buffered p ++ bytes
  advance_parse : ∀ p bytes, vte.parse (vte.state p) (vte.seen p bytes) =
    (vte.state (vte.advance p bytes).1, (vte.advance p bytes).2)
  stop_buffered : ∀ p, vte.buffered (vte.stopSync p).1 = []
  stop_parse : ∀ p, vte.parse (vte.state p) (vte.buffered p) =
    (vte.state (vte.stopSync p).1, (vte.stopSync p).2)

end Vte

/-- Where the parser stands: outside any sequence, inside one that began with `ESC`, or inside the
text of an operating system command. -/
inductive Phase where
  | ground
  | sequence
  | text
deriving DecidableEq

/-- The grammar of the parser. Outside a sequence a byte dispatches one light callback at most, but
for a character that was cut short: it is printed with the byte that cuts it, until when the parser
owes it. Only the last byte of a sequence that began with `ESC` dispatches anything heavier. An
operating system command that an `ESC` ends dispatches plain callbacks, as many as there are
colours at most. -/
structure Vte.Grammar (vte : Vte C S P) (phase : S → Phase) (owed : S → ℕ) : Prop where
  start : phase vte.start = .ground
  owed_le : ∀ s, owed s ≤ 1
  owed_sequence : ∀ s b, phase s ≠ .ground → owed (vte.step s b).1 = 0
  ground_light : ∀ s b, phase s = .ground → ∀ c ∈ (vte.step s b).2, c.IsLight
  ground_stays : ∀ s b, phase s = .ground → phase (vte.step s b).1 = .ground →
    (vte.step s b).2.length + owed (vte.step s b).1 ≤ 1 + owed s
  ground_opens : ∀ s b, phase s = .ground → phase (vte.step s b).1 ≠ .ground →
    b = ESC ∧ phase (vte.step s b).1 = .sequence ∧ (vte.step s b).2.length ≤ owed s
  sequence_stays : ∀ s b, phase s = .sequence → phase (vte.step s b).1 = .sequence →
    (∀ c ∈ (vte.step s b).2, c.IsLight) ∧ (vte.step s b).2.length ≤ 1
  sequence_text : ∀ s b, phase s = .sequence → phase (vte.step s b).1 = .text →
    (vte.step s b).2 = []
  text_stays : ∀ s b, phase s = .text → phase (vte.step s b).1 = .text → (vte.step s b).2 = []
  text_escape : ∀ s b, phase s = .text → phase (vte.step s b).1 = .sequence →
    b = ESC ∧ (∀ c ∈ (vte.step s b).2, c.IsPlain) ∧ (vte.step s b).2.length ≤ 256

/-- Owns the parser and enforces both fences on every byte fed to it. -/
structure Feeder (P : Type) where
  parser : P
  fences : Fences
  stats : FenceStats
  sinceReset : ℕ
  pending : List UInt8
  pendingAt : ℕ
  columns : ℕ
  lines : ℕ
  midEscape : Bool
  scrollback : ℕ

namespace Feeder

variable {C S P H : Type} (vte : Vte C S P)

def new (fences : Fences) (columns lines scrollback : ℕ) : Feeder P where
  parser := vte.new
  fences := fences
  stats := FenceStats.default
  sinceReset := 0
  pending := []
  pendingAt := 0
  columns := columns
  lines := lines
  midEscape := false
  scrollback := scrollback

def resize (f : Feeder P) (size : Size) : Feeder P :=
  { f with
    columns := size.columns
    lines := size.screenLines
    scrollback := max f.scrollback size.scrollback }

/-- Bytes accepted but not yet parsed. -/
def pendingBytes (f : Feeder P) : ℕ :=
  f.pending.length - f.pendingAt

def tailFull (f : Feeder P) : Bool :=
  TAIL_CAP ≤ f.pendingBytes

def tailDrained (f : Feeder P) : Bool :=
  f.pendingBytes ≤ TAIL_RESUME

/-- Discard the unparsed tail, and tell its length. -/
def abandonTail (f : Feeder P) : Feeder P × ℕ :=
  ({ f with
      pending := []
      pendingAt := 0
      stats := { f.stats with abandonedBytes := f.stats.abandonedBytes + f.pendingBytes } },
    f.pendingBytes)

/-- Append to the pending tail, without the prefix that is parsed. -/
def enqueue (f : Feeder P) (bytes : List UInt8) : Feeder P :=
  { f with
    pending := f.pending.drop f.pendingAt ++ bytes
    pendingAt := 0 }

def charge (f : Feeder P) (bytes : ℕ) : Feeder P :=
  { f with
    sinceReset := f.sinceReset + bytes
    stats := { f.stats with chargedBytes := f.stats.chargedBytes + bytes } }

def noteRelease (f : Feeder P) (bytes : ℕ) : Feeder P :=
  { f with stats := { f.stats with maxRelease := max f.stats.maxRelease bytes } }

/-- Charge the bytes that the parser could see, as the length of its buffer tells. -/
def chargeSlice (f : Feeder P) (syncBefore syncAfter len : ℕ) : Feeder P :=
  if syncAfter < syncBefore then
    -- An update ended: it gives up all that it held.
    (f.noteRelease (syncBefore + len - syncAfter)).charge (syncBefore + len - syncAfter)
  else if syncBefore < syncAfter then f.charge 0
  else f.charge len

end Feeder

/-- The feeder and the handler it drives, with the work spent so far. -/
structure Turn (P H : Type) where
  feeder : Feeder P
  handler : H
  spent : ℕ

namespace Turn

variable {C S P H : Type} (vte : Vte C S P) [GridHandler C H]

/-- The parser after its callbacks went through a fresh counting wrapper. -/
def drive (t : Turn P H) (parsed : P × List (Callback C)) : Turn P H :=
  let f := t.feeder
  let counting := (Counting.new t.handler f.columns f.lines f.scrollback).dispatchAll parsed.2
  { feeder :=
      { f with
        parser := parsed.1
        stats :=
          { f.stats with
            completedUnits := satAdd f.stats.completedUnits counting.units
            completedWork := satAdd f.stats.completedWork counting.work } }
    handler := counting.inner
    spent := satAdd t.spent counting.work }

/-- F1: a synchronized update may not buffer without bound. -/
def fenceSync (t : Turn P H) : Turn P H :=
  let released := vte.syncBytesCount t.feeder.parser
  if t.feeder.fences.syncAbort = true ∧ SYNC_CAP ≤ released then
    let t := t.drive (vte.stopSync t.feeder.parser)
    let f := { t.feeder with stats := { t.feeder.stats with
      syncAborts := t.feeder.stats.syncAborts + 1 } }
    { t with feeder := (f.noteRelease released).charge released }
  else t

/-- F2: rebuild the parser once the budget is spent. -/
def fenceOsc (t : Turn P H) : Turn P H :=
  let f := t.feeder
  if f.fences.oscBudget = true ∧ OSC_BUDGET ≤ f.sinceReset then
    { t with feeder := { f with
      parser := vte.new
      stats := { f.stats with oscResets := f.stats.oscResets + 1 }
      sinceReset := 0 } }
  else t

end Turn

namespace Feeder

variable {C S P H : Type} (vte : Vte C S P) [GridHandler C H]

/-- Parse one slice, charge it and apply the first fence. -/
def parseSlice (f : Feeder P) (h : H) (bytes : List UInt8) : Turn P H :=
  let syncBefore := vte.syncBytesCount f.parser
  let t := Turn.drive ⟨f, h, 0⟩ (vte.advance f.parser bytes)
  let syncAfter := vte.syncBytesCount t.feeder.parser
  let t := { t with feeder := t.feeder.chargeSlice syncBefore syncAfter bytes.length }
  t.fenceSync vte

/-- Parse one slice, applying both fences to it. What it cost is what the turn has spent. -/
def advanceSlice (f : Feeder P) (h : H) (bytes : List UInt8) : Turn P H :=
  (f.parseSlice vte h bytes).fenceOsc vte

/-- How far the next escape is from the front of the tail, which a slice does not look past. -/
def nextEscape (f : Feeder P) : ℕ :=
  let horizon := min (f.pendingAt + MAX_SLICE) f.pending.length
  let window := (f.pending.take horizon).drop f.pendingAt
  if f.midEscape then 0 else window.findIdx fun b => b == ESC

/-- Where the next slice ends. -/
def sliceEnd (f : Feeder P) (spent : ℕ) : ℕ :=
  let width := sliceBytesRemaining f.columns f.lines f.scrollback spent f.nextEscape
  min (f.pendingAt + width) f.pending.length

def nextSlice (f : Feeder P) (spent : ℕ) : List UInt8 :=
  (f.pending.take (f.sliceEnd spent)).drop f.pendingAt

end Feeder

namespace Turn

variable {C S P H : Type} (vte : Vte C S P) [GridHandler C H]

/-- One round of the loop: cut a slice off the tail and parse it. -/
def round (t : Turn P H) : Turn P H :=
  let f := t.feeder
  let bytes := f.nextSlice t.spent
  let sliced := { f with pendingAt := f.sliceEnd t.spent }.advanceSlice vte t.handler bytes
  { feeder := { sliced.feeder with
      -- A slice that holds an escape and costs nothing left the parser mid-sequence.
      midEscape := (f.midEscape || bytes.contains ESC) && sliced.spent == 0 }
    handler := sliced.handler
    spent := satAdd t.spent sliced.spent }

/-- The loop of a drain. Each round takes a byte at least off the tail, so that the length of the
tail is fuel enough. -/
def rounds : ℕ → Turn P H → Turn P H
  | 0, t => t
  | fuel + 1, t =>
    if t.feeder.pending.length ≤ t.feeder.pendingAt then t
    else if WORK_BUDGET ≤ (t.round vte).spent then t.round vte
    else rounds fuel (t.round vte)

/-- The turns that the rounds of a drain start from. -/
def visited : ℕ → Turn P H → List (Turn P H)
  | 0, _ => []
  | fuel + 1, t =>
    if t.feeder.pending.length ≤ t.feeder.pendingAt then []
    else if WORK_BUDGET ≤ (t.round vte).spent then [t]
    else t :: visited fuel (t.round vte)

end Turn

namespace Feeder

variable {C S P H : Type} (vte : Vte C S P) [GridHandler C H]

/-- The end of a drain: forget a tail that is parsed, and note how deep it is. -/
def settle (f : Feeder P) : Feeder P :=
  let f := if f.pendingAt = f.pending.length then { f with pending := [], pendingAt := 0 } else f
  { f with stats := { f.stats with
      maxPending := max f.stats.maxPending f.pendingBytes
      tailBreaches :=
        if TAIL_CAP ≤ f.pendingBytes then f.stats.tailBreaches + 1 else f.stats.tailBreaches } }

/-- Parse from the pending tail until the work budget is spent. -/
def drain (f : Feeder P) (h : H) : Turn P H :=
  let t := Turn.rounds vte f.pendingBytes ⟨f, h, 0⟩
  { t with feeder := t.feeder.settle }

/-- Accept output and parse what fits in one work budget. Tells whether bytes remain. -/
def feed (f : Feeder P) (h : H) (bytes : List UInt8) : Turn P H × Bool :=
  let t := (f.enqueue bytes).drain vte h
  (t, 0 < t.feeder.pendingBytes)

end Feeder

/-- A terminal: its feeder and its handler. -/
structure Session (P H : Type) where
  feeder : Feeder P
  handler : H

inductive Op where
  | feed (bytes : List UInt8)
  | drain
  | resize (size : Size)
  | abandonTail

namespace Session

variable {C S P H : Type} (vte : Vte C S P) [GridHandler C H]

def new (fences : Fences) (size : Size) (h : H) : Session P H where
  feeder := Feeder.new vte fences size.columns size.screenLines size.scrollback
  handler := h

def apply (s : Session P H) : Op → Session P H
  | .feed bytes =>
    let t := (s.feeder.feed vte s.handler bytes).1
    ⟨t.feeder, t.handler⟩
  | .drain =>
    let t := s.feeder.drain vte s.handler
    ⟨t.feeder, t.handler⟩
  | .resize size => ⟨s.feeder.resize size, GridHandler.resize size s.handler⟩
  | .abandonTail => ⟨s.feeder.abandonTail.1, s.handler⟩

def Step (s : Session P H) (op : Op) (s' : Session P H) : Prop :=
  s' = s.apply vte op

end Session

section Frame

variable {C S P H : Type} {vte : Vte C S P} [GridHandler C H]

/-- What a slice leaves alone: the tail, the fences and the grid. -/
structure Feeder.Framed (f f' : Feeder P) : Prop where
  fences : f'.fences = f.fences
  pending : f'.pending = f.pending
  pendingAt : f'.pendingAt = f.pendingAt
  columns : f'.columns = f.columns
  lines : f'.lines = f.lines
  scrollback : f'.scrollback = f.scrollback

theorem Feeder.Framed.trans {f g k : Feeder P} (h : f.Framed g) (h' : g.Framed k) :
    f.Framed k where
  fences := h'.fences.trans h.fences
  pending := h'.pending.trans h.pending
  pendingAt := h'.pendingAt.trans h.pendingAt
  columns := h'.columns.trans h.columns
  lines := h'.lines.trans h.lines
  scrollback := h'.scrollback.trans h.scrollback

theorem Feeder.chargeSlice_framed (f : Feeder P) (syncBefore syncAfter len : ℕ) :
    f.Framed (f.chargeSlice syncBefore syncAfter len) := by
  rw [chargeSlice]
  split
  · exact ⟨rfl, rfl, rfl, rfl, rfl, rfl⟩
  · split
    · exact ⟨rfl, rfl, rfl, rfl, rfl, rfl⟩
    · exact ⟨rfl, rfl, rfl, rfl, rfl, rfl⟩

theorem Feeder.chargeSlice_parser (f : Feeder P) (syncBefore syncAfter len : ℕ) :
    (f.chargeSlice syncBefore syncAfter len).parser = f.parser := by
  rw [chargeSlice]
  split
  · rfl
  · split
    · rfl
    · rfl

namespace Turn

/-- A step of a turn that leaves the frame and the width of the handler alone. -/
structure Framed (t t' : Turn P H) : Prop where
  feeder : t.feeder.Framed t'.feeder
  width : GridHandler.columns t'.handler = GridHandler.columns t.handler

theorem Framed.refl (t : Turn P H) : t.Framed t :=
  ⟨⟨rfl, rfl, rfl, rfl, rfl, rfl⟩, rfl⟩

theorem Framed.trans {t u v : Turn P H} (h : t.Framed u) (h' : u.Framed v) : t.Framed v :=
  ⟨h.feeder.trans h'.feeder, h'.width.trans h.width⟩

theorem drive_framed (t : Turn P H) (parsed : P × List (Callback C)) :
    t.Framed (t.drive parsed) where
  feeder := ⟨rfl, rfl, rfl, rfl, rfl, rfl⟩
  width := (Counting.dispatchAll_sameGrid (Counting.new t.handler _ _ _) parsed.2).width

theorem fenceSync_framed (vte : Vte C S P) (t : Turn P H) : t.Framed (t.fenceSync vte) := by
  rw [fenceSync]
  split
  · have h := t.drive_framed (vte.stopSync t.feeder.parser)
    exact ⟨⟨h.feeder.fences, h.feeder.pending, h.feeder.pendingAt, h.feeder.columns,
      h.feeder.lines, h.feeder.scrollback⟩, h.width⟩
  · exact Framed.refl t

theorem fenceOsc_framed (t : Turn P H) : t.Framed (t.fenceOsc vte) := by
  rw [fenceOsc]
  split
  · exact ⟨⟨rfl, rfl, rfl, rfl, rfl, rfl⟩, rfl⟩
  · exact Framed.refl t

theorem advanceSlice_framed (vte : Vte C S P) (f : Feeder P) (h : H) (bytes : List UInt8)
    (spent : ℕ) : Framed ⟨f, h, spent⟩ (f.advanceSlice vte h bytes) := by
  have hdrive := drive_framed ⟨f, h, 0⟩ (vte.advance f.parser bytes)
  have hcharge := Feeder.chargeSlice_framed
    (drive ⟨f, h, 0⟩ (vte.advance f.parser bytes)).feeder (vte.syncBytesCount f.parser)
    (vte.syncBytesCount (vte.advance f.parser bytes).1) bytes.length
  have hcharged : Framed ⟨f, h, spent⟩
      { drive ⟨f, h, 0⟩ (vte.advance f.parser bytes) with
        feeder := (drive ⟨f, h, 0⟩ (vte.advance f.parser bytes)).feeder.chargeSlice
          (vte.syncBytesCount f.parser) (vte.syncBytesCount (vte.advance f.parser bytes).1)
          bytes.length } :=
    ⟨hdrive.feeder.trans hcharge, hdrive.width⟩
  exact (hcharged.trans (fenceSync_framed vte _)).trans (fenceOsc_framed _)

/-- What a round does to the tail and the grid. -/
theorem round_frame (vte : Vte C S P) (t : Turn P H) :
    (t.round vte).feeder.pending = t.feeder.pending ∧
      (t.round vte).feeder.pendingAt = t.feeder.sliceEnd t.spent ∧
      (t.round vte).feeder.fences = t.feeder.fences ∧
      (t.round vte).feeder.columns = t.feeder.columns ∧
      (t.round vte).feeder.lines = t.feeder.lines ∧
      (t.round vte).feeder.scrollback = t.feeder.scrollback ∧
      GridHandler.columns (t.round vte).handler = GridHandler.columns t.handler := by
  have h := advanceSlice_framed vte
    { t.feeder with pendingAt := t.feeder.sliceEnd t.spent } t.handler
    (t.feeder.nextSlice t.spent) 0
  exact ⟨h.feeder.pending, h.feeder.pendingAt, h.feeder.fences, h.feeder.columns, h.feeder.lines,
    h.feeder.scrollback, h.width⟩

theorem rounds_columns (vte : Vte C S P) (fuel : ℕ) (t : Turn P H) :
    (rounds vte fuel t).feeder.columns = t.feeder.columns ∧
      GridHandler.columns (rounds vte fuel t).handler = GridHandler.columns t.handler := by
  induction fuel generalizing t with
  | zero => exact ⟨rfl, rfl⟩
  | succ fuel ih =>
    obtain ⟨-, -, -, hcolumns, -, -, hwidth⟩ := t.round_frame vte
    rw [rounds]
    split
    · exact ⟨rfl, rfl⟩
    · split
      · exact ⟨hcolumns, hwidth⟩
      · have hrest := ih (t.round vte)
        rw [hcolumns, hwidth] at hrest
        exact hrest

end Turn

theorem Feeder.settle_columns (f : Feeder P) : f.settle.columns = f.columns := by
  rw [settle]
  dsimp only
  split
  · rfl
  · rfl

/-- The feeder of a session knows how wide the grid of its handler is. -/
theorem Session.apply_columns (vte : Vte C S P) (s : Session P H) (op : Op)
    (h : GridHandler.columns s.handler = s.feeder.columns) :
    GridHandler.columns (s.apply vte op).handler = (s.apply vte op).feeder.columns := by
  have hdrain : ∀ f : Feeder P, f.columns = s.feeder.columns →
      GridHandler.columns (f.drain vte s.handler).handler =
        (f.drain vte s.handler).feeder.columns := by
    intro f hf
    obtain ⟨hcolumns, hwidth⟩ := Turn.rounds_columns vte f.pendingBytes ⟨f, s.handler, 0⟩
    rw [Feeder.drain]
    dsimp only
    rw [Feeder.settle_columns, hcolumns, hwidth, h, hf]
  cases op with
  | feed bytes => exact hdrain (s.feeder.enqueue bytes) rfl
  | drain => exact hdrain s.feeder rfl
  | resize size => exact GridHandler.columns_resize size s.handler
  | abandonTail => exact h

end Frame

section Slice

variable {P : Type} (f : Feeder P) (spent : ℕ)

theorem Feeder.sliceEnd_le : f.sliceEnd spent ≤ f.pending.length := min_le_right _ _

theorem Feeder.lt_sliceEnd (h : f.pendingAt < f.pending.length) :
    f.pendingAt < f.sliceEnd spent := by
  rw [sliceEnd]
  apply lt_min
  · have hwidth : 1 ≤ sliceBytesRemaining f.columns f.lines f.scrollback spent f.nextEscape :=
      sliceBytesRemaining_pos
    omega
  · exact h

theorem Feeder.length_nextSlice :
    (f.nextSlice spent).length = f.sliceEnd spent - f.pendingAt := by
  rw [nextSlice, List.length_drop, List.length_take, min_eq_left (f.sliceEnd_le spent)]

/-- A slice is no wider than the slice rule says. -/
theorem Feeder.length_nextSlice_le : (f.nextSlice spent).length ≤
    sliceBytesRemaining f.columns f.lines f.scrollback spent f.nextEscape := by
  have hend : f.sliceEnd spent ≤
      f.pendingAt + sliceBytesRemaining f.columns f.lines f.scrollback spent f.nextEscape :=
    min_le_left _ _
  rw [f.length_nextSlice spent]
  omega

/-- A plain slice holds no escape. -/
theorem Feeder.esc_not_mem_nextSlice (h : 0 < f.nextEscape) : ESC ∉ f.nextSlice spent := by
  intro hmem
  obtain ⟨i, hi, hesc⟩ := List.getElem_of_mem hmem
  have hlen : i < f.nextEscape :=
    lt_of_lt_of_le hi ((f.length_nextSlice_le spent).trans (sliceBytesRemaining_le_escape h))
  rw [nextEscape] at h hlen
  by_cases hmid : f.midEscape = true
  · rw [if_pos hmid] at h
    exact lt_irrefl 0 h
  · rw [if_neg hmid] at hlen
    have hnot := List.not_of_lt_findIdx hlen
    have hin := lt_of_lt_of_le hlen List.findIdx_le_length
    have hwindow : ((f.pending.take (min (f.pendingAt + MAX_SLICE) f.pending.length)).drop
        f.pendingAt)[i] = (f.nextSlice spent)[i] := by
      simp only [nextSlice, List.getElem_drop, List.getElem_take]
    rw [hwindow, hesc, beq_self_eq_true] at hnot
    cases hnot

end Slice

end Buzz.Terminal
