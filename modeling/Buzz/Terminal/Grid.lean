import Buzz.Terminal.Frames

namespace Buzz.Terminal
set_option autoImplicit true

structure WireCluster where
  column : ℕ
  text : List Char
  width : ℕ

structure WireSpan where
  style : Style
  clusters : List WireCluster

structure WireRow where
  line : ℕ
  wrapped : Bool
  spans : List WireSpan

/-- A frame as the renderer receives it. -/
structure TerminalFrame where
  viewport : Viewport
  rows : List WireRow
  cursor : CursorFrame
  full : Bool

def wireClusters (s : Span) : List WireCluster :=
  if s.clusterCount = 1 then [⟨s.column, s.text, s.width⟩]
  else s.text.mapIdx fun i c => ⟨s.column + i * s.width, [c], s.width⟩

/-- An inconsistent cluster count is an error. -/
def wireSpan (s : Span) : Option WireSpan :=
  if s.CountsAreConsistent then some ⟨s.style, wireClusters s⟩ else none

def wireRow (row : RowFrame) : Option WireRow :=
  (row.spans.mapM wireSpan).map fun spans => ⟨row.line, row.wrapped, spans⟩

/-- The frame of a publication on the wire. -/
def wireFrame (frame : Frame) : Option TerminalFrame :=
  (frame.rows.mapM wireRow).map fun rows => ⟨frame.viewport, rows, frame.cursor, frame.full⟩

structure RetainedRow where
  wrapped : Bool
  spans : List WireSpan

/-- The renderer's retained grid. -/
structure TerminalGrid where
  viewport : Viewport
  rows : List RetainedRow
  dirty : Finset ℕ
  cursor : CursorFrame
  cursorPainted : Bool

namespace TerminalGrid

def blankRows (viewport : Viewport) : List RetainedRow :=
  List.replicate viewport.screenLines ⟨false, []⟩

def markAllDirty (g : TerminalGrid) : TerminalGrid :=
  { g with dirty := g.dirty ∪ Finset.range g.viewport.screenLines }

def new (viewport : Viewport) : TerminalGrid :=
  markAllDirty
    { viewport, rows := blankRows viewport, dirty := ∅, cursor := ⟨0, 0, false⟩,
      cursorPainted := true }

def resize (g : TerminalGrid) (viewport : Viewport) : TerminalGrid :=
  markAllDirty { g with viewport, rows := blankRows viewport, cursor := ⟨0, 0, false⟩ }

def applyRow (g : TerminalGrid) (row : WireRow) : TerminalGrid :=
  if row.line < g.rows.length then
    { g with rows := g.rows.set row.line ⟨row.wrapped, row.spans⟩, dirty := insert row.line g.dirty }
  else g

/-- A frame of another viewport is refused. -/
def apply (g : TerminalGrid) (frame : TerminalFrame) : TerminalGrid × Bool :=
  if frame.viewport = g.viewport then
    let g := if frame.full then g.markAllDirty else g
    let g := { g with
      cursor := frame.cursor
      dirty := insert frame.cursor.line (insert g.cursor.line g.dirty) }
    (frame.rows.foldl applyRow g, true)
  else (g, false)

def setCursorPainted (g : TerminalGrid) (painted : Bool) : TerminalGrid :=
  if g.cursorPainted = painted then g
  else { g with cursorPainted := painted, dirty := insert g.cursor.line g.dirty }

/-- The grid that a frame is applied to: one is made, or resized, for its viewport. -/
def target (grid : Option TerminalGrid) (viewport : Viewport) : TerminalGrid :=
  match grid with
  | none => new viewport
  | some g => if g.viewport = viewport then g else g.resize viewport

/-- A delivered frame. -/
def receive (grid : Option TerminalGrid) (frame : TerminalFrame) : TerminalGrid :=
  ((target grid frame.viewport).apply frame).1

/-- A grid has a row for each line of its viewport. -/
def Sized (g : TerminalGrid) : Prop :=
  g.rows.length = g.viewport.screenLines

theorem target_viewport (grid : Option TerminalGrid) (viewport : Viewport) :
    (target grid viewport).viewport = viewport := by
  unfold target
  split
  · rfl
  · split
    · assumption
    · rfl

theorem target_sized {grid : Option TerminalGrid} (h : ∀ g, grid = some g → g.Sized)
    (viewport : Viewport) : (target grid viewport).Sized := by
  unfold target
  split
  · exact List.length_replicate
  · rename_i g
    split
    · exact h g rfl
    · exact List.length_replicate

theorem target_of_viewport {g : TerminalGrid} {v : Viewport} (h : g.viewport = v) :
    target (some g) v = g :=
  if_pos h

theorem applyRows_viewport (rows : List WireRow) (g : TerminalGrid) :
    (rows.foldl applyRow g).viewport = g.viewport ∧ (rows.foldl applyRow g).cursor = g.cursor ∧
      (rows.foldl applyRow g).cursorPainted = g.cursorPainted ∧
      (rows.foldl applyRow g).rows.length = g.rows.length := by
  induction rows generalizing g with
  | nil => exact ⟨rfl, rfl, rfl, rfl⟩
  | cons row rows ih =>
    obtain ⟨hviewport, hcursor, hpainted, hlength⟩ := ih (g.applyRow row)
    rw [List.foldl_cons, hviewport, hcursor, hpainted, hlength]
    unfold applyRow
    split
    · exact ⟨rfl, rfl, rfl, List.length_set⟩
    · exact ⟨rfl, rfl, rfl, rfl⟩

/-- A line that is named shows what it was named with; the others are left alone. -/
theorem applyRows_rows (rows : List WireRow) (g : TerminalGrid) (line : ℕ) (shown : RetainedRow)
    (hsame : ∀ row ∈ rows, row.line = line → (⟨row.wrapped, row.spans⟩ : RetainedRow) = shown)
    (hline : line < g.rows.length) :
    (rows.foldl applyRow g).rows[line]? =
      if ∃ row ∈ rows, row.line = line then some shown else g.rows[line]? := by
  induction rows generalizing g with
  | nil => simp
  | cons row rows ih =>
    have hlen : line < (g.applyRow row).rows.length := by
      have := (applyRows_viewport [row] g).2.2.2
      rw [List.foldl_cons, List.foldl_nil] at this
      omega
    rw [List.foldl_cons, ih (g.applyRow row) (fun r hr => hsame r (List.mem_cons_of_mem _ hr)) hlen]
    by_cases hlater : ∃ r ∈ rows, r.line = line
    · have hall : ∃ r ∈ row :: rows, r.line = line := by
        obtain ⟨r, hr, he⟩ := hlater
        exact ⟨r, List.mem_cons_of_mem _ hr, he⟩
      rw [if_pos hlater, if_pos hall]
    · rw [if_neg hlater]
      by_cases hrow : row.line = line
      · rw [if_pos ⟨row, List.mem_cons_self, hrow⟩, applyRow, if_pos (hrow ▸ hline), hrow,
          List.getElem?_set_self hline, hsame row List.mem_cons_self hrow]
      · have hnone : ¬ ∃ r ∈ row :: rows, r.line = line := by
          rintro ⟨r, hr, he⟩
          rcases List.mem_cons.mp hr with rfl | hr
          · exact hrow he
          · exact hlater ⟨r, hr, he⟩
        rw [if_neg hnone, applyRow]
        split
        · exact List.getElem?_set_ne hrow
        · rfl

end TerminalGrid

/-- A row as the renderer keeps it. -/
def retained (cells : List Cell) : RetainedRow where
  wrapped := wrappedOf cells
  spans := (spansOf cells).map fun s => ⟨s.style, wireClusters s⟩

theorem mapM_eq_map {f : α → Option β} {g : α → β} {as : List α} (h : ∀ a ∈ as, f a = some (g a)) :
    as.mapM f = some (as.map g) := by
  induction as with
  | nil => rfl
  | cons a as ih =>
    rw [List.mapM_cons, h a List.mem_cons_self, ih fun b hb => h b (List.mem_cons_of_mem _ hb)]
    rfl

theorem wireRow_rowFrame (line : ℕ) (cells : List Cell) :
    wireRow (rowFrame line cells) = some ⟨line, (retained cells).wrapped, (retained cells).spans⟩ := by
  have hspans : (spansOf cells).mapM wireSpan =
      some ((spansOf cells).map fun s => ⟨s.style, wireClusters s⟩) := by
    apply mapM_eq_map
    intro s hs
    rw [spansOf_eq] at hs
    rw [wireSpan, if_pos ((runs_consistent cells).1 s hs)]
  rw [wireRow, rowFrame, hspans]
  rfl

/-- Rows that look the same are kept the same. -/
theorem retained_look {as bs : List Cell} (h : as.map Cell.look = bs.map Cell.look) :
    retained as = retained bs := by
  rw [retained, retained, wrappedOf_look h, spansOf_look h]

/-- The frame carries a line. -/
def Frame.Carries (frame : Frame) (line : ℕ) : Prop :=
  ∃ row ∈ frame.rows, row.line = line

/-- The frame's rows are rows of a screen with this content. -/
def Frame.Shows (frame : Frame) (content : ℕ → List Cell) : Prop :=
  ∀ row ∈ frame.rows, row = rowFrame row.line (content row.line)

/-- A row of a screen with this content, on the wire. -/
def wireRowOf (content : ℕ → List Cell) (line : ℕ) : WireRow where
  line := line
  wrapped := (retained (content line)).wrapped
  spans := (retained (content line)).spans

theorem wireFrame_eq {frame : Frame} {content : ℕ → List Cell} (h : frame.Shows content) :
    wireFrame frame = some
      { viewport := frame.viewport
        rows := frame.rows.map fun row => wireRowOf content row.line
        cursor := frame.cursor
        full := frame.full } := by
  have hrows : frame.rows.mapM wireRow =
      some (frame.rows.map fun row => wireRowOf content row.line) := by
    apply mapM_eq_map
    intro row hrow
    rw [h row hrow, wireRow_rowFrame]
    rfl
  rw [wireFrame, hrows]
  rfl

namespace TerminalGrid

variable {g : TerminalGrid} {grid : Option TerminalGrid} {frame : TerminalFrame}

theorem apply_viewport (g : TerminalGrid) (frame : TerminalFrame) (h : frame.viewport = g.viewport) :
    (g.apply frame).1.viewport = g.viewport ∧ (g.apply frame).1.cursor = frame.cursor ∧
      (g.apply frame).1.rows.length = g.rows.length := by
  rw [apply, if_pos h]
  obtain ⟨hviewport, hcursor, -, hlength⟩ := applyRows_viewport frame.rows
    { (if frame.full = true then g.markAllDirty else g) with
      cursor := frame.cursor
      dirty := insert frame.cursor.line
        (insert (if frame.full = true then g.markAllDirty else g).cursor.line
          (if frame.full = true then g.markAllDirty else g).dirty) }
  refine ⟨hviewport.trans ?_, hcursor, hlength.trans ?_⟩
  · simp only
    split <;> rfl
  · simp only
    split <;> rfl

theorem apply_rows (g : TerminalGrid) (frame : TerminalFrame) (shown : RetainedRow)
    (h : frame.viewport = g.viewport) (hline : line < g.rows.length)
    (hsame : ∀ row ∈ frame.rows, row.line = line →
      (⟨row.wrapped, row.spans⟩ : RetainedRow) = shown) :
    (g.apply frame).1.rows[line]? =
      if ∃ row ∈ frame.rows, row.line = line then some shown else g.rows[line]? := by
  have hrows : (if frame.full = true then g.markAllDirty else g).rows = g.rows := by
    split <;> rfl
  rw [apply, if_pos h]
  simp only
  rw [applyRows_rows frame.rows _ line shown hsame (by simp only [hrows]; exact hline)]
  simp only [hrows]

theorem receive_sized (h : ∀ g, grid = some g → g.Sized) (frame : TerminalFrame) :
    (receive grid frame).Sized := by
  obtain ⟨hviewport, -, hlength⟩ :=
    apply_viewport (target grid frame.viewport) frame (target_viewport _ _).symm
  rw [Sized, receive, hviewport, hlength]
  exact target_sized h frame.viewport

variable {source : Frame} {content : ℕ → List Cell}

/-- What a delivered frame leaves: its viewport and cursor, the lines it carries, and the other
lines as they were, if the grid had the viewport. -/
theorem receive_wire (h : source.Shows content) (hwire : wireFrame source = some frame)
    (hsized : ∀ g, grid = some g → g.Sized) :
    (receive grid frame).viewport = source.viewport ∧
      (receive grid frame).cursor = source.cursor ∧
      ∀ line < source.viewport.screenLines,
        (source.Carries line → (receive grid frame).rows[line]? = some (retained (content line))) ∧
        (¬ source.Carries line → ∀ g, grid = some g → g.viewport = source.viewport →
          (receive grid frame).rows[line]? = g.rows[line]?) := by
  rw [wireFrame_eq h] at hwire
  obtain rfl := Option.some.inj hwire
  have htarget := target_viewport grid source.viewport
  obtain ⟨hviewport, hcursor, -⟩ := apply_viewport (target grid source.viewport)
    (⟨source.viewport, source.rows.map fun row => wireRowOf content row.line,
      source.cursor, source.full⟩) htarget.symm
  refine ⟨hviewport.trans htarget, hcursor, fun line hline => ?_⟩
  have hlength := target_sized hsized source.viewport
  rw [Sized, htarget] at hlength
  have hrows := apply_rows (target grid source.viewport)
    (⟨source.viewport, source.rows.map fun row => wireRowOf content row.line,
      source.cursor, source.full⟩) (retained (content line)) htarget.symm
    (by rw [hlength]; exact hline) (fun row hrow he => by
      obtain ⟨r, -, rfl⟩ := List.mem_map.mp hrow
      rw [← he]
      rfl)
  have hcarries : (∃ row ∈ source.rows.map fun row => wireRowOf content row.line,
      row.line = line) ↔ source.Carries line := by
    simp only [List.mem_map, exists_exists_and_eq_and]
    rfl
  constructor
  · intro hc
    rw [receive, hrows, if_pos (hcarries.mpr hc)]
  · rintro hc g rfl hg
    rw [receive, hrows, if_neg (fun h => hc (hcarries.mp h)), target_of_viewport hg]

end TerminalGrid

end Buzz.Terminal
