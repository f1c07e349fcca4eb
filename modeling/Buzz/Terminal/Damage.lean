import Mathlib

namespace Buzz.Terminal
set_option autoImplicit true

/-- The flags of a cell: the four that say where it sits in the grid, and the rest. -/
structure Flags where
  wrapline : Bool
  wideChar : Bool
  wideCharSpacer : Bool
  leadingWideCharSpacer : Bool
  visual : UInt16
  deriving DecidableEq

def Flags.difference (a b : Flags) : Flags where
  wrapline := a.wrapline && !b.wrapline
  wideChar := a.wideChar && !b.wideChar
  wideCharSpacer := a.wideCharSpacer && !b.wideCharSpacer
  leadingWideCharSpacer := a.leadingWideCharSpacer && !b.leadingWideCharSpacer
  visual := a.visual &&& ~~~b.visual

/-- Flags describing where a cell sits in the grid rather than how it looks. -/
def geometryFlags : Flags where
  wrapline := true
  wideChar := true
  wideCharSpacer := true
  leadingWideCharSpacer := true
  visual := 0

inductive Color where
  | named (n : UInt32)
  | indexed (index : UInt8)
  | spec (r g b : UInt8)

/-- Pack a color into a tagged value the renderer resolves against the theme. -/
def packColor : Color → UInt32
  | .named n => (0x01000000 : UInt32) ||| n
  | .indexed index => (0x02000000 : UInt32) ||| index.toUInt32
  | .spec r g b => (0x03000000 : UInt32) ||| (r.toUInt32 <<< 16) ||| (g.toUInt32 <<< 8) ||| b.toUInt32

structure Cell where
  c : Char
  fg : Color
  bg : Color
  flags : Flags
  zerowidth : Option (List Char)

/-- Visual style of a span, as the renderer needs it. -/
structure Style where
  fg : UInt32
  bg : UInt32
  flags : Flags
  deriving DecidableEq

def styleOf (cell : Cell) : Style where
  fg := packColor cell.fg
  bg := packColor cell.bg
  flags := cell.flags.difference geometryFlags

/-- A run of cells sharing one visual style and one cell width. -/
structure Span where
  column : ℕ
  text : List Char
  width : ℕ
  clusterCount : ℕ
  style : Style

/-- A span is a single cluster, or one cluster for each character. -/
def Span.CountsAreConsistent (s : Span) : Prop :=
  s.clusterCount = 1 ∨ s.clusterCount = s.text.length

instance (s : Span) : Decidable s.CountsAreConsistent :=
  inferInstanceAs (Decidable (_ ∨ _))

namespace Cell

def width (cell : Cell) : ℕ :=
  if cell.flags.wideChar then 2 else 1

/-- The base character, then its combining marks. -/
def text (cell : Cell) : List Char :=
  cell.c :: cell.zerowidth.getD []

/-- A wide glyph, which the next cell is the spacer of. -/
def isWide (cell : Cell) : Bool :=
  cell.flags.wideChar && !cell.flags.wideCharSpacer

end Cell

def maxClusterCount : ℕ := 65535

namespace Span

def single (column : ℕ) (cell : Cell) : Span where
  column := column
  text := cell.text
  width := cell.width
  clusterCount := 1
  style := styleOf cell

/-- What lets a cell continue a run that is open. -/
def Accepts (last : Span) (cell : Cell) : Prop :=
  cell.zerowidth.isNone ∧ last.style = styleOf cell ∧ last.width = cell.width ∧
    last.clusterCount < maxClusterCount

instance (last : Span) (cell : Cell) : Decidable (last.Accepts cell) :=
  inferInstanceAs (Decidable (_ ∧ _))

def extend (last : Span) (cell : Cell) : Span where
  column := last.column
  text := last.text ++ cell.text
  width := last.width
  clusterCount := last.clusterCount + 1
  style := last.style

end Span

/-- The spans so far, and whether the last one may still be extended. -/
structure Runs where
  spans : List Span
  isOpen : Bool

def Runs.group (r : Runs) (column : ℕ) (cell : Cell) : List Span :=
  match r.spans.getLast? with
  | some last =>
    if r.isOpen ∧ last.Accepts cell then r.spans.dropLast ++ [last.extend cell]
    else r.spans ++ [.single column cell]
  | none => r.spans ++ [.single column cell]

def Runs.push (r : Runs) (cell : Cell × ℕ) : Runs :=
  if cell.1.flags.wideCharSpacer then r
  else { spans := r.group cell.2 cell.1, isOpen := cell.1.zerowidth.isNone }

def runs (cells : List Cell) : Runs :=
  cells.zipIdx.foldl Runs.push { spans := [], isOpen := false }

/-- Group the cells of a row into runs. A run that could not be decoded is a panic. -/
def spans (cells : List Cell) : Option (List Span) :=
  if ∀ s ∈ (runs cells).spans, s.CountsAreConsistent then some (runs cells).spans else none

/-- What is drawn at a column: one cluster. -/
structure Placement where
  column : ℕ
  cluster : List Char
  width : ℕ
  style : Style

/-- The rule of the consumer. -/
def Span.placements (s : Span) : List Placement :=
  if s.clusterCount = 1 then [⟨s.column, s.text, s.width, s.style⟩]
  else s.text.mapIdx fun i c => ⟨s.column + i * s.width, [c], s.width, s.style⟩

def decode (spans : List Span) : List Placement :=
  spans.flatMap Span.placements

/-- What a row shows: its cells but for the spacers. -/
def placements (cells : List Cell) : List Placement :=
  (cells.zipIdx.filter fun cell => !cell.1.flags.wideCharSpacer).map fun cell =>
    ⟨cell.2, cell.1.text, cell.1.width, styleOf cell.1⟩

/-- Spacer cells occur exactly right after wide cells. -/
def Spaced (cells : List Cell) : Prop :=
  ∀ i cell, cells[i]? = some cell →
    (cell.flags.wideCharSpacer = true ↔ ∃ j prev, i = j + 1 ∧ cells[j]? = some prev ∧
      prev.isWide = true)

/-- The column after the last glyph, whose spacer may be yet to come. -/
def nextColumn (cells : List Cell) : ℕ :=
  match cells.getLast? with
  | some last => if last.isWide then cells.length + 1 else cells.length
  | none => 0

variable {cells : List Cell} {cell : Cell} {r : Runs} {s last : Span} {pre : List Span}

theorem nextColumn_concat (cells : List Cell) (cell : Cell) : nextColumn (cells ++ [cell]) =
    if cell.isWide then cells.length + 2 else cells.length + 1 := by
  rw [nextColumn, List.getLast?_concat, List.length_append]
  rfl

namespace Spaced

theorem prefix_of (h : Spaced (cells ++ [cell])) : Spaced cells := by
  intro i c hc
  have hi : i < cells.length := (List.getElem?_eq_some_iff.mp hc).1
  have hcell := h i c (by rw [List.getElem?_append_left hi, hc])
  constructor
  · intro hspacer
    obtain ⟨j, prev, rfl, hprev, hwide⟩ := hcell.mp hspacer
    rw [List.getElem?_append_left (Nat.lt_of_succ_lt hi)] at hprev
    exact ⟨j, prev, rfl, hprev, hwide⟩
  · intro hprev
    obtain ⟨j, prev, rfl, hprev, hwide⟩ := hprev
    apply hcell.mpr
    exact ⟨j, prev, rfl, by rw [List.getElem?_append_left (Nat.lt_of_succ_lt hi), hprev], hwide⟩

/-- A spacer comes where the row is one cell short of the next column. -/
theorem nextColumn_eq (h : Spaced (cells ++ [cell])) : nextColumn cells =
    if cell.flags.wideCharSpacer then cells.length + 1 else cells.length := by
  have hcell := h cells.length cell List.getElem?_concat_length
  cases cells using List.reverseRecOn with
  | nil =>
    rw [if_neg]
    · rfl
    · intro hspacer
      obtain ⟨j, -, hj, -⟩ := hcell.mp hspacer
      cases hj
  | append_singleton cells prev =>
    have hprev : cell.flags.wideCharSpacer = true ↔ prev.isWide = true := by
      rw [hcell, List.length_append]
      constructor
      · intro hwide
        obtain ⟨j, c, hj, hc, hwide⟩ := hwide
        obtain rfl : cells.length = j := Nat.succ.inj hj
        rw [List.append_assoc, List.getElem?_append_right le_rfl, Nat.sub_self] at hc
        rw [Option.some.inj hc]
        exact hwide
      · intro hwide
        refine ⟨cells.length, prev, rfl, ?_, hwide⟩
        rw [List.append_assoc, List.getElem?_append_right le_rfl, Nat.sub_self]
        rfl
    rw [nextColumn_concat, List.length_append]
    by_cases hwide : prev.isWide = true
    · rw [if_pos hwide, if_pos (hprev.mpr hwide)]
      rfl
    · rw [if_neg hwide, if_neg (mt hprev.mp hwide)]
      rfl

end Spaced

theorem placements_concat (cells : List Cell) (cell : Cell) : placements (cells ++ [cell]) =
    placements cells ++ if cell.flags.wideCharSpacer then []
      else [⟨cells.length, cell.text, cell.width, styleOf cell⟩] := by
  rw [placements, List.zipIdx_append, List.filter_append, List.map_append, ← placements]
  congr 1
  rw [List.zipIdx_singleton, Nat.zero_add]
  cases h : cell.flags.wideCharSpacer with
  | true => rw [List.filter_cons_of_neg (by rw [h]; exact Bool.false_ne_true)]; rfl
  | false => rw [List.filter_cons_of_pos (by rw [h]; rfl)]; rfl

theorem decode_concat (pre : List Span) (s : Span) :
    decode (pre ++ [s]) = decode pre ++ s.placements := by
  rw [decode, List.flatMap_append, List.flatMap_singleton]
  rfl

namespace Span

theorem placements_single (column : ℕ) (cell : Cell) : (single column cell).placements =
    [⟨column, cell.text, cell.width, styleOf cell⟩] := by
  have hone : (single column cell).clusterCount = 1 := rfl
  rw [placements, if_pos hone]
  rfl

/-- Where every cluster is one character, the number of them makes no difference. -/
theorem placements_of_length (h : s.text.length = s.clusterCount) : s.placements =
    s.text.mapIdx fun i c => ⟨s.column + i * s.width, [c], s.width, s.style⟩ := by
  rw [placements]
  by_cases hone : s.clusterCount = 1
  · obtain ⟨c, hc⟩ := List.length_eq_one_iff.mp (h.trans hone)
    rw [if_pos hone, hc, List.mapIdx_cons, List.mapIdx_nil, Nat.zero_mul]
    rfl
  · rw [if_neg hone]

theorem Accepts.text_eq (h : last.Accepts cell) : cell.text = [cell.c] := by
  rw [Cell.text, Option.isNone_iff_eq_none.mp h.1]
  rfl

theorem Accepts.length_extend (h : last.Accepts cell) (hlen : last.text.length = last.clusterCount) :
    (last.extend cell).text.length = (last.extend cell).clusterCount := by
  rw [extend, h.text_eq, List.length_append, hlen]
  rfl

/-- A cell that continues a run is placed at the end of it. -/
theorem Accepts.placements_extend (h : last.Accepts cell)
    (hlen : last.text.length = last.clusterCount) : (last.extend cell).placements =
    last.placements ++ [⟨last.column + last.clusterCount * last.width, cell.text, cell.width,
      styleOf cell⟩] := by
  rw [placements_of_length (h.length_extend hlen), placements_of_length hlen, extend, h.text_eq,
    List.mapIdx_append, hlen, ← h.2.1, ← h.2.2.1]
  congr 1
  rw [List.mapIdx_cons, List.mapIdx_nil, Nat.zero_add]

end Span

namespace Runs

/-- What holds of the spans of the cells so far. -/
structure Placed (cells : List Cell) (r : Runs) : Prop where
  decoded : decode r.spans = placements cells
  consistent : ∀ s ∈ r.spans, s.CountsAreConsistent
  -- an open run has one character for each cluster and ends where the next glyph starts
  ends : r.isOpen = true → ∀ last ∈ r.spans.getLast?, last.text.length = last.clusterCount ∧
    last.column + last.clusterCount * last.width = nextColumn cells

theorem spacer_end (h : cell.flags.wideCharSpacer = false) (cells : List Cell) :
    nextColumn (cells ++ [cell]) = cells.length + cell.width := by
  rw [nextColumn_concat, Cell.isWide, h, Bool.not_false, Bool.and_true, Cell.width]
  by_cases hwide : cell.flags.wideChar = true
  · rw [if_pos hwide, if_pos hwide]
  · rw [if_neg hwide, if_neg hwide]

/-- A run that a cell starts. -/
theorem Placed.single (h : Placed cells r) (hcell : cell.flags.wideCharSpacer = false) :
    Placed (cells ++ [cell])
      { spans := r.spans ++ [.single cells.length cell], isOpen := cell.zerowidth.isNone } where
  decoded := by
    rw [decode_concat, h.decoded, Span.placements_single, placements_concat, hcell]
    rfl
  consistent := by
    intro s hs
    rcases List.mem_append.mp hs with hs | hs
    · exact h.consistent s hs
    · rw [List.mem_singleton.mp hs]
      exact .inl rfl
  ends := by
    intro hopen last hlast
    rw [List.getLast?_concat] at hlast
    obtain rfl := Option.some.inj hlast
    constructor
    · change cell.text.length = 1
      rw [Cell.text, Option.isNone_iff_eq_none.mp hopen]
      rfl
    · rw [spacer_end hcell]
      change cells.length + 1 * cell.width = _
      rw [Nat.one_mul]

/-- A run that a cell continues. -/
theorem Placed.extend (h : Placed cells r) (hopen : r.isOpen = true) (hr : r.spans = pre ++ [last])
    (haccepts : last.Accepts cell) (hcell : cell.flags.wideCharSpacer = false)
    (hnext : nextColumn cells = cells.length) :
    Placed (cells ++ [cell])
      { spans := pre ++ [last.extend cell], isOpen := cell.zerowidth.isNone } := by
  obtain ⟨hlen, hend⟩ := h.ends hopen last (by rw [hr, List.getLast?_concat]; rfl)
  have hdecoded := h.decoded
  rw [hr, decode_concat] at hdecoded
  rw [hnext] at hend
  constructor
  · rw [decode_concat, haccepts.placements_extend hlen, hend, ← List.append_assoc, hdecoded,
      placements_concat, hcell]
    rfl
  · intro s hs
    rcases List.mem_append.mp hs with hs | hs
    · exact h.consistent s (by rw [hr]; exact List.mem_append_left _ hs)
    · rw [List.mem_singleton.mp hs]
      exact .inr (haccepts.length_extend hlen).symm
  · intro _ s hs
    rw [List.getLast?_concat] at hs
    obtain rfl := Option.some.inj hs
    refine ⟨haccepts.length_extend hlen, ?_⟩
    rw [spacer_end hcell, ← hend]
    change last.column + (last.clusterCount + 1) * last.width = _
    rw [Nat.succ_mul, ← haccepts.2.2.1, Nat.add_assoc]

theorem group_open (hr : r.spans = pre ++ [last]) (hopen : r.isOpen = true)
    (haccepts : last.Accepts cell) : r.group column cell = pre ++ [last.extend cell] := by
  have hlast : r.spans.getLast? = some last := by rw [hr, List.getLast?_concat]
  simp only [group, hlast]
  rw [if_pos ⟨hopen, haccepts⟩, hr, List.dropLast_concat]

theorem group_closed
    (h : ∀ last ∈ r.spans.getLast?, ¬ (r.isOpen = true ∧ last.Accepts cell)) :
    r.group column cell = r.spans ++ [.single column cell] := by
  cases hlast : r.spans.getLast? with
  | none => simp only [group, hlast]
  | some last =>
    simp only [group, hlast]
    exact if_neg (h last hlast)

theorem Placed.push (h : Placed cells r) (hspaced : Spaced (cells ++ [cell])) :
    Placed (cells ++ [cell]) (r.push (cell, cells.length)) := by
  have hnext := hspaced.nextColumn_eq
  cases hcell : cell.flags.wideCharSpacer with
  | true =>
    rw [hcell] at hnext
    rw [Runs.push, if_pos hcell]
    constructor
    · rw [placements_concat, hcell, h.decoded]
      exact (List.append_nil _).symm
    · exact h.consistent
    · intro hopen last hlast
      obtain ⟨hlen, hend⟩ := h.ends hopen last hlast
      refine ⟨hlen, ?_⟩
      rw [hend, hnext, nextColumn_concat, Cell.isWide, hcell, Bool.not_true, Bool.and_false]
      rfl
  | false =>
    rw [hcell] at hnext
    rw [Runs.push, if_neg (by rw [hcell]; exact Bool.false_ne_true)]
    by_cases hjoins : ∃ last ∈ r.spans.getLast?, r.isOpen = true ∧ last.Accepts cell
    · obtain ⟨last, hlast, hopen, haccepts⟩ := hjoins
      obtain ⟨pre, hr⟩ := List.getLast?_eq_some_iff.mp hlast
      rw [group_open hr hopen haccepts]
      exact h.extend hopen hr haccepts hcell hnext
    · rw [group_closed fun last hlast hjoin => hjoins ⟨last, hlast, hjoin⟩]
      exact h.single hcell

end Runs

theorem runs_placed (h : Spaced cells) : (runs cells).Placed cells := by
  induction cells using List.reverseRecOn with
  | nil => exact ⟨rfl, nofun, nofun⟩
  | append_singleton cells cell ih =>
    rw [runs, List.zipIdx_append, List.foldl_append, List.zipIdx_singleton, Nat.zero_add]
    exact (ih h.prefix_of).push h

def wideCell : Cell where
  c := 'x'
  fg := .named 0
  bg := .named 1
  flags := ⟨false, true, false, false, 0⟩
  zerowidth := none

def spacerCell : Cell where
  c := ' '
  fg := .named 0
  bg := .named 1
  flags := ⟨false, false, true, false, 0⟩
  zerowidth := none

theorem spaced_wideCell : Spaced [wideCell, spacerCell] := by
  intro i cell hcell
  match i with
  | 0 =>
    obtain rfl := Option.some.inj hcell
    exact ⟨nofun, fun ⟨j, _, hj, _⟩ => absurd hj (Nat.succ_ne_zero j).symm⟩
  | 1 =>
    obtain rfl := Option.some.inj hcell
    exact ⟨fun _ => ⟨0, wideCell, rfl, rfl, rfl⟩, fun _ => rfl⟩

end Buzz.Terminal
