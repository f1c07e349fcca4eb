import Buzz.Terminal.RowHash

namespace Buzz.Terminal
set_option autoImplicit true

/-- The grid that a frame describes. -/
structure Viewport where
  generation : ℕ
  columns : ℕ
  screenLines : ℕ
  deriving DecidableEq

/-- The cursor, carried separately from row content. -/
structure CursorFrame where
  line : ℕ
  column : ℕ
  visible : Bool
  deriving DecidableEq

/-- One changed row. -/
structure RowFrame where
  line : ℕ
  wrapped : Bool
  spans : List Span

/-- One update for the renderer. -/
structure Frame where
  rows : List RowFrame
  cursor : CursorFrame
  cursorChanged : Bool
  full : Bool
  viewport : Viewport

/-- There is nothing for the renderer to do. -/
def Frame.isEmpty (frame : Frame) : Bool :=
  frame.rows.isEmpty && !frame.cursorChanged && !frame.full

/-- Raw rows copied out from under the lock, awaiting encode. -/
structure RawFrame where
  rows : List (ℕ × List Cell)
  cursor : CursorFrame
  full : Bool
  viewport : Viewport

/-- A place in the active area. -/
structure Point where
  line : ℤ
  column : ℕ

inductive TermDamage where
  | full
  | partialLines (lines : List ℕ)

/-- The engine: scrollback has the negative lines of the grid. -/
structure Term where
  grid : ℤ → List Cell
  displayOffset : ℕ
  cursorPoint : Point
  showCursor : Bool
  viewport : Viewport
  damage : TermDamage

/-- The grid line a screen row reads from. -/
def rowOf (screenRow displayOffset : ℕ) : ℤ :=
  (screenRow : ℤ) - displayOffset

/-- Where the cursor sits on screen. Scrolled off the bottom, it is not visible. -/
def cursorFrame (cursorPoint : Point) (displayOffset screenLines : ℕ) (shown : Bool) : CursorFrame :=
  let line := cursorPoint.line.toNat + displayOffset
  { line := min line (screenLines - 1)
    column := cursorPoint.column
    visible := shown && line < screenLines }

namespace Term

/-- A screen row, as it is copied out. -/
def screenRow (t : Term) (line : ℕ) : List Cell :=
  (t.grid (rowOf line t.displayOffset)).take t.viewport.columns

def cursor (t : Term) : CursorFrame :=
  cursorFrame t.cursorPoint t.displayOffset t.viewport.screenLines t.showCursor

def copyRows (t : Term) (lines : List ℕ) : List (ℕ × List Cell) :=
  lines.map fun line => (line, t.screenRow line)

/-- The lines to copy, and whether they are all of them. -/
def damagedLines (t : Term) : TermDamage → List ℕ × Bool
  | .full => (List.range t.viewport.screenLines, true)
  | .partialLines lines => (lines.filter (· < t.viewport.screenLines), false)

/-- Copy the damaged rows. `reported` is what the engine says is damaged. -/
def capture (t : Term) (reported : TermDamage) : RawFrame × Term :=
  let (lines, full) := t.damagedLines reported
  ({ rows := t.copyRows lines, cursor := t.cursor, full, viewport := t.viewport },
    { t with damage := .partialLines [] })

/-- Copy the entire visible viewport, leaving damage untouched. -/
def captureAll (t : Term) : RawFrame where
  rows := t.copyRows (List.range t.viewport.screenLines)
  cursor := t.cursor
  full := true
  viewport := t.viewport

theorem rows_captureAll (t : Term) : t.captureAll.rows =
    (List.range t.viewport.screenLines).map fun line => (line, t.screenRow line) :=
  rfl

theorem rows_capture (t : Term) (lines : List ℕ) : (t.capture (.partialLines lines)).1.rows =
    (lines.filter (· < t.viewport.screenLines)).map fun line => (line, t.screenRow line) :=
  rfl

end Term

/-- Every run of a row can be decoded: the assertion does not fire. -/
theorem consistent_group (r : Runs) (column : ℕ) (cell : Cell)
    (hr : ∀ s ∈ r.spans, s.CountsAreConsistent)
    (hopen : r.isOpen = true → ∀ last, r.spans.getLast? = some last →
      last.text.length = last.clusterCount) :
    ∀ s ∈ r.group column cell, s.CountsAreConsistent := by
  intro s hs
  unfold Runs.group at hs
  split at hs
  · rename_i last hlast
    split at hs
    · rename_i h
      rcases List.mem_append.mp hs with hs | hs
      · exact hr s (List.mem_of_mem_dropLast hs)
      · rw [List.mem_singleton.mp hs]
        exact .inr (h.2.length_extend (hopen h.1 last hlast)).symm
    · rcases List.mem_append.mp hs with hs | hs
      · exact hr s hs
      · rw [List.mem_singleton.mp hs]
        exact .inl rfl
  · rcases List.mem_append.mp hs with hs | hs
    · exact hr s hs
    · rw [List.mem_singleton.mp hs]
      exact .inl rfl

theorem length_getLast_group (r : Runs) (column : ℕ) (cell : Cell) (hcell : cell.zerowidth = none)
    (hopen : r.isOpen = true → ∀ last, r.spans.getLast? = some last →
      last.text.length = last.clusterCount) :
    ∀ last, (r.group column cell).getLast? = some last →
      last.text.length = last.clusterCount := by
  have hsingle : (Span.single column cell).text.length = (Span.single column cell).clusterCount := by
    rw [Span.single, Cell.text, hcell]
    rfl
  intro s hs
  unfold Runs.group at hs
  split at hs
  · rename_i last hlast
    split at hs
    · rename_i h
      rw [List.getLast?_concat] at hs
      obtain rfl := Option.some.inj hs
      exact h.2.length_extend (hopen h.1 last hlast)
    · rw [List.getLast?_concat] at hs
      obtain rfl := Option.some.inj hs
      exact hsingle
  · rw [List.getLast?_concat] at hs
    obtain rfl := Option.some.inj hs
    exact hsingle

theorem runs_consistent (cells : List Cell) :
    (∀ s ∈ (runs cells).spans, s.CountsAreConsistent) ∧
      ((runs cells).isOpen = true → ∀ last, (runs cells).spans.getLast? = some last →
        last.text.length = last.clusterCount) := by
  induction cells using List.reverseRecOn with
  | nil =>
    refine ⟨fun s hs => absurd hs List.not_mem_nil, fun h => ?_⟩
    cases h
  | append_singleton cells cell ih =>
    rw [runs, List.zipIdx_append, List.foldl_append, List.zipIdx_singleton, Nat.zero_add]
    change (∀ s ∈ ((runs cells).push (cell, cells.length)).spans, s.CountsAreConsistent) ∧
      (((runs cells).push (cell, cells.length)).isOpen = true → ∀ last,
        ((runs cells).push (cell, cells.length)).spans.getLast? = some last →
          last.text.length = last.clusterCount)
    unfold Runs.push
    split
    · exact ih
    · refine ⟨consistent_group _ _ _ ih.1 ih.2, fun hopen => ?_⟩
      exact length_getLast_group _ _ _ (Option.isNone_iff_eq_none.mp hopen) ih.2

theorem isSome_spans (cells : List Cell) : (spans cells).isSome := by
  rw [spans, if_pos (runs_consistent cells).1]
  rfl

/-- The spans of a row. -/
def spansOf (cells : List Cell) : List Span :=
  (spans cells).get (isSome_spans cells)

theorem spansOf_eq (cells : List Cell) : spansOf cells = (runs cells).spans := by
  apply Option.get_of_eq_some
  rw [spans, if_pos (runs_consistent cells).1]

/-- Whether a row continues onto the next one. -/
def wrappedOf (cells : List Cell) : Bool :=
  cells.getLast?.any fun cell => cell.flags.wrapline

theorem push_look {a b : Cell} (h : a.look = b.look) (r : Runs) (column : ℕ) :
    r.push (a, column) = r.push (b, column) := by
  rw [Cell.look, Cell.look, Look.mk.injEq] at h
  obtain ⟨hc, hfg, hbg, hflags, hmarks⟩ := h
  have hstyle : styleOf a = styleOf b := by rw [styleOf, styleOf, hfg, hbg, hflags]
  have htext : a.text = b.text := by rw [Cell.text, Cell.text, hc, hmarks]
  have hwidth : a.width = b.width := by rw [Cell.width, Cell.width, hflags]
  have hsingle : Span.single column a = Span.single column b := by
    rw [Span.single, Span.single, hstyle, htext, hwidth]
  have haccepts : ∀ last : Span, last.Accepts a ↔ last.Accepts b := fun last => by
    rw [Span.Accepts, Span.Accepts, hstyle, hwidth, hmarks]
  have hextend : ∀ last : Span, last.extend a = last.extend b := fun last => by
    rw [Span.extend, Span.extend, htext]
  simp only [Runs.push, Runs.group, hsingle, haccepts, hextend, hflags, hmarks]

/-- Rows that look the same have the same spans. -/
theorem runs_look {as bs : List Cell} (h : as.map Cell.look = bs.map Cell.look) :
    runs as = runs bs := by
  induction as using List.reverseRecOn generalizing bs with
  | nil => rw [List.map_eq_nil_iff.mp h.symm]
  | append_singleton as a ih =>
    rcases List.eq_nil_or_concat bs with rfl | ⟨bs, b, rfl⟩
    · exact absurd h (by simp)
    · rw [List.concat_eq_append, List.map_append, List.map_append] at h
      obtain ⟨hinit, hlast⟩ := List.append_inj' h rfl
      have hlen : as.length = bs.length := by
        simpa only [List.length_map] using congrArg List.length hinit
      rw [List.map_singleton, List.map_singleton, List.singleton_inj] at hlast
      have hunfold : ∀ (cs : List Cell) (c : Cell), runs (cs ++ [c]) = (runs cs).push (c, cs.length) :=
        fun cs c => by
          rw [runs, List.zipIdx_append, List.foldl_append, List.zipIdx_singleton, Nat.zero_add]
          rfl
      rw [List.concat_eq_append, hunfold, hunfold, ih hinit, hlen, push_look hlast]

theorem spansOf_look {as bs : List Cell} (h : as.map Cell.look = bs.map Cell.look) :
    spansOf as = spansOf bs := by
  rw [spansOf_eq, spansOf_eq, runs_look h]

theorem wrappedOf_look {as bs : List Cell} (h : as.map Cell.look = bs.map Cell.look) :
    wrappedOf as = wrappedOf bs := by
  have hlast : ∀ cs : List Cell, wrappedOf cs = (cs.map Cell.look).getLast?.any (·.flags.wrapline) := by
    intro cs
    rw [wrappedOf, List.getLast?_map]
    cases cs.getLast? <;> rfl
  rw [hlast, hlast, h]

/-- What the renderer is sent of a row. -/
def rowFrame (line : ℕ) (cells : List Cell) : RowFrame where
  line := line
  wrapped := wrappedOf cells
  spans := spansOf cells

/-- Equal hashed bytes, equal row on the wire: dedup suppresses no row that the renderer would
draw differently. -/
theorem rowFrame_hashed (B : FlagBits) (has : ∀ cell ∈ as, cell.Valid B)
    (hbs : ∀ cell ∈ bs, cell.Valid B) (h : hashedRow B as = hashedRow B bs) (line : ℕ) :
    rowFrame line as = rowFrame line bs := by
  have hlook := (hashedRow_eq_iff has hbs).mp h
  rw [rowFrame, rowFrame, wrappedOf_look hlook, spansOf_look hlook]

/-- What is hashed of a row is exactly what tells two rows apart: equal bytes, and the renderer is
sent the same row whatever the line. -/
theorem dedup_is_exact (B : FlagBits) (has : ∀ cell ∈ as, cell.Valid B)
    (hbs : ∀ cell ∈ bs, cell.Valid B) :
    (hashedRow B as = hashedRow B bs ↔ as.map Cell.look = bs.map Cell.look) ∧
      (hashedRow B as = hashedRow B bs → ∀ line, rowFrame line as = rowFrame line bs) :=
  ⟨hashedRow_eq_iff has hbs, fun h line => rowFrame_hashed B has hbs h line⟩

/-- A letter in the default colors. -/
def letterCell (c : Char) : Cell where
  c := c
  fg := .named 256
  bg := .named 257
  flags := ⟨false, false, false, false, 0⟩
  zerowidth := none

/-- The bits of the four flags of the grid, of cells without other flags. -/
def gridBits (f : Flags) : UInt16 :=
  (if f.wrapline then 0x10 else 0) ||| (if f.wideChar then 0x20 else 0) |||
    (if f.wideCharSpacer then 0x40 else 0) ||| (if f.leadingWideCharSpacer then 0x400 else 0)

theorem gridBits_injective (a b : Flags) (ha : a.visual = 0) (hb : b.visual = 0)
    (h : gridBits a = gridBits b) : a = b := by
  obtain ⟨w, c, s, l, v⟩ := a
  obtain ⟨w', c', s', l', v'⟩ := b
  obtain rfl : v = 0 := ha
  obtain rfl : v' = 0 := hb
  revert h
  revert w c s l w' c' s' l'
  decide

def plainFlagBits : FlagBits where
  bits := gridBits
  valid := fun f => f.visual = 0
  injective := gridBits_injective

theorem letterCell_valid (c : Char) : ∀ cell ∈ [letterCell c], cell.Valid plainFlagBits := by
  intro cell hcell
  rw [List.mem_singleton.mp hcell]
  exact ⟨rfl, fun _ h => by cases h⟩

theorem dedup_is_exact_letters :
    (hashedRow plainFlagBits [letterCell 'a'] = hashedRow plainFlagBits [letterCell 'b'] ↔
        [(letterCell 'a').look] = [(letterCell 'b').look]) ∧
      (hashedRow plainFlagBits [letterCell 'a'] = hashedRow plainFlagBits [letterCell 'b'] →
        ∀ line, rowFrame line [letterCell 'a'] = rowFrame line [letterCell 'b']) :=
  dedup_is_exact plainFlagBits (letterCell_valid 'a') (letterCell_valid 'b')

/-- The hash of a row, and rows that it tells apart: none of them hashes to zero, and two that
hash alike look alike. -/
structure RowHasher where
  hash : List Cell → UInt64
  rows : Set (List Cell)
  ne_zero : ∀ cells ∈ rows, hash cells ≠ 0
  look : ∀ as ∈ rows, ∀ bs ∈ rows, hash as = hash bs → as.map Cell.look = bs.map Cell.look

theorem hashCells_look {B : FlagBits} {finish : List UInt8 → UInt64} {rows : Set (List Cell)}
    (hvalid : ∀ cells ∈ rows, ∀ cell ∈ cells, cell.Valid B)
    (hfinish : ∀ as ∈ rows, ∀ bs ∈ rows,
      finish (hashedRow B as) = finish (hashedRow B bs) → hashedRow B as = hashedRow B bs) :
    ∀ as ∈ rows, ∀ bs ∈ rows, hashCells B finish as = hashCells B finish bs →
      as.map Cell.look = bs.map Cell.look := fun as has bs hbs h =>
  (hashedRow_eq_iff (hvalid as has) (hvalid bs hbs)).mp (hfinish as has bs hbs h)

/-- Rows of valid cells whose bytes have hashes of their own. -/
def RowHasher.ofFinish (B : FlagBits) (finish : List UInt8 → UInt64) (rows : Set (List Cell))
    (hne : ∀ cells ∈ rows, hashCells B finish cells ≠ 0)
    (hvalid : ∀ cells ∈ rows, ∀ cell ∈ cells, cell.Valid B)
    (hfinish : ∀ as ∈ rows, ∀ bs ∈ rows,
      finish (hashedRow B as) = finish (hashedRow B bs) → hashedRow B as = hashedRow B bs) :
    RowHasher where
  hash := hashCells B finish
  rows := rows
  ne_zero := hne
  look := hashCells_look hvalid hfinish

/-- Suppresses rows whose content did not actually change. -/
structure Encoder where
  hashes : List UInt64
  cursor : Option CursorFrame

namespace Encoder

def new : Encoder where
  hashes := []
  cursor := none

/-- The hash kept for a line. -/
def hashAt (e : Encoder) (line : ℕ) : UInt64 :=
  e.hashes.getD line 0

/-- `Vec::resize` to hold a line, with zeros. -/
def grow (hashes : List UInt64) (line : ℕ) : List UInt64 :=
  if hashes.length ≤ line then hashes ++ List.replicate (line + 1 - hashes.length) 0 else hashes

/-- One row of the loop: its hash is kept, and it is sent unless that was the hash before. -/
def encodeRow (hash : List Cell → UInt64) (done : List UInt64 × List RowFrame)
    (row : ℕ × List Cell) : List UInt64 × List RowFrame :=
  let hashes := grow done.1 row.1
  if hashes.getD row.1 0 = hash row.2 then (hashes, done.2)
  else (hashes.set row.1 (hash row.2), done.2 ++ [rowFrame row.1 row.2])

/-- Encode a captured frame. -/
def encode (hash : List Cell → UInt64) (e : Encoder) (raw : RawFrame) : Encoder × Frame :=
  let done := raw.rows.foldl (encodeRow hash) (if raw.full then [] else e.hashes, [])
  ({ hashes := done.1, cursor := some raw.cursor },
    { rows := done.2
      cursor := raw.cursor
      cursorChanged := decide (e.cursor ≠ some raw.cursor)
      full := raw.full
      viewport := raw.viewport })

theorem getD_grow (hashes : List UInt64) (line k : ℕ) :
    (grow hashes line).getD k 0 = hashes.getD k 0 := by
  unfold grow
  split
  · rcases Nat.lt_or_ge k hashes.length with hk | hk
    · rw [List.getD_append _ _ _ _ hk]
    · rw [List.getD_append_right _ _ _ _ hk, List.getD_eq_default _ _ hk, List.getD_eq_getElem?_getD,
        List.getElem?_replicate]
      split <;> rfl
  · rfl

theorem lt_length_grow (hashes : List UInt64) (line : ℕ) : line < (grow hashes line).length := by
  unfold grow
  split
  · rename_i h
    rw [List.length_append, List.length_replicate]
    omega
  · omega

variable {hash : List Cell → UInt64} {done : List UInt64 × List RowFrame}

theorem getD_encodeRow (row : ℕ × List Cell) (k : ℕ) :
    (encodeRow hash done row).1.getD k 0 = if k = row.1 then hash row.2 else done.1.getD k 0 := by
  unfold encodeRow
  simp only
  split
  · rename_i h
    rw [getD_grow]
    split
    · rename_i hk
      rw [hk, ← getD_grow, h]
    · rfl
  · split
    · rename_i hk
      rw [hk, List.getD_eq_getElem?_getD, List.getElem?_set_self (lt_length_grow _ _)]
      rfl
    · rename_i hk
      rw [List.getD_eq_getElem?_getD, List.getElem?_set_ne (Ne.symm hk), ← List.getD_eq_getElem?_getD,
        getD_grow]

theorem rows_encodeRow (row : ℕ × List Cell) :
    (encodeRow hash done row).2 =
      if done.1.getD row.1 0 = hash row.2 then done.2 else done.2 ++ [rowFrame row.1 row.2] := by
  unfold encodeRow
  simp only [getD_grow]
  split <;> rfl

variable {content : ℕ → List Cell}

/-- After the loop each captured line has its hash. -/
theorem getD_encodeRows (lines : List ℕ) (k : ℕ) :
    ((lines.map fun line => (line, content line)).foldl (encodeRow hash) done).1.getD k 0 =
      if k ∈ lines then hash (content k) else done.1.getD k 0 := by
  induction lines generalizing done with
  | nil => rw [List.map_nil, List.foldl_nil, if_neg List.not_mem_nil]
  | cons line lines ih =>
    rw [List.map_cons, List.foldl_cons, ih, getD_encodeRow]
    by_cases hk : k ∈ lines
    · rw [if_pos hk, if_pos (List.mem_cons_of_mem _ hk)]
    · rw [if_neg hk]
      by_cases hline : k = line
      · rw [if_pos hline, if_pos (hline ▸ List.mem_cons_self), hline]
      · rw [if_neg hline, if_neg (fun hmem => (List.mem_cons.mp hmem).elim hline hk)]

/-- The rows that are sent are the captured ones whose hash is a new one. -/
theorem mem_encodeRows (lines : List ℕ) (row : RowFrame) :
    row ∈ ((lines.map fun line => (line, content line)).foldl (encodeRow hash) done).2 ↔
      row ∈ done.2 ∨ ∃ line ∈ lines, done.1.getD line 0 ≠ hash (content line) ∧
        row = rowFrame line (content line) := by
  induction lines generalizing done with
  | nil => simp
  | cons line lines ih =>
    rw [List.map_cons, List.foldl_cons, ih, rows_encodeRow]
    by_cases hsame : done.1.getD line 0 = hash (content line)
    · rw [if_pos hsame]
      apply or_congr_right
      constructor
      · rintro ⟨k, hk, hne, rfl⟩
        rw [getD_encodeRow] at hne
        split at hne
        · rename_i hline
          exact absurd (by rw [hline]) hne
        · exact ⟨k, List.mem_cons_of_mem _ hk, hne, rfl⟩
      · rintro ⟨k, hk, hne, rfl⟩
        have hline : k ≠ line := fun he => hne (he ▸ hsame)
        refine ⟨k, (List.mem_cons.mp hk).resolve_left hline, ?_, rfl⟩
        rw [getD_encodeRow, if_neg hline]
        exact hne
    · rw [if_neg hsame, List.mem_append, List.mem_singleton, or_assoc]
      apply or_congr_right
      constructor
      · rintro (rfl | ⟨k, hk, hne, rfl⟩)
        · exact ⟨line, List.mem_cons_self, hsame, rfl⟩
        · rw [getD_encodeRow] at hne
          split at hne
          · rename_i hline
            exact absurd (by rw [hline]) hne
          · exact ⟨k, List.mem_cons_of_mem _ hk, hne, rfl⟩
      · rintro ⟨k, hk, hne, rfl⟩
        by_cases hline : k = line
        · exact .inl (by rw [hline])
        · refine .inr ⟨k, (List.mem_cons.mp hk).resolve_left hline, ?_, rfl⟩
          rw [getD_encodeRow, if_neg hline]
          exact hne

variable {raw : RawFrame} {lines : List ℕ}

/-- The hash a row is compared with: a full frame forgets them all. -/
def base (e : Encoder) (raw : RawFrame) (line : ℕ) : UInt64 :=
  if raw.full then 0 else e.hashAt line

theorem getD_base (e : Encoder) (line : ℕ) :
    (if raw.full then [] else e.hashes).getD line 0 = e.base raw line := by
  unfold base
  split
  · exact List.getD_nil
  · rfl

theorem hashAt_encode (hash : List Cell → UInt64) (e : Encoder)
    (hrows : raw.rows = lines.map fun line => (line, content line)) (k : ℕ) :
    (e.encode hash raw).1.hashAt k = if k ∈ lines then hash (content k) else e.base raw k := by
  rw [hashAt, encode, hrows, getD_encodeRows, getD_base]

theorem mem_rows_encode (hash : List Cell → UInt64) (e : Encoder)
    (hrows : raw.rows = lines.map fun line => (line, content line)) (row : RowFrame) : row ∈ (e.encode hash raw).2.rows ↔
      ∃ line ∈ lines, e.base raw line ≠ hash (content line) ∧ row = rowFrame line (content line) := by
  rw [encode, hrows, mem_encodeRows]
  simp only [List.not_mem_nil, false_or, getD_base]

end Encoder

end Buzz.Terminal
