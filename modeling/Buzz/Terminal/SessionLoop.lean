import Buzz.Terminal.Grid
import Buzz.Terminal.Publisher

namespace Buzz.Terminal
set_option autoImplicit true

/-- The damage covers a line. -/
def TermDamage.Covers (d : TermDamage) (line : ℕ) : Prop :=
  match d with
  | .full => True
  | .partialLines lines => line ∈ lines

/-- The engine reports at least what is damaged. -/
def TermDamage.Within (d reported : TermDamage) : Prop :=
  match d, reported with
  | _, .full => True
  | .full, .partialLines _ => False
  | .partialLines lines, .partialLines reported => lines ⊆ reported

theorem TermDamage.Within.covers {d reported : TermDamage} (h : d.Within reported)
    (hline : d.Covers line) : reported.Covers line := by
  cases reported with
  | full => trivial
  | partialLines reported =>
    cases d with
    | full => exact h.elim
    | partialLines lines => exact h hline

/-- A change of the engine: what is damaged stays so, a row that changes is damaged, and another
viewport damages everything. -/
structure Term.Changes (t t' : Term) : Prop where
  damage : t.damage.Within t'.damage
  row : ∀ line, t'.viewport = t.viewport → t'.screenRow line ≠ t.screenRow line →
    t'.damage.Covers line
  viewport : t'.viewport ≠ t.viewport → t'.damage = .full

/-- A terminal session: the engine, the reader thread's encoders and the publisher with what it
has sent. `bySnapshot` says whether the last complete frame was a snapshot, and `suppressed` are the
lines that were captured since and not sent. -/
structure FrameSession (Id : Type) where
  term : Term
  encoder : Encoder
  snapshotEncoder : Encoder
  line : Line Id
  bySnapshot : Bool
  suppressed : List ℕ

variable {Id : Type} [DecidableEq Id]

namespace FrameSession

def new (term : Term) : FrameSession Id where
  term := term
  encoder := .new
  snapshotEncoder := .new
  line := .new term.viewport
  bySnapshot := false
  suppressed := []

/-- The lines of a capture that its frame does not carry. -/
def skipped (captured : List ℕ) (frame : Frame) : List ℕ :=
  captured.filter fun line => frame.rows.all fun row => row.line ≠ line

/-- A frame is offered to the publisher. -/
def offered (s : FrameSession Id) (frame : Frame) (bySnapshot : Bool) (captured : List ℕ) : FrameSession Id :=
  if Line.Taken s.line.publisher frame ∧ frame.full = true then
    { s with line := s.line.exec (.offer frame), bySnapshot, suppressed := [] }
  else
    { s with line := s.line.exec (.offer frame), suppressed := s.suppressed ++ skipped captured frame }

section
variable (hash : List Cell → UInt64)

/-- The reader's snapshot. -/
def snapshot (s : FrameSession Id) : FrameSession Id :=
  let done := s.snapshotEncoder.encode hash s.term.captureAll
  if done.2.isEmpty then { s with snapshotEncoder := done.1 }
  else offered { s with snapshotEncoder := done.1 } done.2 true []

/-- The reader's damage capture: when credit is gone meanwhile, a snapshot takes its place. -/
def render (s : FrameSession Id) (reported : TermDamage) : FrameSession Id :=
  let raw := s.term.capture reported
  let done := s.encoder.encode hash raw.1
  let captured := raw.1.rows.map Prod.fst
  let s := { s with term := raw.2, encoder := done.1 }
  if done.2.isEmpty then { s with suppressed := s.suppressed ++ captured }
  else match s.line.publisher.offer done.2 with
    | .ok _ => s.offered done.2 false captured
    | .error _ => s.snapshot hash

/-- One iteration of the reader thread after its read has been parsed. -/
def read (s : FrameSession Id) (reported : TermDamage) : FrameSession Id :=
  if s.line.publisher.requiresSnapshot then s.snapshot hash else s.render hash reported

/-- Republish the viewport after the viewport itself moved. -/
def publishViewport (s : FrameSession Id) : FrameSession Id :=
  s.offered (Encoder.new.encode hash s.term.captureAll).2 true []

/-- `terminal_scroll`, and input that returns to the live edge. -/
def scroll (s : FrameSession Id) (term : Term) : FrameSession Id :=
  publishViewport hash { s with term }

/-- `terminal_resize`. -/
def resize (s : FrameSession Id) (term : Term) : FrameSession Id :=
  publishViewport hash { s with term, line := s.line.exec (.resizeApplied term.viewport) }

/-- `terminal_attach` with a fresh subscription. -/
def attach (s : FrameSession Id) (id : Id) : FrameSession Id :=
  { s with
    line := s.line.exec (.attach id (Encoder.new.encode hash s.term.captureAll).2)
    bySnapshot := true
    suppressed := [] }

end

/-- Acknowledgements, confirmations, faults and the close, whatever their arguments. -/
def control (s : FrameSession Id) (op : PublisherOp Id) : FrameSession Id :=
  { s with line := s.line.exec op }

end FrameSession

/-- What happens to a session, each taken as one step. -/
inductive SessionOp (Id : Type) where
  | feed (term : Term)
  | read (reported : TermDamage)
  | scroll (term : Term)
  | resize (term : Term)
  | attach (id : Id)
  | acknowledge (id : Id) (sequence : ℕ)
  | viewportReady (id : Id) (viewport : Viewport)
  | fault (id : Id)
  | close

namespace FrameSession

/-- The rows that the hash is trusted on are those of the terminal. -/
def RowsIn (H : RowHasher) (t : Term) : Prop :=
  ∀ line, t.screenRow line ∈ H.rows

inductive Step (H : RowHasher) (s : FrameSession Id) : SessionOp Id → FrameSession Id → Prop where
  | feed {term : Term} (h : s.term.Changes term) (hview : term.viewport = s.term.viewport)
      (hrows : RowsIn H term) : Step H s (.feed term) { s with term }
  | read {reported : TermDamage} (h : s.term.damage.Within reported) :
      Step H s (.read reported) (s.read H.hash reported)
  | scroll {term : Term} (h : s.term.Changes term) (hview : term.viewport = s.term.viewport)
      (hrows : RowsIn H term) : Step H s (.scroll term) (s.scroll H.hash term)
  | resize {term : Term} (h : s.term.Changes term) (hrows : RowsIn H term) :
      Step H s (.resize term) (s.resize H.hash term)
  | attach {id : Id} : Step H s (.attach id) (s.attach H.hash id)
  | acknowledge {id : Id} {sequence : ℕ} :
      Step H s (.acknowledge id sequence) (s.control (.acknowledge id sequence))
  | viewportReady {id : Id} {viewport : Viewport} :
      Step H s (.viewportReady id viewport) (s.control (.viewportReady id viewport))
  | fault {id : Id} : Step H s (.fault id) (s.control (.fault id))
  | close : Step H s .close (s.control .close)

end FrameSession

/-- A frame reaches the renderer. A frame that could not be put on the wire faults the session. -/
def deliver (grid : Option TerminalGrid) (frame : Frame) : Option TerminalGrid :=
  match wireFrame frame with
  | some wire => some (TerminalGrid.receive grid wire)
  | none => grid

/-- The renderer's grid shows rows and a cursor. -/
structure Pictures (grid : Option TerminalGrid) (viewport : Viewport) (drawn : ℕ → List Cell)
    (cursor : CursorFrame) : Prop where
  grid : ∃ g, grid = some g ∧ g.viewport = viewport ∧ g.cursor = cursor ∧
    ∀ line < viewport.screenLines, g.rows[line]? = some (retained (drawn line))

def SizedGrid (grid : Option TerminalGrid) : Prop :=
  ∀ g, grid = some g → g.Sized

variable {grid : Option TerminalGrid} {frame : Frame} {content drawn : ℕ → List Cell}

theorem deliver_sized (h : SizedGrid grid) (frame : Frame) : SizedGrid (deliver grid frame) := by
  unfold deliver
  split
  · intro g hg
    rw [← Option.some.inj hg]
    exact TerminalGrid.receive_sized h _
  · exact h

theorem deliver_complete (h : SizedGrid grid) (hshows : frame.Shows content)
    (hall : ∀ line < frame.viewport.screenLines, frame.Carries line) :
    Pictures (deliver grid frame) frame.viewport content frame.cursor := by
  have hwire := wireFrame_eq hshows
  obtain ⟨hviewport, hcursor, hrows⟩ := TerminalGrid.receive_wire hshows hwire h
  refine ⟨_, ?_, hviewport, hcursor, fun line hline => (hrows line hline).1 (hall line hline)⟩
  rw [deliver, hwire]

/-- What is drawn after a frame of the same viewport. -/
noncomputable def drawOver (frame : Frame) (content drawn : ℕ → List Cell) (line : ℕ) : List Cell :=
  open Classical in if frame.Carries line then content line else drawn line

theorem drawOver_carried (h : frame.Carries line) : drawOver frame content drawn line = content line :=
  if_pos h

theorem drawOver_not_carried (h : ¬ frame.Carries line) : drawOver frame content drawn line = drawn line :=
  if_neg h

theorem deliver_over (hp : Pictures grid viewport drawn cursor) (h : SizedGrid grid)
    (hshows : frame.Shows content) (hview : frame.viewport = viewport) :
    Pictures (deliver grid frame) viewport (drawOver frame content drawn) frame.cursor := by
  obtain ⟨g, hgrid, hgview, -, hdrawn⟩ := hp.grid
  have hwire := wireFrame_eq hshows
  obtain ⟨hviewport, hcursor, hrows⟩ := TerminalGrid.receive_wire hshows hwire h
  refine ⟨_, ?_, hviewport.trans hview, hcursor, fun line hline => ?_⟩
  · rw [deliver, hwire]
  · by_cases hcarries : frame.Carries line
    · rw [drawOver_carried hcarries]
      exact (hrows line (hview ▸ hline)).1 hcarries
    · rw [drawOver_not_carried hcarries, ← hdrawn line hline]
      exact (hrows line (hview ▸ hline)).2 hcarries g hgrid (hgview.trans hview.symm)

/-- Whatever the renderer had, these frames leave it with this picture. -/
def Drawn (frames : List Frame) (viewport : Viewport) (drawn : ℕ → List Cell)
    (cursor : CursorFrame) : Prop :=
  ∀ grid, SizedGrid grid → Pictures (frames.foldl deliver grid) viewport drawn cursor

theorem foldl_deliver_sized (h : SizedGrid grid) (frames : List Frame) :
    SizedGrid (frames.foldl deliver grid) := by
  induction frames generalizing grid with
  | nil => exact h
  | cons frame frames ih => exact ih (deliver_sized h frame)

theorem Drawn.snoc (h : Drawn frames viewport drawn cursor) (hshows : frame.Shows content)
    (hview : frame.viewport = viewport) :
    Drawn (frames ++ [frame]) viewport (drawOver frame content drawn) frame.cursor := by
  intro grid hgrid
  rw [List.foldl_append]
  exact deliver_over (h grid hgrid) (foldl_deliver_sized hgrid frames) hshows hview

end Buzz.Terminal
