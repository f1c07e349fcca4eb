import Buzz.Terminal.Reader

namespace Buzz.Terminal
set_option autoImplicit true

/-- The plain calls of a small parser. -/
inductive Call where
  | input (b : UInt8)
  | linefeed
  | carriageReturn
  | backspace
  | setPrivateMode (params : List UInt8)
  | unsetPrivateMode (params : List UInt8)
deriving DecidableEq

/-- The states of a small parser: it knows characters, controls, `ESC c` and a few `CSI`
sequences. -/
inductive SmallState where
  | ground
  | escape
  | csi (params : List UInt8)
deriving DecidableEq

/-- `?2026`, the private mode of synchronized updates. -/
def syncUpdate : List UInt8 := [0x3f, 0x32, 0x30, 0x32, 0x36]

/-- `ESC [ ? 2026 h`. -/
def BSU_CSI : List UInt8 := [ESC, 0x5b] ++ syncUpdate ++ [0x68]

/-- `ESC [ ? 2026 l`. -/
def ESU_CSI : List UInt8 := [ESC, 0x5b] ++ syncUpdate ++ [0x6c]

def executeByte (b : UInt8) : List (Callback Call) :=
  if b = 0x08 then [.plain .backspace]
  else if b = 0x09 then [.putTab 1]
  else if b = 0x0a then [.plain .linefeed]
  else if b = 0x0d then [.plain .carriageReturn]
  else if b < 0x20 then []
  else [.plain (.input b)]

def csiDispatch (params : List UInt8) (b : UInt8) : List (Callback Call) :=
  if b = 0x4a then [.clearScreen .all]
  else if b = 0x4b then [.clearLine .all]
  else if b = 0x5a then [.moveBackwardTabs 1]
  else if b = 0x68 then [.plain (.setPrivateMode params)]
  else if b = 0x6c then [.plain (.unsetPrivateMode params)]
  else []

def smallStep : SmallState → UInt8 → SmallState × List (Callback Call)
  | .ground, b => if b = ESC then (.escape, []) else (.ground, executeByte b)
  | .escape, b =>
    if b = ESC then (.escape, [])
    else if b = 0x5b then (.csi [], [])
    else if b = 0x63 then (.ground, [.resetState])
    else (.ground, [])
  | .csi params, b =>
    if b = ESC then (.escape, [])
    else if 0x40 ≤ b ∧ b ≤ 0x7e then (.ground, csiDispatch params b)
    else (.csi (params ++ [b]), [])

/-- The parser with the bytes of an update, while there is one. -/
structure SmallProcessor where
  state : SmallState
  held : Option (List UInt8)

namespace SmallProcessor

def buffered (p : SmallProcessor) : List UInt8 :=
  p.held.getD []

/-- All that is held goes through the parser. -/
def release (p : SmallProcessor) : SmallProcessor × List (Callback Call) :=
  let (state, callbacks) := parseBytes smallStep p.state p.buffered
  (⟨state, none⟩, callbacks)

/-- Outside of an update a byte is parsed; inside it is held until the end marker has come. -/
def advanceByte (p : SmallProcessor) (b : UInt8) : SmallProcessor × List (Callback Call) :=
  match p.held with
  | none =>
    let (state, callbacks) := smallStep p.state b
    let opened := callbacks.any fun
      | .plain (.setPrivateMode params) => params == syncUpdate
      | _ => false
    (⟨state, if opened then some [] else none⟩, callbacks)
  | some buffer =>
    let p' : SmallProcessor := ⟨p.state, some (buffer ++ [b])⟩
    if ESU_CSI.isSuffixOf p'.buffered then p'.release else (p', [])

def advance : SmallProcessor → List UInt8 → SmallProcessor × List (Callback Call)
  | p, [] => (p, [])
  | p, b :: bytes =>
    let (p', callbacks) := p.advanceByte b
    let (p'', more) := advance p' bytes
    (p'', callbacks ++ more)

end SmallProcessor

def smallVte : Vte Call SmallState SmallProcessor where
  start := .ground
  step := smallStep
  new := ⟨.ground, none⟩
  state := SmallProcessor.state
  buffered := SmallProcessor.buffered
  advance := SmallProcessor.advance
  stopSync := SmallProcessor.release

section Laws

/-- The bytes of an update stay in their order: some are parsed, the rest is held. -/
theorem SmallProcessor.advanceByte_splits (p : SmallProcessor) (b : UInt8) :
    ∃ front, p.buffered ++ [b] = front ++ (p.advanceByte b).1.buffered ∧
      parseBytes smallStep p.state front = ((p.advanceByte b).1.state, (p.advanceByte b).2) := by
  rw [advanceByte]
  cases hheld : p.held with
  | none =>
    refine ⟨[b], ?_, ?_⟩
    · dsimp only
      rw [buffered, buffered, hheld]
      split
      · rfl
      · rfl
    · simp only [parseBytes, List.append_nil]
  | some buffer =>
    have hbuffer : p.buffered = buffer := by rw [buffered, hheld, Option.getD_some]
    rw [hbuffer]
    dsimp only
    split
    · exact ⟨buffer ++ [b], (List.append_nil _).symm, rfl⟩
    · exact ⟨[], rfl, rfl⟩

theorem SmallProcessor.advance_splits (p : SmallProcessor) (bytes : List UInt8) :
    ∃ front, p.buffered ++ bytes = front ++ (p.advance bytes).1.buffered ∧
      parseBytes smallStep p.state front = ((p.advance bytes).1.state, (p.advance bytes).2) := by
  induction bytes generalizing p with
  | nil => exact ⟨[], List.append_nil _, rfl⟩
  | cons b bytes ih =>
    obtain ⟨front, hfront, hparse⟩ := p.advanceByte_splits b
    obtain ⟨back, hback, hrest⟩ := ih (p.advanceByte b).1
    refine ⟨front ++ back, ?_, ?_⟩
    · have hcons : p.buffered ++ b :: bytes = p.buffered ++ [b] ++ bytes := by
        rw [List.append_assoc, List.singleton_append]
      rw [hcons, hfront, List.append_assoc, hback, ← List.append_assoc]
      rfl
    · rw [parseBytes_append, hparse]
      dsimp only
      rw [hrest]
      rfl

theorem smallVte_buffers : smallVte.Buffers := by
  have hseen : ∀ p bytes, ∃ front, smallVte.seen p bytes = front ∧
      smallVte.buffered p ++ bytes = front ++ smallVte.buffered (smallVte.advance p bytes).1 ∧
      smallVte.parse (smallVte.state p) front =
        (smallVte.state (smallVte.advance p bytes).1, (smallVte.advance p bytes).2) := by
    intro p bytes
    obtain ⟨front, hfront, hparse⟩ := SmallProcessor.advance_splits p bytes
    refine ⟨front, ?_, hfront, hparse⟩
    have hsplit : smallVte.buffered p ++ bytes =
        front ++ smallVte.buffered (smallVte.advance p bytes).1 := hfront
    have hlen := congrArg List.length hsplit
    rw [List.length_append, List.length_append] at hlen
    have hvisible : smallVte.visible p bytes = front.length := by
      rw [Vte.visible, Vte.syncBytesCount, Vte.syncBytesCount]
      omega
    rw [Vte.seen, hvisible, hsplit, List.take_left]
  constructor
  case new_state => rfl
  case new_buffered => rfl
  case stop_buffered => exact fun p => rfl
  case stop_parse => exact fun p => rfl
  case advance_buffered =>
    intro p bytes
    obtain ⟨front, hfront, hsplit, -⟩ := hseen p bytes
    rw [hfront, hsplit]
  case advance_parse =>
    intro p bytes
    obtain ⟨front, hfront, -, hparse⟩ := hseen p bytes
    rw [hfront, hparse]

def smallPhase : SmallState → Phase
  | .ground => .ground
  | _ => .sequence

theorem executeByte_light (b : UInt8) :
    (∀ c ∈ executeByte b, c.IsLight) ∧ (executeByte b).length ≤ 1 := by
  rw [executeByte]
  repeat' split
  all_goals simp [Callback.IsLight]

/-- A byte that a sequence goes on with dispatches nothing. -/
theorem smallStep_sequence {s : SmallState} (b : UInt8) (hs : smallPhase s = .sequence)
    (hs' : smallPhase (smallStep s b).1 = .sequence) : (smallStep s b).2 = [] := by
  cases s with
  | ground => cases hs
  | escape =>
    rw [smallStep] at hs' ⊢
    split_ifs at hs' ⊢
    · rfl
    · rfl
    · cases hs'
    · rfl
  | csi params =>
    rw [smallStep] at hs' ⊢
    split_ifs at hs' ⊢
    · rfl
    · cases hs'
    · rfl

theorem smallPhase_ne_text (s : SmallState) : smallPhase s ≠ .text := by
  intro h
  cases s with
  | _ => cases h

theorem smallStep_ground (b : UInt8) : smallVte.step .ground b =
    if b = ESC then (.escape, []) else (.ground, executeByte b) := rfl

theorem smallVte_grammar : smallVte.Grammar smallPhase fun _ => 0 := by
  have hground : ∀ s, smallPhase s = .ground → s = .ground := by
    intro s hs
    cases s with
    | ground => rfl
    | _ => cases hs
  constructor
  case start => rfl
  case owed_le => exact fun _ => Nat.zero_le _
  case owed_sequence => exact fun _ _ _ => rfl
  case ground_light =>
    intro s b hs c hc
    rw [hground s hs] at hc
    by_cases hb : b = ESC
    · rw [smallStep_ground, if_pos hb] at hc
      cases hc
    · rw [smallStep_ground, if_neg hb] at hc
      exact (executeByte_light b).1 c hc
  case ground_stays =>
    intro s b hs _
    rw [hground s hs, smallStep_ground]
    split
    · exact Nat.zero_le _
    · exact (executeByte_light b).2
  case ground_opens =>
    intro s b hs hs'
    rw [hground s hs] at hs' ⊢
    by_cases hb : b = ESC
    · rw [smallStep_ground, if_pos hb]
      exact ⟨hb, rfl, le_rfl⟩
    · rw [smallStep_ground, if_neg hb] at hs'
      exact absurd rfl hs'
  case sequence_stays =>
    intro s b hs hs'
    have hnone : (smallVte.step s b).2 = [] := smallStep_sequence b hs hs'
    rw [hnone]
    exact ⟨fun c hc => (nomatch hc), Nat.zero_le _⟩
  case sequence_text => exact fun s b _ hs' => absurd hs' (smallPhase_ne_text _)
  case text_stays => exact fun s b hs _ => absurd hs (smallPhase_ne_text s)
  case text_escape => exact fun s b hs _ => absurd hs (smallPhase_ne_text s)

end Laws

/-- A row of some width with a cursor on it. -/
structure Screen where
  columns : ℕ
  cursor : ℕ
  inside : cursor < max columns 1

namespace Screen

/-- The cursor goes to a column, or to the last one. -/
def goto (s : Screen) (column : ℕ) : Screen where
  columns := s.columns
  cursor := min column (s.columns - 1)
  inside := by omega

def width (s : Screen) (columns : ℕ) : Screen where
  columns := columns
  cursor := min s.cursor (columns - 1)
  inside := by omega

/-- Stops are eight columns apart. -/
def backTab (s : Screen) : Screen :=
  s.goto ((s.cursor - 1) / 8 * 8)

def forward (callback : Callback Call) (s : Screen) : Screen :=
  match callback with
  | .plain (.input _) => s.goto (s.cursor + 1)
  | .plain .carriageReturn => s.goto 0
  | .plain .backspace => s.goto (s.cursor - 1)
  | .putTab count => s.goto ((s.cursor / 8 + count) * 8)
  | .resetState => s.goto 0
  | _ => s

theorem forward_columns (callback : Callback Call) (s : Screen) :
    (s.forward callback).columns = s.columns := by
  cases callback with
  | plain call => cases call <;> rfl
  | _ => rfl

theorem backTab_columns (count : ℕ) (s : Screen) : (backTab^[count] s).columns = s.columns := by
  induction count generalizing s with
  | zero => rfl
  | succ count ih =>
    rw [Function.iterate_succ_apply, ih]
    rfl

end Screen

instance : GridHandler Call Screen where
  cursorColumn := Screen.cursor
  moveBackwardTabs count := Screen.backTab^[count]
  columns := Screen.columns
  forward := Screen.forward
  resize size s := s.width size.columns
  cursor_lt := Screen.inside
  columns_resize _ _ := rfl
  columns_forward := Screen.forward_columns
  columns_backTab := Screen.backTab_columns
  backTab_le s := by
    have hstop : (s.cursor - 1) / 8 * 8 ≤ s.cursor := (Nat.div_mul_le_self _ _).trans (Nat.sub_le _ _)
    exact (min_le_left _ _).trans hstop

/-- A screen with the cursor in its first column. -/
def Screen.blank (columns : ℕ) : Screen where
  columns := columns
  cursor := 0
  inside := by omega

end Buzz.Terminal
