import Buzz.Terminal.SmallVte
import Buzz.Lib.Run

namespace Buzz.Terminal
set_option autoImplicit true

/-- Each byte of a run of the parser dispatches callbacks of some kind. -/
def Vte.EachByte (vte : Vte C S P) (Good : List (Callback C) → Prop) : S → List UInt8 → Prop
  | _, [] => True
  | s, b :: bytes => Good (vte.step s b).2 ∧ vte.EachByte Good (vte.step s b).1 bytes

instance decidableEachByte (vte : Vte C S P) (Good : List (Callback C) → Prop)
    [DecidablePred Good] : ∀ (s : S) (bytes : List UInt8), Decidable (vte.EachByte Good s bytes)
  | _, [] => isTrue trivial
  | s, b :: bytes =>
    have : Decidable (vte.EachByte Good (vte.step s b).1 bytes) :=
      decidableEachByte vte Good _ bytes
    inferInstanceAs (Decidable (_ ∧ _))

/-- A grid on which a row weighs half of the worst atom at most, and that half is a whole number
or large. -/
structure Roomy (columns lines scrollback : ℕ) : Prop where
  row : 2 * max columns 1 ≤ maxAtomWork columns lines scrollback
  half : maxAtomWork columns lines scrollback % 2 = 0 ∨ 384 ≤ maxAtomWork columns lines scrollback

section Price

variable {C S P : Type} {vte : Vte C S P} {phase : S → Phase} {owed : S → ℕ}
  {columns lines scrollback : ℕ}

theorem Vte.parse_cons (s : S) (b : UInt8) (bytes : List UInt8) :
    vte.parse s (b :: bytes) =
      ((vte.parse (vte.step s b).1 bytes).1,
        (vte.step s b).2 ++ (vte.parse (vte.step s b).1 bytes).2) :=
  parseBytes_cons vte.step s b bytes

/-- What each byte pays for, the run pays for: a step that leaves a debt, and pays the one it
found, leaves no more than its unit to pay. -/
theorem Vte.parse_amortized {debt : S → ℕ} {unit factor : ℕ} {Good : List (Callback C) → Prop}
    {Allowed : UInt8 → Prop}
    (hstep : ∀ s b, Allowed b → Good (vte.step s b).2 →
      factor * totalPrice columns lines scrollback (vte.step s b).2 + debt (vte.step s b).1 ≤
        unit + debt s)
    (s : S) (bytes : List UInt8) (hallowed : ∀ b ∈ bytes, Allowed b)
    (hgood : vte.EachByte Good s bytes) :
    factor * totalPrice columns lines scrollback (vte.parse s bytes).2 +
        debt (vte.parse s bytes).1 ≤ bytes.length * unit + debt s := by
  induction bytes generalizing s with
  | nil =>
    rw [parse, parseBytes, totalPrice, List.map_nil, List.sum_nil, List.length_nil]
    dsimp only
    omega
  | cons b bytes ih =>
    have hfirst := hstep s b (hallowed b List.mem_cons_self) hgood.1
    have hrest := ih (vte.step s b).1 (fun b' h => hallowed b' (List.mem_cons_of_mem b h)) hgood.2
    rw [parse_cons, totalPrice_append, Nat.mul_add, List.length_cons, Nat.succ_mul]
    dsimp only
    omega

/-- What may be paid beyond the bytes of a plain run: a sequence that was open before it. -/
def plainDebt (columns lines scrollback : ℕ) (phase : S → Phase) (owed : S → ℕ) (s : S) : ℕ :=
  match phase s with
  | .ground => max columns 1 * owed s
  | _ => maxAtomWork columns lines scrollback - max columns 1

/-- Twice what may be paid beyond the bytes of any run. -/
def escapeDebt (columns lines scrollback : ℕ) (phase : S → Phase) (owed : S → ℕ) (s : S) : ℕ :=
  match phase s with
  | .ground => maxAtomWork columns lines scrollback * owed s
  | .sequence => maxAtomWork columns lines scrollback
  | .text => max (maxAtomWork columns lines scrollback)
      (2 * min 256 (maxAtomWork columns lines scrollback))

/-- A byte outside a sequence that opens none is paid for by what is owed before it. -/
theorem ground_price (hgrammar : vte.Grammar phase owed) {s : S} {b : UInt8}
    (hs : phase s = .ground) (columns lines scrollback : ℕ) :
    totalPrice columns lines scrollback (vte.step s b).2 ≤
      (vte.step s b).2.length * max columns 1 :=
  totalPrice_light (hgrammar.ground_light s b hs) columns lines scrollback

/-- A byte other than `ESC` costs a row and what is owed at most. -/
theorem step_plain (hgrammar : vte.Grammar phase owed)
    (hrow : 2 * max columns 1 ≤ maxAtomWork columns lines scrollback) (s : S) (b : UInt8)
    (hb : b ≠ ESC) (hatom : totalPrice columns lines scrollback (vte.step s b).2 ≤
      maxAtomWork columns lines scrollback) :
    1 * totalPrice columns lines scrollback (vte.step s b).2 +
        plainDebt columns lines scrollback phase owed (vte.step s b).1 ≤
      max columns 1 + plainDebt columns lines scrollback phase owed s := by
  rw [one_mul, plainDebt, plainDebt]
  cases hs : phase s with
  | ground =>
    cases hs' : phase (vte.step s b).1 with
    | ground =>
      have hlen := Nat.mul_le_mul_right (max columns 1) (hgrammar.ground_stays s b hs hs')
      have hprice := ground_price (b := b) hgrammar hs columns lines scrollback
      rw [Nat.add_mul, Nat.add_mul, one_mul] at hlen
      dsimp only
      rw [Nat.mul_comm _ (owed s), Nat.mul_comm _ (owed (vte.step s b).1)]
      omega
    | _ => exact absurd (hgrammar.ground_opens s b hs (by rw [hs']; decide)).1 hb
  | sequence =>
    cases hs' : phase (vte.step s b).1 with
    | ground =>
      have howed := hgrammar.owed_sequence s b (by rw [hs]; decide)
      dsimp only
      rw [howed]
      omega
    | sequence =>
      obtain ⟨hlight, hlen⟩ := hgrammar.sequence_stays s b hs hs'
      have hprice := totalPrice_light hlight columns lines scrollback
      have hone := Nat.mul_le_mul_right (max columns 1) hlen
      dsimp only
      omega
    | text =>
      rw [hgrammar.sequence_text s b hs hs']
      exact Nat.add_le_add_right (Nat.zero_le _) _
  | text =>
    cases hs' : phase (vte.step s b).1 with
    | ground =>
      have howed := hgrammar.owed_sequence s b (by rw [hs]; decide)
      dsimp only
      rw [howed]
      omega
    | sequence => exact absurd (hgrammar.text_escape s b hs hs').1 hb
    | text =>
      rw [hgrammar.text_stays s b hs hs']
      exact Nat.add_le_add_right (Nat.zero_le _) _

/-- Any byte costs half of the worst atom and what is owed at most. -/
theorem step_escape (hgrammar : vte.Grammar phase owed)
    (hrow : 2 * max columns 1 ≤ maxAtomWork columns lines scrollback) (s : S) (b : UInt8)
    (hatom : totalPrice columns lines scrollback (vte.step s b).2 ≤
      maxAtomWork columns lines scrollback) :
    2 * totalPrice columns lines scrollback (vte.step s b).2 +
        escapeDebt columns lines scrollback phase owed (vte.step s b).1 ≤
      maxAtomWork columns lines scrollback +
        escapeDebt columns lines scrollback phase owed s := by
  rw [escapeDebt, escapeDebt]
  cases hs : phase s with
  | ground =>
    have hprice := ground_price (b := b) hgrammar hs columns lines scrollback
    have hhalf : 2 * ((vte.step s b).2.length * max columns 1) ≤
        (vte.step s b).2.length * maxAtomWork columns lines scrollback := by
      rw [Nat.mul_left_comm]
      exact Nat.mul_le_mul_left _ hrow
    cases hs' : phase (vte.step s b).1 with
    | ground =>
      have hlen := Nat.mul_le_mul_right (maxAtomWork columns lines scrollback)
        (hgrammar.ground_stays s b hs hs')
      rw [Nat.add_mul, Nat.add_mul, one_mul] at hlen
      dsimp only
      rw [Nat.mul_comm _ (owed s), Nat.mul_comm _ (owed (vte.step s b).1)]
      omega
    | sequence =>
      have hlen := Nat.mul_le_mul_right (maxAtomWork columns lines scrollback)
        (hgrammar.ground_opens s b hs (by rw [hs']; decide)).2.2
      dsimp only
      rw [Nat.mul_comm _ (owed s)]
      omega
    | text =>
      have hopens := (hgrammar.ground_opens s b hs (by rw [hs']; decide)).2.1
      rw [hs'] at hopens
      cases hopens
  | sequence =>
    cases hs' : phase (vte.step s b).1 with
    | ground =>
      have howed := hgrammar.owed_sequence s b (by rw [hs]; decide)
      dsimp only
      rw [howed]
      omega
    | sequence =>
      obtain ⟨hlight, hlen⟩ := hgrammar.sequence_stays s b hs hs'
      have hprice := totalPrice_light hlight columns lines scrollback
      have hone := Nat.mul_le_mul_right (max columns 1) hlen
      dsimp only
      omega
    | text =>
      rw [hgrammar.sequence_text s b hs hs', totalPrice, List.map_nil, List.sum_nil]
      dsimp only
      omega
  | text =>
    cases hs' : phase (vte.step s b).1 with
    | ground =>
      have howed := hgrammar.owed_sequence s b (by rw [hs]; decide)
      dsimp only
      rw [howed]
      omega
    | sequence =>
      obtain ⟨-, hplain, hlen⟩ := hgrammar.text_escape s b hs hs'
      rw [totalPrice_plain hplain] at hatom ⊢
      dsimp only
      omega
    | text =>
      rw [hgrammar.text_stays s b hs hs']
      exact Nat.add_le_add_right (Nat.zero_le _) _

/-- A plain slice costs what is left of the budget and one atom at most. -/
theorem plain_slice_price (hgrammar : vte.Grammar phase owed) (hroomy : Roomy columns lines scrollback)
    {s : S} {bytes : List UInt8} (hplain : ∀ b ∈ bytes, b ≠ ESC)
    (hatoms : vte.EachByte (fun callbacks => totalPrice columns lines scrollback callbacks ≤
      maxAtomWork columns lines scrollback) s bytes) {width remaining : ℕ}
    (hlen : bytes.length ≤ width) (hwidth : width = 1 ∨ width * max columns 1 ≤ remaining) :
    totalPrice columns lines scrollback (vte.parse s bytes).2 ≤
      remaining + maxAtomWork columns lines scrollback := by
  have htotal := Vte.parse_amortized (step_plain hgrammar hroomy.row) s bytes hplain hatoms
  have hdebt : plainDebt columns lines scrollback phase owed s + max columns 1 ≤
      maxAtomWork columns lines scrollback := by
    have howed := Nat.mul_le_mul_left (max columns 1) (hgrammar.owed_le s)
    have hrow := hroomy.row
    rw [plainDebt]
    split
    · omega
    · omega
  have hbytes := Nat.mul_le_mul_right (max columns 1) hlen
  cases hwidth with
  | inl hone =>
    rw [hone] at hbytes
    omega
  | inr hpaid => omega

/-- So does a slice that may hold escapes. -/
theorem escape_slice_price (hgrammar : vte.Grammar phase owed)
    (hroomy : Roomy columns lines scrollback) {s : S} {bytes : List UInt8}
    (hatoms : vte.EachByte (fun callbacks => totalPrice columns lines scrollback callbacks ≤
      maxAtomWork columns lines scrollback) s bytes) {width remaining : ℕ}
    (hlen : bytes.length ≤ width) (hcap : width ≤ MAX_SLICE)
    (hwidth : width = 1 ∨
      width * max (maxAtomWork columns lines scrollback / 2) 1 ≤ remaining) :
    totalPrice columns lines scrollback (vte.parse s bytes).2 ≤
      remaining + maxAtomWork columns lines scrollback := by
  cases hwidth with
  | inl hone =>
    -- One byte cannot hold two atoms.
    cases bytes with
    | nil => exact Nat.zero_le _
    | cons b rest =>
      have hrest : rest = [] := by
        rw [hone, List.length_cons] at hlen
        exact List.length_eq_zero_iff.mp (by omega)
      rw [hrest, Vte.parse_cons, Vte.parse, parseBytes, List.append_nil]
      exact hatoms.1.trans (Nat.le_add_left _ _)
  | inr hpaid =>
    have htotal := Vte.parse_amortized
      (fun s b (_ : True) h => step_escape hgrammar hroomy.row s b h) s bytes
      (fun _ _ => trivial) hatoms
    have hdebt : escapeDebt columns lines scrollback phase owed s ≤
        max (maxAtomWork columns lines scrollback)
          (2 * min 256 (maxAtomWork columns lines scrollback)) := by
      have howed := Nat.mul_le_mul_left (maxAtomWork columns lines scrollback)
        (hgrammar.owed_le s)
      rw [escapeDebt]
      split
      · omega
      · omega
      · exact le_rfl
    have hbytes := Nat.mul_le_mul_right (maxAtomWork columns lines scrollback) hlen
    have hrow := hroomy.row
    have hhalf : max (maxAtomWork columns lines scrollback / 2) 1 =
        maxAtomWork columns lines scrollback / 2 := by omega
    have hdouble : width * maxAtomWork columns lines scrollback =
        2 * (width * (maxAtomWork columns lines scrollback / 2)) +
          width * (maxAtomWork columns lines scrollback % 2) := by
      rw [← Nat.mul_assoc, Nat.mul_comm 2 width, Nat.mul_assoc, ← Nat.mul_add, Nat.div_add_mod]
    have hbit : maxAtomWork columns lines scrollback % 2 ≤ 1 := by omega
    have hodd := Nat.mul_le_mul_left width hbit
    rw [hhalf] at hpaid
    rw [MAX_SLICE] at hcap
    cases hroomy.half with
    | inl heven =>
      rw [heven] at hdouble
      omega
    | inr hlarge => omega

end Price

section Quiet

variable {C S P H : Type} {vte : Vte C S P} {t : Turn P H}

/-- A slice that shows the parser only bytes of its own, and none that weighs more than the worst
atom by itself. -/
structure Turn.Quiet (vte : Vte C S P) (t : Turn P H) : Prop where
  holds : vte.buffered t.feeder.parser = [] ∨
    vte.visible t.feeder.parser (t.feeder.nextSlice t.spent) = 0
  below : vte.syncBytesCount
    (vte.advance t.feeder.parser (t.feeder.nextSlice t.spent)).1 < SYNC_CAP
  atoms : vte.EachByte
    (fun callbacks => totalPrice t.feeder.columns t.feeder.lines t.feeder.scrollback callbacks ≤
      maxAtomWork t.feeder.columns t.feeder.lines t.feeder.scrollback)
    (vte.state t.feeder.parser) (vte.seen t.feeder.parser (t.feeder.nextSlice t.spent))

instance (t : Turn P H) : Decidable (t.Quiet vte) :=
  decidable_of_iff
    ((vte.buffered t.feeder.parser = [] ∨
        vte.visible t.feeder.parser (t.feeder.nextSlice t.spent) = 0) ∧
      vte.syncBytesCount (vte.advance t.feeder.parser (t.feeder.nextSlice t.spent)).1 < SYNC_CAP ∧
      vte.EachByte (fun callbacks =>
          totalPrice t.feeder.columns t.feeder.lines t.feeder.scrollback callbacks ≤
            maxAtomWork t.feeder.columns t.feeder.lines t.feeder.scrollback)
        (vte.state t.feeder.parser) (vte.seen t.feeder.parser (t.feeder.nextSlice t.spent)))
    ⟨fun h => ⟨h.1, h.2.1, h.2.2⟩, fun h => ⟨h.holds, h.below, h.atoms⟩⟩

/-- The bytes that a quiet slice shows come first in it. -/
theorem Turn.Quiet.seen_prefix (h : t.Quiet vte) :
    vte.seen t.feeder.parser (t.feeder.nextSlice t.spent) <+: t.feeder.nextSlice t.spent := by
  rw [Vte.seen]
  cases h.holds with
  | inl hnone =>
    rw [hnone, List.nil_append]
    exact List.take_prefix _ _
  | inr hnothing =>
    rw [hnothing, List.take_zero]
    exact List.nil_prefix

theorem Turn.fenceOsc_spent (t : Turn P H) : (t.fenceOsc vte).spent = t.spent := by
  rw [fenceOsc]
  split
  · rfl
  · rfl

end Quiet

section Drain

variable {C S P H : Type} {vte : Vte C S P} [GridHandler C H] {phase : S → Phase} {owed : S → ℕ}

/-- The work of a quiet slice is what its callbacks cost. -/
theorem advanceSlice_spent {f : Feeder P} {h : H} {bytes : List UInt8}
    (hwidth : GridHandler.columns h = f.columns)
    (hbelow : vte.syncBytesCount (vte.advance f.parser bytes).1 < SYNC_CAP) :
    (f.advanceSlice vte h bytes).spent ≤
      totalPrice f.columns f.lines f.scrollback (vte.advance f.parser bytes).2 := by
  have hwork := (Counting.new h f.columns f.lines f.scrollback).dispatchAll_work hwidth
    (vte.advance f.parser bytes).2
  rw [Feeder.advanceSlice, Turn.fenceOsc_spent, Feeder.parseSlice, Turn.fenceSync, if_neg]
  · refine (satAdd_le _ _).trans ?_
    rw [Nat.zero_add]
    exact hwork.trans (by rw [Counting.new, Nat.zero_add])
  · intro hfull
    have hcap := hfull.2
    dsimp only at hcap
    rw [Feeder.chargeSlice_parser] at hcap
    exact absurd hcap (Nat.not_le.mpr hbelow)

/-- A quiet round spends what is left of the budget and one atom at most. -/
theorem Turn.Quiet.round_spent (hbuffers : vte.Buffers) (hgrammar : vte.Grammar phase owed)
    {t : Turn P H} (h : t.Quiet vte) (hwidth : GridHandler.columns t.handler = t.feeder.columns)
    (hroomy : Roomy t.feeder.columns t.feeder.lines t.feeder.scrollback)
    (hspent : t.spent ≤ WORK_BUDGET) :
    (t.round vte).spent ≤
      maxDrainWork t.feeder.columns t.feeder.lines t.feeder.scrollback := by
  have hcost : ({ t.feeder with pendingAt := t.feeder.sliceEnd t.spent }.advanceSlice vte
      t.handler (t.feeder.nextSlice t.spent)).spent ≤
      totalPrice t.feeder.columns t.feeder.lines t.feeder.scrollback
        (vte.advance t.feeder.parser (t.feeder.nextSlice t.spent)).2 :=
    advanceSlice_spent hwidth h.below
  have hparse := hbuffers.advance_parse t.feeder.parser (t.feeder.nextSlice t.spent)
  have hslice : totalPrice t.feeder.columns t.feeder.lines t.feeder.scrollback
      (vte.advance t.feeder.parser (t.feeder.nextSlice t.spent)).2 ≤
      WORK_BUDGET - t.spent +
        maxAtomWork t.feeder.columns t.feeder.lines t.feeder.scrollback := by
    have hlen := h.seen_prefix.length_le.trans (t.feeder.length_nextSlice_le t.spent)
    have hcallbacks := congrArg Prod.snd hparse
    dsimp only at hcallbacks
    rw [← hcallbacks]
    cases Nat.eq_zero_or_pos t.feeder.nextEscape with
    | inl hescape =>
      rw [hescape] at hlen
      exact escape_slice_price hgrammar hroomy h.atoms hlen sliceBytesRemaining_le
        sliceBytesRemaining_escape
    | inr hplain =>
      have hesc : ∀ b ∈ vte.seen t.feeder.parser (t.feeder.nextSlice t.spent), b ≠ ESC := by
        intro b hb heq
        rw [heq] at hb
        exact t.feeder.esc_not_mem_nextSlice t.spent hplain (h.seen_prefix.subset hb)
      exact plain_slice_price hgrammar hroomy hesc h.atoms hlen (sliceBytesRemaining_plain hplain)
  apply le_min
  · refine (satAdd_le _ _).trans ((Nat.add_le_add_left (hcost.trans hslice) _).trans ?_)
    omega
  · exact satAdd_le_max _ _

/-- The rounds of a drain keep to its bound. -/
theorem Turn.rounds_spent (hbuffers : vte.Buffers) (hgrammar : vte.Grammar phase owed)
    (fuel : ℕ) (t : Turn P H) (hwidth : GridHandler.columns t.handler = t.feeder.columns)
    (hroomy : Roomy t.feeder.columns t.feeder.lines t.feeder.scrollback)
    (hspent : t.spent ≤ WORK_BUDGET) (hquiet : ∀ u ∈ Turn.visited vte fuel t, u.Quiet vte) :
    (Turn.rounds vte fuel t).spent ≤
      maxDrainWork t.feeder.columns t.feeder.lines t.feeder.scrollback := by
  have hstart : t.spent ≤ maxDrainWork t.feeder.columns t.feeder.lines t.feeder.scrollback :=
    hspent.trans (le_satAdd_left (by decide) _)
  induction fuel generalizing t with
  | zero => exact hstart
  | succ fuel ih =>
    rw [Turn.rounds]
    rw [Turn.visited] at hquiet
    by_cases hempty : t.feeder.pending.length ≤ t.feeder.pendingAt
    · rw [if_pos hempty]
      exact hstart
    · rw [if_neg hempty] at hquiet ⊢
      obtain ⟨-, -, -, hcolumns, hlines, hscrollback, hhandler⟩ := t.round_frame vte
      by_cases hover : WORK_BUDGET ≤ (t.round vte).spent
      · rw [if_pos hover] at hquiet ⊢
        exact (hquiet t List.mem_cons_self).round_spent hbuffers hgrammar hwidth hroomy hspent
      · rw [if_neg hover] at hquiet ⊢
        have hbelow : (t.round vte).spent ≤ WORK_BUDGET := Nat.le_of_not_le hover
        have hrest := ih (t.round vte) (by rw [hhandler, hwidth, hcolumns])
          (by rw [hcolumns, hlines, hscrollback]; exact hroomy) hbelow
          (fun u hu => hquiet u (List.mem_cons_of_mem t hu))
          (hbelow.trans (le_satAdd_left (by decide) _))
        rw [hcolumns, hlines, hscrollback] at hrest
        exact hrest

end Drain

def defaultSize : Size := ⟨80, 24, 10000⟩

/-- A terminal of the default size before its first byte. -/
def freshTerminal : Session SmallProcessor Screen :=
  Session.new smallVte Fences.ALL defaultSize (Screen.blank 80)

/-- Two characters and a reset of the terminal, then a character that the drain leaves alone. -/
def plainBytes : List UInt8 := [0x68, 0x69, ESC, 0x63, 0x68]

/-- Two resets inside of a synchronized update. -/
def updateBytes : List UInt8 := BSU_CSI ++ [ESC, 0x63, ESC, 0x63] ++ ESU_CSI

end Buzz.Terminal
