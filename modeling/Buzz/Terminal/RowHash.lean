import Buzz.Lib.LittleEndian
import Buzz.Terminal.Damage

namespace Buzz.Terminal
set_option autoImplicit true

/-- How the flags of a cell are packed: `bits` of the flags that cells have tells them apart. -/
structure FlagBits where
  bits : Flags → UInt16
  valid : Flags → Prop
  injective : ∀ a b, valid a → valid b → bits a = bits b → a = b

/-- What of a cell reaches the renderer, and the geometry that spans are cut by. -/
structure Look where
  c : Char
  fg : UInt32
  bg : UInt32
  flags : Flags
  zerowidth : Option (List Char)

namespace Cell

def look (cell : Cell) : Look where
  c := cell.c
  fg := packColor cell.fg
  bg := packColor cell.bg
  flags := cell.flags
  zerowidth := cell.zerowidth

/-- The marks as they are hashed: a slice, its length first. -/
def hashedMarks (cell : Cell) : List UInt8 :=
  match cell.zerowidth with
  | some zerowidth => leBytes 8 zerowidth.length ++ zerowidth.flatMap fun c => leBytes 4 c.toNat
  | none => []

/-- What a cell feeds the hasher. -/
def hashed (B : FlagBits) (cell : Cell) : List UInt8 :=
  leBytes 4 cell.c.toNat ++ (leBytes 4 (packColor cell.fg).toNat ++
    (leBytes 4 (packColor cell.bg).toNat ++ (leBytes 2 (B.bits cell.flags).toNat ++
      cell.hashedMarks)))

/-- Flags that a cell can have, and fewer marks than fit 32 bits. -/
structure Valid (B : FlagBits) (cell : Cell) : Prop where
  flags : B.valid cell.flags
  marks : ∀ zerowidth, cell.zerowidth = some zerowidth → zerowidth.length < 256 ^ 4

end Cell

/-- What a row feeds the hasher. -/
def hashedRow (B : FlagBits) (cells : List Cell) : List UInt8 :=
  cells.flatMap (Cell.hashed B)

/-- `finish` is the hash of the bytes that were written. -/
def hashCells (B : FlagBits) (finish : List UInt8 → UInt64) (cells : List Cell) : UInt64 :=
  finish (hashedRow B cells)

/-- A packed color carries a tag. -/
theorem packColor_pos (color : Color) : 0 < (packColor color).toNat := by
  have hor : ∀ a b : UInt32, a.toNat ≤ (a ||| b).toNat := fun a b => by
    rw [UInt32.toNat_or]
    exact Nat.left_le_or
  cases color with
  | named n => exact lt_of_lt_of_le (by decide) (hor 0x01000000 n)
  | indexed index => exact lt_of_lt_of_le (by decide) (hor 0x02000000 index.toUInt32)
  | spec r g b =>
    exact lt_of_lt_of_le (by decide)
      ((hor 0x03000000 _).trans ((hor _ (g.toUInt32 <<< 8)).trans (hor _ b.toUInt32)))

theorem toNat_char_lt (c : Char) : c.toNat < 256 ^ 4 :=
  c.val.toNat_lt

theorem marks_cut {as bs : List Char} (hlen : as.length = bs.length)
    (h : as.flatMap (fun c => leBytes 4 c.toNat) ++ x =
      bs.flatMap (fun c => leBytes 4 c.toNat) ++ y) : as = bs ∧ x = y := by
  induction as generalizing bs with
  | nil =>
    obtain rfl := List.length_eq_zero_iff.mp hlen.symm
    exact ⟨rfl, h⟩
  | cons a as ih =>
    cases bs with
    | nil => cases hlen
    | cons b bs =>
      rw [List.flatMap_cons, List.flatMap_cons, List.append_assoc, List.append_assoc] at h
      obtain ⟨hc, hrest⟩ := leBytes_cut (toNat_char_lt a) (toNat_char_lt b) h
      obtain ⟨rfl, hx⟩ := ih (Nat.succ.inj hlen) hrest
      rw [Char.toNat_inj.mp hc]
      exact ⟨rfl, hx⟩

variable {B : FlagBits}

theorem hashedRow_cons (cell : Cell) (cells : List Cell) :
    hashedRow B (cell :: cells) = leBytes 4 cell.c.toNat ++ (leBytes 4 (packColor cell.fg).toNat ++
      (leBytes 4 (packColor cell.bg).toNat ++ (leBytes 2 (B.bits cell.flags).toNat ++
        (cell.hashedMarks ++ hashedRow B cells)))) := by
  simp only [hashedRow, List.flatMap_cons, Cell.hashed, List.append_assoc]

/-- A length stands where the next cell's color would, and no color is that small. -/
theorem hashedRow_ne_marks {n : ℕ} (hn : n < 256 ^ 4) (cells : List Cell) (w : List UInt8) :
    hashedRow B cells ≠ leBytes 8 n ++ w := by
  intro h
  cases cells with
  | nil =>
    have hlen := congrArg List.length h
    rw [List.length_append, length_leBytes] at hlen
    simp only [hashedRow, List.flatMap_nil, List.length_nil] at hlen
    omega
  | cons cell cells =>
    rw [hashedRow_cons, leBytes_add 4 4, Nat.div_eq_of_lt hn, List.append_assoc] at h
    obtain ⟨_, hrest⟩ := leBytes_cut (toNat_char_lt cell.c) hn h
    obtain ⟨hfg, _⟩ := leBytes_cut (packColor cell.fg).toNat_lt (by decide) hrest
    exact absurd hfg (packColor_pos cell.fg).ne'

theorem hashedMarks_cut {a b : Cell} (ha : a.Valid B) (hb : b.Valid B)
    (h : a.hashedMarks ++ hashedRow B as = b.hashedMarks ++ hashedRow B bs) :
    a.zerowidth = b.zerowidth ∧ hashedRow B as = hashedRow B bs := by
  unfold Cell.hashedMarks at h
  cases hza : a.zerowidth with
  | none =>
    cases hzb : b.zerowidth with
    | none =>
      rw [hza, hzb] at h
      exact ⟨rfl, h⟩
    | some marks =>
      rw [hza, hzb, List.nil_append, List.append_assoc] at h
      exact absurd h (hashedRow_ne_marks (hb.marks marks hzb) _ _)
  | some marks =>
    cases hzb : b.zerowidth with
    | none =>
      rw [hza, hzb, List.nil_append, List.append_assoc] at h
      exact absurd h.symm (hashedRow_ne_marks (ha.marks marks hza) _ _)
    | some others =>
      rw [hza, hzb, List.append_assoc, List.append_assoc] at h
      have hlt : ∀ n : ℕ, n < 256 ^ 4 → n < 256 ^ 8 := fun n hn => hn.trans (by decide)
      obtain ⟨hlen, hrest⟩ := leBytes_cut (hlt _ (ha.marks marks hza)) (hlt _ (hb.marks others hzb)) h
      obtain ⟨rfl, hrows⟩ := marks_cut hlen hrest
      exact ⟨rfl, hrows⟩

/-- The bytes that are hashed tell apart any two rows that the renderer could. -/
theorem hashedRow_eq_iff (has : ∀ cell ∈ as, cell.Valid B) (hbs : ∀ cell ∈ bs, cell.Valid B) :
    hashedRow B as = hashedRow B bs ↔ as.map Cell.look = bs.map Cell.look := by
  constructor
  · intro h
    induction as generalizing bs with
    | nil =>
      cases bs with
      | nil => rfl
      | cons b bs =>
        have hlen := congrArg List.length h
        rw [hashedRow_cons, List.length_append, length_leBytes] at hlen
        simp only [hashedRow, List.flatMap_nil, List.length_nil] at hlen
        omega
    | cons a as ih =>
      cases bs with
      | nil =>
        have hlen := congrArg List.length h
        rw [hashedRow_cons, List.length_append, length_leBytes] at hlen
        simp only [hashedRow, List.flatMap_nil, List.length_nil] at hlen
        omega
      | cons b bs =>
        have ha := has a List.mem_cons_self
        have hb := hbs b List.mem_cons_self
        rw [hashedRow_cons, hashedRow_cons] at h
        obtain ⟨hc, h⟩ := leBytes_cut (toNat_char_lt a.c) (toNat_char_lt b.c) h
        obtain ⟨hfg, h⟩ := leBytes_cut (packColor a.fg).toNat_lt (packColor b.fg).toNat_lt h
        obtain ⟨hbg, h⟩ := leBytes_cut (packColor a.bg).toNat_lt (packColor b.bg).toNat_lt h
        obtain ⟨hbits, h⟩ := leBytes_cut (B.bits a.flags).toNat_lt (B.bits b.flags).toNat_lt h
        obtain ⟨hmarks, h⟩ := hashedMarks_cut ha hb h
        have hflags := B.injective _ _ ha.flags hb.flags (UInt16.toNat_inj.mp hbits)
        have hlook : a.look = b.look := by
          rw [Cell.look, Cell.look, Char.toNat_inj.mp hc, UInt32.toNat_inj.mp hfg,
            UInt32.toNat_inj.mp hbg, hflags, hmarks]
        rw [List.map_cons, List.map_cons, hlook,
          ih (fun c hc => has c (List.mem_cons_of_mem _ hc))
            (fun c hc => hbs c (List.mem_cons_of_mem _ hc)) h]
  · intro h
    induction as generalizing bs with
    | nil => rw [List.map_eq_nil_iff.mp h.symm]
    | cons a as ih =>
      cases bs with
      | nil => cases h
      | cons b bs =>
        rw [List.map_cons, List.map_cons, List.cons.injEq, Cell.look, Cell.look, Look.mk.injEq] at h
        obtain ⟨⟨hc, hfg, hbg, hflags, hmarks⟩, hrest⟩ := h
        rw [hashedRow_cons, hashedRow_cons, hc, hfg, hbg, hflags, Cell.hashedMarks,
          Cell.hashedMarks, hmarks, ih (fun c hc => has c (List.mem_cons_of_mem _ hc))
            (fun c hc => hbs c (List.mem_cons_of_mem _ hc)) hrest]

end Buzz.Terminal
