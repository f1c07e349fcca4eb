import Buzz.Terminal.SmallVte

namespace Buzz.Terminal
set_option autoImplicit true

/-- The bytes that are accepted and not yet parsed. -/
def Feeder.tail (f : Feeder P) : List UInt8 :=
  f.pending.drop f.pendingAt

/-- What the fence charges for a slice. -/
def chargedFor (syncBefore syncAfter len : ℕ) : ℕ :=
  if syncAfter < syncBefore then syncBefore + len - syncAfter
  else if syncBefore < syncAfter then 0
  else len

section Charge

variable {P : Type} (f : Feeder P) (syncBefore syncAfter len : ℕ)

theorem Feeder.chargeSlice_charged :
    (f.chargeSlice syncBefore syncAfter len).stats.chargedBytes =
        f.stats.chargedBytes + chargedFor syncBefore syncAfter len ∧
      (f.chargeSlice syncBefore syncAfter len).sinceReset =
        f.sinceReset + chargedFor syncBefore syncAfter len := by
  rw [chargeSlice, chargedFor]
  split
  · exact ⟨rfl, rfl⟩
  · split
    · exact ⟨rfl, rfl⟩
    · exact ⟨rfl, rfl⟩

/-- The charge is never too high, and it is too low exactly when the buffer grew by less than the
slice. -/
theorem chargedFor_le : chargedFor syncBefore syncAfter len ≤ syncBefore + len - syncAfter := by
  rw [chargedFor]
  split
  · exact le_rfl
  · split
    · exact Nat.zero_le _
    · omega

theorem chargedFor_eq_iff : chargedFor syncBefore syncAfter len = syncBefore + len - syncAfter ↔
    syncAfter ≤ syncBefore ∨ syncBefore + len - syncAfter = 0 := by
  rw [chargedFor]
  split
  · omega
  · split
    · omega
    · omega

end Charge

namespace Turn

variable {C S P H : Type} (vte : Vte C S P) (t : Turn P H)

/-- The slice that the next round hands to the parser. -/
def slice : List UInt8 :=
  t.feeder.nextSlice t.spent

/-- What the parser holds back after that slice. -/
def buffer : List UInt8 :=
  vte.buffered (vte.advance t.feeder.parser t.slice).1

/-- Whether the first fence aborts the update that the slice leaves open. -/
def Aborts : Prop :=
  t.feeder.fences.syncAbort = true ∧ SYNC_CAP ≤ (t.buffer vte).length

instance : Decidable (t.Aborts vte) :=
  inferInstanceAs (Decidable (_ ∧ _))

/-- The bytes that a round shows to the parser, those of an aborted update among them. -/
def shown : List UInt8 :=
  vte.seen t.feeder.parser t.slice ++ if t.Aborts vte then t.buffer vte else []

/-- A slice on which the accounting is right: it does not show bytes while the buffer grows, and
spends the budget of the second fence only with an empty buffer. -/
structure Exact : Prop where
  grown : (t.buffer vte).length ≤ vte.syncBytesCount t.feeder.parser ∨
    vte.visible t.feeder.parser t.slice = 0
  spent : t.feeder.fences.oscBudget = true →
    OSC_BUDGET ≤ t.feeder.sinceReset + vte.visible t.feeder.parser t.slice →
    t.Aborts vte ∨ t.buffer vte = []

instance : Decidable (t.Exact vte) :=
  decidable_of_iff
    (((t.buffer vte).length ≤ vte.syncBytesCount t.feeder.parser ∨
        vte.visible t.feeder.parser t.slice = 0) ∧
      (t.feeder.fences.oscBudget = true →
        OSC_BUDGET ≤ t.feeder.sinceReset + vte.visible t.feeder.parser t.slice →
        t.Aborts vte ∨ t.buffer vte = []))
    ⟨fun h => ⟨h.1, h.2⟩, fun h => ⟨h.grown, h.spent⟩⟩

variable [GridHandler C H]

/-- The turn after the slice and the first fence. -/
def fenced : Turn P H :=
  { t.feeder with pendingAt := t.feeder.sliceEnd t.spent }.parseSlice vte t.handler t.slice

/-- Whether the second fence rebuilds the parser. -/
def Rebuilds : Prop :=
  t.feeder.fences.oscBudget = true ∧ OSC_BUDGET ≤ (t.fenced vte).feeder.sinceReset

instance : Decidable (t.Rebuilds vte) :=
  inferInstanceAs (Decidable (_ ∧ _))

end Turn

section Round

variable {C S P H : Type} {vte : Vte C S P}

theorem Turn.length_shown (t : Turn P H) :
    (t.shown vte).length = vte.visible t.feeder.parser t.slice +
      if t.Aborts vte then (t.buffer vte).length else 0 := by
  have hseen : (vte.seen t.feeder.parser t.slice).length = vte.visible t.feeder.parser t.slice := by
    rw [Vte.seen, List.length_take, List.length_append, Vte.visible, Vte.syncBytesCount]
    omega
  rw [shown, List.length_append, hseen]
  split
  · rfl
  · rfl

/-- A round parses the first of the bytes that it has, and the rest is in the buffer. -/
theorem Turn.shown_append (hbuffers : vte.Buffers) (t : Turn P H) :
    t.shown vte ++ (if t.Aborts vte then [] else t.buffer vte) =
      vte.buffered t.feeder.parser ++ t.slice := by
  rw [← hbuffers.advance_buffered, shown, List.append_assoc]
  split
  · rw [List.append_nil]
    rfl
  · rw [List.nil_append]
    rfl

variable [GridHandler C H]

theorem Turn.fenceSync_effect (hbuffers : vte.Buffers) (t : Turn P H) :
    (t.fenceSync vte).feeder.stats.chargedBytes = t.feeder.stats.chargedBytes +
        (if t.feeder.fences.syncAbort = true ∧ SYNC_CAP ≤ vte.syncBytesCount t.feeder.parser then
          vte.syncBytesCount t.feeder.parser else 0) ∧
      (t.fenceSync vte).feeder.sinceReset = t.feeder.sinceReset +
        (if t.feeder.fences.syncAbort = true ∧ SYNC_CAP ≤ vte.syncBytesCount t.feeder.parser then
          vte.syncBytesCount t.feeder.parser else 0) ∧
      vte.buffered (t.fenceSync vte).feeder.parser =
        if t.feeder.fences.syncAbort = true ∧ SYNC_CAP ≤ vte.syncBytesCount t.feeder.parser then []
        else vte.buffered t.feeder.parser := by
  rw [fenceSync]
  by_cases habort : t.feeder.fences.syncAbort = true ∧
      SYNC_CAP ≤ vte.syncBytesCount t.feeder.parser
  · rw [if_pos habort, if_pos habort, if_pos habort]
    exact ⟨rfl, rfl, hbuffers.stop_buffered t.feeder.parser⟩
  · rw [if_neg habort, if_neg habort, if_neg habort]
    exact ⟨rfl, rfl, rfl⟩

/-- What a slice and the first fence do to the charge and the buffer. -/
theorem Turn.fenced_effect (hbuffers : vte.Buffers) (t : Turn P H) :
    (t.fenced vte).feeder.stats.chargedBytes = t.feeder.stats.chargedBytes +
        (chargedFor (vte.syncBytesCount t.feeder.parser) (t.buffer vte).length t.slice.length +
          if t.Aborts vte then (t.buffer vte).length else 0) ∧
      (t.fenced vte).feeder.sinceReset = t.feeder.sinceReset +
        (chargedFor (vte.syncBytesCount t.feeder.parser) (t.buffer vte).length t.slice.length +
          if t.Aborts vte then (t.buffer vte).length else 0) ∧
      vte.buffered (t.fenced vte).feeder.parser = if t.Aborts vte then [] else t.buffer vte := by
  obtain ⟨hcharged, hsince⟩ := Feeder.chargeSlice_charged
    (Turn.drive ⟨{ t.feeder with pendingAt := t.feeder.sliceEnd t.spent }, t.handler, 0⟩
      (vte.advance t.feeder.parser t.slice)).feeder
    (vte.syncBytesCount t.feeder.parser) (t.buffer vte).length t.slice.length
  have hframe := Feeder.chargeSlice_framed
    (Turn.drive ⟨{ t.feeder with pendingAt := t.feeder.sliceEnd t.spent }, t.handler, 0⟩
      (vte.advance t.feeder.parser t.slice)).feeder
    (vte.syncBytesCount t.feeder.parser) (t.buffer vte).length t.slice.length
  have hparser := Feeder.chargeSlice_parser
    (Turn.drive ⟨{ t.feeder with pendingAt := t.feeder.sliceEnd t.spent }, t.handler, 0⟩
      (vte.advance t.feeder.parser t.slice)).feeder
    (vte.syncBytesCount t.feeder.parser) (t.buffer vte).length t.slice.length
  have hsync := Turn.fenceSync_effect hbuffers
    { Turn.drive ⟨{ t.feeder with pendingAt := t.feeder.sliceEnd t.spent }, t.handler, 0⟩
        (vte.advance t.feeder.parser t.slice) with
      feeder := (Turn.drive ⟨{ t.feeder with pendingAt := t.feeder.sliceEnd t.spent }, t.handler, 0⟩
        (vte.advance t.feeder.parser t.slice)).feeder.chargeSlice
          (vte.syncBytesCount t.feeder.parser) (t.buffer vte).length t.slice.length }
  dsimp only at hsync
  rw [hparser, hframe.fences, hcharged, hsince, Nat.add_assoc, Nat.add_assoc] at hsync
  exact hsync

/-- What a round does to the charge, and to the buffer when the parser is rebuilt. -/
theorem Turn.round_effect (hbuffers : vte.Buffers) (t : Turn P H) :
    (t.round vte).feeder.stats.chargedBytes = (t.fenced vte).feeder.stats.chargedBytes ∧
      vte.buffered (t.round vte).feeder.parser =
        if t.Rebuilds vte then [] else vte.buffered (t.fenced vte).feeder.parser := by
  have hfences : (t.fenced vte).feeder.fences = t.feeder.fences := by
    have hdrive := (Turn.drive ⟨{ t.feeder with pendingAt := t.feeder.sliceEnd t.spent },
      t.handler, 0⟩ (vte.advance t.feeder.parser t.slice)).feeder.chargeSlice_framed
      (vte.syncBytesCount t.feeder.parser) (t.buffer vte).length t.slice.length
    exact (Turn.fenceSync_framed vte _).feeder.fences.trans hdrive.fences
  have hround : (t.round vte).feeder.parser = ((t.fenced vte).fenceOsc vte).feeder.parser ∧
      (t.round vte).feeder.stats = ((t.fenced vte).fenceOsc vte).feeder.stats := ⟨rfl, rfl⟩
  rw [hround.1, hround.2, Turn.fenceOsc, hfences]
  by_cases hrebuild : t.feeder.fences.oscBudget = true ∧
      OSC_BUDGET ≤ (t.fenced vte).feeder.sinceReset
  · have hempty : (if t.Rebuilds vte then [] else vte.buffered (t.fenced vte).feeder.parser) = [] :=
      if_pos hrebuild
    rw [if_pos hrebuild, hempty]
    exact ⟨rfl, hbuffers.new_buffered⟩
  · have hkept : (if t.Rebuilds vte then [] else vte.buffered (t.fenced vte).feeder.parser) =
        vte.buffered (t.fenced vte).feeder.parser := if_neg hrebuild
    rw [if_neg hrebuild, hkept]
    exact ⟨rfl, rfl⟩

end Round

/-- The bytes of a run: those that were fed, those handed to the parser slice by slice, and those
that the parser has seen. -/
structure Account where
  fed : List UInt8
  handed : List UInt8
  parsed : List UInt8

/-- The account of a round. -/
def Account.record (vte : Vte C S P) (a : Account) (t : Turn P H) : Account where
  fed := a.fed
  handed := a.handed ++ t.slice
  parsed := a.parsed ++ t.shown vte

/-- The charge is what the parser has seen, and what it has not seen is in its buffer. -/
structure Balanced (vte : Vte C S P) (f : Feeder P) (a : Account) : Prop where
  handed : a.handed ++ f.tail = a.fed
  charged : f.stats.chargedBytes = a.parsed.length
  kept : a.parsed ++ vte.buffered f.parser = a.handed

/-- What is left of that on any run: the charge is not too high, and no byte is kept twice. -/
structure Covered (vte : Vte C S P) (f : Feeder P) (a : Account) : Prop where
  handed : a.handed ++ f.tail = a.fed
  charged : f.stats.chargedBytes ≤ a.parsed.length
  kept : a.parsed ++ vte.buffered f.parser = a.handed ∨
    a.parsed.length + (vte.buffered f.parser).length < a.handed.length

section Account

variable {C S P H : Type} {vte : Vte C S P} {f : Feeder P} {a : Account}

theorem Balanced.covered (h : Balanced vte f a) : Covered vte f a :=
  ⟨h.handed, h.charged.le, .inl h.kept⟩

theorem Covered.kept_le (h : Covered vte f a) :
    a.parsed.length + (vte.buffered f.parser).length ≤ a.handed.length := by
  cases h.kept with
  | inl hkept => rw [← hkept, List.length_append]
  | inr hless => exact hless.le

/-- The account balances when its numbers do. -/
theorem Covered.balanced (h : Covered vte f a) (hcharged : a.parsed.length ≤ f.stats.chargedBytes)
    (hkept : a.handed.length ≤ a.parsed.length + (vte.buffered f.parser).length) :
    Balanced vte f a where
  handed := h.handed
  charged := le_antisymm h.charged hcharged
  kept := h.kept.resolve_right (Nat.not_lt.mpr hkept)

variable {t : Turn P H}

theorem Turn.Exact.charged (h : t.Exact vte) :
    chargedFor (vte.syncBytesCount t.feeder.parser) (t.buffer vte).length t.slice.length =
      vte.visible t.feeder.parser t.slice :=
  (chargedFor_eq_iff _ _ _).mpr h.grown

variable [GridHandler C H]

/-- The parser is rebuilt with an empty buffer only. -/
def Turn.RebuildsEmpty (vte : Vte C S P) (t : Turn P H) : Prop :=
  t.Rebuilds vte → vte.buffered (t.fenced vte).feeder.parser = []

theorem Turn.Exact.rebuildsEmpty (hbuffers : vte.Buffers) (h : t.Exact vte) :
    t.RebuildsEmpty vte := by
  intro ⟨hosc, hbudget⟩
  obtain ⟨-, hsince, hbuffer⟩ := t.fenced_effect hbuffers
  rw [hbuffer]
  by_cases habort : t.Aborts vte
  · exact if_pos habort
  · rw [hsince, if_neg habort, h.charged, Nat.add_zero] at hbudget
    rw [if_neg habort]
    exact (h.spent hosc hbudget).resolve_left habort

/-- A round takes its slice off the tail. -/
theorem Turn.slice_append_tail (vte : Vte C S P)
    (hmore : t.feeder.pendingAt < t.feeder.pending.length) :
    t.slice ++ (t.round vte).feeder.tail = t.feeder.tail := by
  obtain ⟨hpending, hat, -⟩ := t.round_frame vte
  have hle := (t.feeder.lt_sliceEnd t.spent hmore).le
  have hdrop : t.feeder.pending = t.feeder.pending.take (t.feeder.sliceEnd t.spent) ++
      t.feeder.pending.drop (t.feeder.sliceEnd t.spent) := (List.take_append_drop _ _).symm
  have hlen : t.feeder.pendingAt ≤ (t.feeder.pending.take (t.feeder.sliceEnd t.spent)).length := by
    rw [List.length_take, min_eq_left (t.feeder.sliceEnd_le t.spent)]
    exact hle
  rw [Feeder.tail, Feeder.tail, hpending, hat, slice, Feeder.nextSlice]
  conv_rhs => rw [hdrop]
  exact (List.drop_append_of_le_length hlen).symm

/-- One round: the account stays covered, and it balances after the round exactly when it did
before and the slice was an exact one. -/
theorem round_account (hbuffers : vte.Buffers)
    (hmore : t.feeder.pendingAt < t.feeder.pending.length) (h : Covered vte t.feeder a) :
    Covered vte (t.round vte).feeder (a.record vte t) ∧
      (Balanced vte (t.round vte).feeder (a.record vte t) ↔
        Balanced vte t.feeder a ∧ t.Exact vte) := by
  obtain ⟨hcharged, hsince, hbuffer⟩ := t.fenced_effect hbuffers
  obtain ⟨hround, hrebuilt⟩ := t.round_effect hbuffers
  have hshown := t.shown_append hbuffers
  rw [← hbuffer] at hshown
  have hparsed : (a.record vte t).parsed.length = a.parsed.length +
      (vte.visible t.feeder.parser t.slice + if t.Aborts vte then (t.buffer vte).length else 0) := by
    rw [← t.length_shown]
    exact List.length_append
  have hcharge := chargedFor_le (vte.syncBytesCount t.feeder.parser) (t.buffer vte).length
    t.slice.length
  have hvisible : vte.visible t.feeder.parser t.slice =
      vte.syncBytesCount t.feeder.parser + t.slice.length - (t.buffer vte).length := rfl
  have hhanded : (a.record vte t).handed ++ (t.round vte).feeder.tail = a.fed := by
    rw [← h.handed, ← Turn.slice_append_tail vte hmore, ← List.append_assoc]
    rfl
  have hbalanced : Balanced vte t.feeder a → t.Exact vte →
      Balanced vte (t.round vte).feeder (a.record vte t) := by
    intro hb hexact
    have hnone : vte.buffered (t.round vte).feeder.parser =
        vte.buffered (t.fenced vte).feeder.parser := by
      rw [hrebuilt]
      split
      · rename_i hrebuild
        exact (hexact.rebuildsEmpty hbuffers hrebuild).symm
      · rfl
    constructor
    case handed => exact hhanded
    case charged => rw [hround, hcharged, hparsed, hexact.charged, hb.charged]
    case kept =>
      rw [hnone, Account.record]
      dsimp only
      rw [List.append_assoc, hshown, ← List.append_assoc, hb.kept]
  have hlengths : (t.shown vte).length + (vte.buffered (t.fenced vte).feeder.parser).length =
      (vte.buffered t.feeder.parser).length + t.slice.length := by
    rw [← List.length_append, hshown, List.length_append]
  have hcut : (vte.buffered (t.round vte).feeder.parser).length ≤
      (vte.buffered (t.fenced vte).feeder.parser).length := by
    rw [hrebuilt]
    split
    · exact Nat.zero_le _
    · exact le_rfl
  have hparsed_shown : (a.record vte t).parsed.length = a.parsed.length + (t.shown vte).length :=
    List.length_append
  have hhanded_slice : (a.record vte t).handed.length = a.handed.length + t.slice.length :=
    List.length_append
  have hle := h.kept_le
  have hcovered : Covered vte (t.round vte).feeder (a.record vte t) := by
    constructor
    case handed => exact hhanded
    case charged =>
      have hold := h.charged
      rw [hround, hcharged, hparsed]
      omega
    case kept =>
      by_cases hsame : (vte.buffered (t.round vte).feeder.parser).length =
          (vte.buffered (t.fenced vte).feeder.parser).length
      · cases h.kept with
        | inl hkept =>
          left
          have hnone : vte.buffered (t.round vte).feeder.parser =
              vte.buffered (t.fenced vte).feeder.parser := by
            rw [hrebuilt] at hsame ⊢
            split at hsame
            · rw [if_pos ‹_›]
              exact (List.length_eq_zero_iff.mp hsame.symm).symm
            · rw [if_neg ‹_›]
          rw [hnone, Account.record]
          dsimp only
          rw [List.append_assoc, hshown, ← List.append_assoc, hkept]
        | inr hless =>
          right
          omega
      · right
        omega
  refine ⟨hcovered, ?_, fun hb => hbalanced hb.1 hb.2⟩
  intro hb
  have hcharges := hb.charged
  rw [hround, hcharged, hparsed] at hcharges
  have hold := h.charged
  have hkept := congrArg List.length hb.kept
  rw [List.length_append] at hkept
  have hexact : chargedFor (vte.syncBytesCount t.feeder.parser) (t.buffer vte).length
      t.slice.length = vte.visible t.feeder.parser t.slice := by omega
  refine ⟨h.balanced (by omega) (by omega), (chargedFor_eq_iff _ _ _).mp hexact, ?_⟩
  intro hosc hbudget
  by_cases habort : t.Aborts vte
  · exact .inl habort
  · right
    rw [if_neg habort, Nat.add_zero, hexact] at hsince
    have hrebuilds : t.Rebuilds vte := ⟨hosc, hsince ▸ hbudget⟩
    rw [if_pos hrebuilds] at hrebuilt
    rw [if_neg habort] at hbuffer
    rw [hrebuilt, List.length_nil] at hkept
    rw [hbuffer] at hlengths
    apply List.length_eq_zero_iff.mp
    omega

/-- The rounds of a drain keep the account balanced exactly when each slice is an exact one. -/
theorem rounds_account (hbuffers : vte.Buffers) (fuel : ℕ) (t : Turn P H) {a : Account}
    (h : Covered vte t.feeder a) :
    Covered vte (Turn.rounds vte fuel t).feeder
        ((Turn.visited vte fuel t).foldl (Account.record vte) a) ∧
      (Balanced vte (Turn.rounds vte fuel t).feeder
          ((Turn.visited vte fuel t).foldl (Account.record vte) a) ↔
        Balanced vte t.feeder a ∧ ∀ u ∈ Turn.visited vte fuel t, u.Exact vte) := by
  have hstop : Covered vte t.feeder a ∧ (Balanced vte t.feeder a ↔
      Balanced vte t.feeder a ∧ ∀ u ∈ ([] : List (Turn P H)), u.Exact vte) :=
    ⟨h, fun hb => ⟨hb, fun u hu => (nomatch hu)⟩, fun hb => hb.1⟩
  induction fuel generalizing t a with
  | zero => exact hstop
  | succ fuel ih =>
    rw [Turn.rounds, Turn.visited]
    by_cases hempty : t.feeder.pending.length ≤ t.feeder.pendingAt
    · rw [if_pos hempty, if_pos hempty]
      exact hstop
    · rw [if_neg hempty, if_neg hempty]
      obtain ⟨hcovered, hround⟩ := round_account hbuffers (Nat.lt_of_not_le hempty) h
      by_cases hover : WORK_BUDGET ≤ (t.round vte).spent
      · rw [if_pos hover, if_pos hover, List.foldl_cons, List.foldl_nil]
        refine ⟨hcovered, ?_⟩
        rw [hround, List.forall_mem_singleton]
      · rw [if_neg hover, if_neg hover, List.foldl_cons]
        obtain ⟨hrest, hiff⟩ := ih (t.round vte) hcovered
          ⟨hcovered, fun hb => ⟨hb, fun u hu => (nomatch hu)⟩, fun hb => hb.1⟩
        refine ⟨hrest, ?_⟩
        rw [hiff, hround, List.forall_mem_cons, and_assoc]

theorem Feeder.settle_tail (f : Feeder P) : f.settle.tail = f.tail ∧
    f.settle.parser = f.parser ∧ f.settle.stats.chargedBytes = f.stats.chargedBytes := by
  rw [settle, tail, tail]
  dsimp only
  split
  · rename_i hdone
    rw [hdone, List.drop_length, List.drop_nil]
    exact ⟨rfl, rfl, rfl⟩
  · exact ⟨rfl, rfl, rfl⟩

end Account

inductive Input where
  | feed (bytes : List UInt8)
  | drain

/-- A run of a terminal with its account and the turns that its rounds started from. -/
structure Audit (P H : Type) where
  session : Session P H
  turns : List (Turn P H)
  account : Account

namespace Audit

variable {C S P H : Type} (vte : Vte C S P) [GridHandler C H]

def new (fences : Fences) (size : Size) (h : H) : Audit P H where
  session := Session.new vte fences size h
  turns := []
  account := ⟨[], [], []⟩

def drain (u : Audit P H) : Audit P H :=
  let f := u.session.feeder
  let turns := Turn.visited vte f.pendingBytes ⟨f, u.session.handler, 0⟩
  { session := u.session.apply vte .drain
    turns := u.turns ++ turns
    account := turns.foldl (Account.record vte) u.account }

def enqueue (u : Audit P H) (bytes : List UInt8) : Audit P H :=
  { session := { u.session with feeder := u.session.feeder.enqueue bytes }
    turns := u.turns
    account := { u.account with fed := u.account.fed ++ bytes } }

def apply (u : Audit P H) : Input → Audit P H
  | .feed bytes => (u.enqueue bytes).drain vte
  | .drain => u.drain vte

/-- The account says nothing to the terminal. -/
theorem apply_session (u : Audit P H) (input : Input) :
    (u.apply vte input).session = u.session.apply vte (match input with
      | .feed bytes => .feed bytes
      | .drain => .drain) := by
  cases input with
  | feed bytes => rfl
  | drain => rfl

def run (fences : Fences) (size : Size) (h : H) (inputs : List Input) : Audit P H :=
  inputs.foldl (apply vte) (new vte fences size h)

/-- The accounting of a run is right: the slices are the bytes fed without the tail, the charge is
the bytes that the parser has seen, the rest of them is in the buffer of an update, and the parser
is rebuilt with an empty buffer only. -/
structure Accounted (u : Audit P H) : Prop where
  balanced : Balanced vte u.session.feeder u.account
  rebuilt : ∀ t ∈ u.turns, t.RebuildsEmpty vte

/-- What holds after any inputs: the account balances if and only if each slice was an exact one. -/
structure Audited (u : Audit P H) : Prop where
  covered : Covered vte u.session.feeder u.account
  balanced_iff : Balanced vte u.session.feeder u.account ↔ ∀ t ∈ u.turns, t.Exact vte

variable {vte}

theorem drain_audited (hbuffers : vte.Buffers) {u : Audit P H} (h : u.Audited vte) :
    (u.drain vte).Audited vte := by
  obtain ⟨hcovered, hiff⟩ := rounds_account hbuffers u.session.feeder.pendingBytes
    ⟨u.session.feeder, u.session.handler, 0⟩ h.covered
  obtain ⟨htail, hparser, hcharged⟩ := Feeder.settle_tail
    (Turn.rounds vte u.session.feeder.pendingBytes
      ⟨u.session.feeder, u.session.handler, 0⟩).feeder
  have hfeeder : (u.drain vte).session.feeder = (Turn.rounds vte u.session.feeder.pendingBytes
      ⟨u.session.feeder, u.session.handler, 0⟩).feeder.settle := rfl
  constructor
  case covered =>
    rw [hfeeder]
    exact ⟨htail ▸ hcovered.handed, hcharged ▸ hcovered.charged, hparser ▸ hcovered.kept⟩
  case balanced_iff =>
    rw [hfeeder]
    have hsettled : ∀ a, Balanced vte (Turn.rounds vte u.session.feeder.pendingBytes
        ⟨u.session.feeder, u.session.handler, 0⟩).feeder.settle a ↔
        Balanced vte (Turn.rounds vte u.session.feeder.pendingBytes
          ⟨u.session.feeder, u.session.handler, 0⟩).feeder a := by
      intro a
      constructor
      · intro hb
        exact ⟨htail ▸ hb.handed, hcharged ▸ hb.charged, hparser ▸ hb.kept⟩
      · intro hb
        exact ⟨htail ▸ hb.handed, hcharged ▸ hb.charged, hparser ▸ hb.kept⟩
    rw [hsettled]
    refine hiff.trans ?_
    rw [h.balanced_iff, drain, List.forall_mem_append]

omit [GridHandler C H] in
theorem enqueue_audited {u : Audit P H} (bytes : List UInt8) (h : u.Audited vte) :
    (u.enqueue bytes).Audited vte := by
  have htail : (u.session.feeder.enqueue bytes).tail = u.session.feeder.tail ++ bytes := rfl
  have hhanded : ∀ a : Account, a.handed ++ (u.session.feeder.enqueue bytes).tail =
      a.fed ++ bytes ↔ a.handed ++ u.session.feeder.tail = a.fed := by
    intro a
    rw [htail, ← List.append_assoc, List.append_left_inj]
  constructor
  case covered => exact ⟨(hhanded _).mpr h.covered.handed, h.covered.charged, h.covered.kept⟩
  case balanced_iff =>
    refine Iff.trans ?_ h.balanced_iff
    constructor
    · intro hb
      exact ⟨(hhanded _).mp hb.handed, hb.charged, hb.kept⟩
    · intro hb
      exact ⟨(hhanded _).mpr hb.handed, hb.charged, hb.kept⟩

theorem apply_audited (hbuffers : vte.Buffers) {u : Audit P H} (h : u.Audited vte)
    (input : Input) : (u.apply vte input).Audited vte := by
  cases input with
  | feed bytes => exact drain_audited hbuffers (enqueue_audited bytes h)
  | drain => exact drain_audited hbuffers h

theorem run_audited (hbuffers : vte.Buffers) (fences : Fences) (size : Size) (h : H)
    (inputs : List Input) : (run vte fences size h inputs).Audited vte := by
  have hnew : (new vte fences size h).Audited vte := by
    have hb : Balanced vte (new vte fences size h).session.feeder (new vte fences size h).account :=
      ⟨rfl, rfl, hbuffers.new_buffered⟩
    exact ⟨hb.covered, fun _ t ht => (nomatch ht), fun _ => hb⟩
  rw [run]
  generalize new vte fences size h = u at hnew ⊢
  induction inputs generalizing u with
  | nil => exact hnew
  | cons input inputs ih => exact ih _ (apply_audited hbuffers hnew input)

/-- An update of one character. -/
def oneUpdate : List UInt8 := BSU_CSI ++ [0x79] ++ ESU_CSI

/-- An update that a slice opens and writes to. -/
def openedUpdate : List UInt8 := BSU_CSI ++ [0x79, 0x79, 0x79]

end Audit

end Buzz.Terminal
