import Buzz.Core.Nostr
import Buzz.Lib.Reduce

namespace Buzz.Engram
set_option autoImplicit true

def U64_MAX : UInt64 := 18446744073709551615

/-- The one of two events that `select_head` goes on with. -/
def laterOf (a b : Event) : Event :=
  if a.createdAt < b.createdAt then b
  else if b.createdAt < a.createdAt then a
  -- a tie: the lower id wins
  else if b.id.toHex < a.id.toHex then b
  else a

def selectHead (events : List Event) : Option Event :=
  reduce laterOf events

def saturatingAdd (a b : UInt64) : UInt64 :=
  if a.toNat + b.toNat < 2 ^ 64 then a + b else U64_MAX

def monotonicCreatedAt (now : UInt64) : Option UInt64 → UInt64
  | some t => max now (saturatingAdd t 1)
  | none => now

/-- The later event has the greater rank, and at the same second the one with the lower id. -/
def rank (e : Event) : Nat ×ₗ (List (Fin 16))ᵒᵈ :=
  toLex (e.createdAt.toNat, OrderDual.toDual e.id.nibbles)

theorem rank_lt_iff {a b : Event} : rank a < rank b ↔
    a.createdAt < b.createdAt ∨ (a.createdAt = b.createdAt ∧ b.id.nibbles < a.id.nibbles) := by
  rw [rank, rank, Prod.Lex.toLex_lt_toLex, OrderDual.toDual_lt_toDual, UInt64.lt_iff_toNat_lt,
    UInt64.toNat_inj]

theorem toHex_lt_iff {x y : EventId} : x.toHex < y.toHex ↔ x.nibbles < y.nibbles := by
  have hmono : StrictMono (List.map Hex.digitChar) := by
    have hdigit : ∀ d e : Fin 16, d < e → Hex.digitChar d < Hex.digitChar e := by decide
    intro ds es hlt
    exact List.map_lt hdigit hlt
  rw [HexId.toHex, HexId.toHex, String.lt_iff_toList_lt, String.toList_ofList,
    String.toList_ofList]
  exact hmono.lt_iff_lt

theorem laterOf_eq (a b : Event) : laterOf a b = if rank a < rank b then b else a := by
  rw [laterOf]
  split
  · rename_i hafter
    rw [if_pos (rank_lt_iff.mpr (.inl hafter))]
  · rename_i hnotafter
    split
    · rename_i hbefore
      rw [if_neg]
      intro hlt
      rcases rank_lt_iff.mp hlt with hafter | ⟨heq, _⟩
      · exact hnotafter hafter
      · rw [heq] at hbefore
        exact UInt64.lt_irrefl _ hbefore
    · rename_i hnotbefore
      have heq : a.createdAt = b.createdAt :=
        UInt64.le_antisymm (UInt64.not_lt.mp hnotbefore) (UInt64.not_lt.mp hnotafter)
      have hlt : b.id.toHex < a.id.toHex ↔ rank a < rank b := by
        rw [toHex_lt_iff, rank_lt_iff]
        constructor
        · exact fun h => .inr ⟨heq, h⟩
        · rintro (h | ⟨_, h⟩)
          · exact absurd h hnotafter
          · exact h
      exact if_congr hlt rfl rfl

theorem selectHead_eq_argmax (events : List Event) : selectHead events = events.argmax rank :=
  reduce_eq_argmax laterOf_eq events

/-- Events that are told apart by their ids. -/
structure EventSet where
  events : List Event
  distinct : (events.map (·.id)).Nodup

namespace EventSet

def insert (s : EventSet) (e : Event) (hnew : e.id ∉ s.events.map (·.id)) : EventSet :=
  ⟨e :: s.events, List.nodup_cons.mpr ⟨hnew, s.distinct⟩⟩

/-- The events of a set, in the order in which some iteration yields them. -/
def Yields (s : EventSet) (order : List Event) : Prop :=
  order.Perm s.events

end EventSet

/-- The greatest timestamp, then the least id. -/
def IsHead (s : EventSet) (h : Event) : Prop :=
  h ∈ s.events ∧ ∀ e ∈ s.events, e.createdAt < h.createdAt ∨
    (e.createdAt = h.createdAt ∧ h.id.nibbles ≤ e.id.nibbles)

theorem isHead_iff {s : EventSet} {h : Event} :
    IsHead s h ↔ h ∈ s.events ∧ ∀ e ∈ s.events, rank e ≤ rank h := by
  have hle : ∀ e : Event, rank e ≤ rank h ↔ e.createdAt < h.createdAt ∨
      (e.createdAt = h.createdAt ∧ h.id.nibbles ≤ e.id.nibbles) := by
    intro e
    rw [rank, rank, Prod.Lex.toLex_le_toLex, OrderDual.toDual_le_toDual, UInt64.lt_iff_toNat_lt,
      UInt64.toNat_inj]
  constructor
  · rintro ⟨hmem, hall⟩
    exact ⟨hmem, fun e he => (hle e).mpr (hall e he)⟩
  · rintro ⟨hmem, hall⟩
    exact ⟨hmem, fun e he => (hle e).mp (hall e he)⟩

/-- Two events of a set have different ranks. -/
theorem EventSet.rank_inj (s : EventSet) {a b : Event} (ha : a ∈ s.events) (hb : b ∈ s.events)
    (h : rank a = rank b) : a = b := by
  have hid : a.id = b.id := by
    have hpair := congrArg ofLex h
    exact HexId.ext (OrderDual.toDual_inj.mp (congrArg Prod.snd hpair))
  exact List.inj_on_of_nodup_map s.distinct ha hb hid

/-- Every iteration over a set of events finds its head. -/
theorem selectHead_iff {s : EventSet} {order : List Event} (horder : s.Yields order) (h : Event) :
    selectHead order = some h ↔ IsHead s h := by
  rw [selectHead_eq_argmax, isHead_iff]
  constructor
  · intro hhead
    refine ⟨horder.mem_iff.mp (List.argmax_mem hhead), ?_⟩
    intro e he
    exact List.le_of_mem_argmax (horder.mem_iff.mpr he) hhead
  · rintro ⟨hmem, hall⟩
    apply argmax_of_lt (horder.mem_iff.mpr hmem)
    intro e he hne
    have hes := horder.mem_iff.mp he
    exact lt_of_le_of_ne (hall e hes) fun heq => hne (s.rank_inj hes hmem heq)

theorem toNat_saturatingAdd (a b : UInt64) :
    (saturatingAdd a b).toNat = min (a.toNat + b.toNat) (2 ^ 64 - 1) := by
  have hmax : U64_MAX.toNat = 2 ^ 64 - 1 := rfl
  rw [saturatingAdd]
  split
  · rename_i hfits
    rw [UInt64.toNat_add, Nat.mod_eq_of_lt hfits, Nat.min_eq_left (Nat.le_sub_one_of_lt hfits)]
  · rename_i hover
    rw [hmax, Nat.min_eq_right]
    omega

theorem toNat_monotonicCreatedAt (now t : UInt64) :
    (monotonicCreatedAt now (some t)).toNat = max now.toNat (min (t.toNat + 1) (2 ^ 64 - 1)) := by
  have hmax : ∀ a b : UInt64, (max a b).toNat = max a.toNat b.toNat := by
    intro a b
    rw [Nat.max_def]
    exact (apply_ite UInt64.toNat (a ≤ b) b a).trans (if_congr UInt64.le_iff_toNat_le rfl rfl)
  rw [monotonicCreatedAt, hmax, toNat_saturatingAdd]
  rfl

/-- A write is later than the head that it replaces, unless the head has the last timestamp. -/
theorem lt_monotonicCreatedAt (now : UInt64) {t : UInt64} (h : t < U64_MAX) :
    t < monotonicCreatedAt now (some t) := by
  have hlt : t.toNat < 2 ^ 64 - 1 := UInt64.lt_iff_toNat_lt.mp h
  rw [UInt64.lt_iff_toNat_lt, toNat_monotonicCreatedAt]
  omega

theorem monotonicCreatedAt_max (now : UInt64) :
    monotonicCreatedAt now (some U64_MAX) = U64_MAX := by
  have hlt := now.toNat_lt
  have hmax : U64_MAX.toNat = 2 ^ 64 - 1 := rfl
  rw [← UInt64.toNat_inj, toNat_monotonicCreatedAt, hmax]
  omega

/-- A write is the new head when its rank is not below that of the old one. -/
theorem isHead_insert_iff {s : EventSet} {h e : Event} (hhead : IsHead s h)
    (hnew : e.id ∉ s.events.map (·.id)) :
    IsHead (s.insert e hnew) e ↔ rank h ≤ rank e := by
  rw [isHead_iff] at hhead ⊢
  constructor
  · rintro ⟨_, hall⟩
    exact hall h (List.mem_cons_of_mem _ hhead.1)
  · intro hle
    refine ⟨List.mem_cons_self, ?_⟩
    intro x hx
    rcases List.mem_cons.mp hx with rfl | hx
    · exact le_refl _
    · exact le_trans (hhead.2 x hx) hle

theorem rank_le_write_iff {h e : Event} {now : UInt64} (hne : e.id ≠ h.id)
    (hwrite : e.createdAt = monotonicCreatedAt now (some h.createdAt)) :
    rank h ≤ rank e ↔ h.createdAt < U64_MAX ∨ e.id.nibbles < h.id.nibbles := by
  have hrank : rank h ≠ rank e := by
    intro heq
    have hpair := congrArg Prod.snd (congrArg ofLex heq)
    exact hne (HexId.ext (OrderDual.toDual_inj.mp hpair).symm)
  rw [hrank.le_iff_lt, rank_lt_iff]
  by_cases hlast : h.createdAt < U64_MAX
  · have hlater := lt_monotonicCreatedAt now hlast
    rw [← hwrite] at hlater
    exact ⟨fun _ => .inl hlast, fun _ => .inl hlater⟩
  · have hmax : h.createdAt = U64_MAX := by
      have hle : h.createdAt.toNat < 2 ^ 64 := h.createdAt.toNat_lt
      have hge : 2 ^ 64 - 1 ≤ h.createdAt.toNat := UInt64.le_iff_toNat_le.mp (UInt64.not_lt.mp hlast)
      apply UInt64.toNat_inj.mp
      exact Nat.le_antisymm (Nat.le_sub_one_of_lt hle) hge
    rw [hmax, monotonicCreatedAt_max] at hwrite
    rw [hwrite, hmax]
    constructor
    · rintro (hlt | ⟨_, hid⟩)
      · exact absurd hlt (UInt64.lt_irrefl _)
      · exact .inr hid
    · rintro (hlt | hid)
      · exact absurd hlt (UInt64.lt_irrefl _)
      · exact .inr ⟨rfl, hid⟩

/-- The head of a set, whatever the order in which its events come. -/
def OrderIndependent : Prop :=
  ∀ (s : EventSet) (order order' : List Event), s.Yields order → s.Yields order' →
    selectHead order = selectHead order' ∧ ∀ h, selectHead order = some h ↔ IsHead s h

/-- A new event that follows the writing rule for the head `h` of a set. -/
structure Write (s : EventSet) (now : UInt64) (h e : Event) : Prop where
  head : selectHead s.events = some h
  fresh : e.id ∉ s.events.map (·.id)
  createdAt : e.createdAt = monotonicCreatedAt now (some h.createdAt)

/-- A write wins in every set, at every time and in every order. -/
def WriteWins : Prop :=
  ∀ (s : EventSet) (now : UInt64) (h e : Event) (w : Write s now h e) (order : List Event),
    (s.insert e w.fresh).Yields order → selectHead order = some e

theorem orderIndependent : OrderIndependent := by
  intro s order order' horder horder'
  refine ⟨?_, selectHead_iff horder⟩
  apply Option.ext
  intro h
  rw [selectHead_iff horder, selectHead_iff horder']

theorem selectHead_insert_iff {s : EventSet} {now : UInt64} {h e : Event} (w : Write s now h e)
    {order : List Event} (horder : (s.insert e w.fresh).Yields order) :
    selectHead order = some e ↔ h.createdAt < U64_MAX ∨ e.id.nibbles < h.id.nibbles := by
  have hhead : IsHead s h := (selectHead_iff (List.Perm.refl _) h).mp w.head
  have hne : e.id ≠ h.id := by
    intro heq
    apply w.fresh
    rw [heq]
    exact List.mem_map_of_mem hhead.1
  rw [selectHead_iff horder, isHead_insert_iff hhead, rank_le_write_iff hne w.createdAt]

/-- The head is well defined, and a write wins while there is a later timestamp than the head's. At
the last timestamp the ids decide. -/
theorem lastWriterWins :
    OrderIndependent ∧
    (∀ (order order' : List Event), (∀ e, e ∈ order ↔ e ∈ order') →
      (selectHead order).map rank = (selectHead order').map rank) ∧
    ∀ (s : EventSet) (now : UInt64) (h e : Event) (w : Write s now h e) (order : List Event),
      (s.insert e w.fresh).Yields order →
      (selectHead order = some e ↔ h.createdAt < U64_MAX ∨ e.id.nibbles < h.id.nibbles) := by
  refine ⟨orderIndependent, ?_, ?_⟩
  · intro order order' hmem
    rw [selectHead_eq_argmax, selectHead_eq_argmax]
    exact argmax_congr hmem
  · intro s now h e w order horder
    exact selectHead_insert_iff w horder

/-- An event that its id and its timestamp tell apart. -/
def eventAt (createdAt : UInt64) (id : Nat) : Event :=
  ⟨HexId.ofNat 64 id, HexId.ofNat 64 0, createdAt, 30174, []⟩

def oneEvent (e : Event) : EventSet :=
  ⟨[e], List.nodup_singleton _⟩

/-- A clock that is behind the head does not keep the write from winning. -/
theorem lastWriterWins_behind :
    selectHead [eventAt 5 1, eventAt 6 2] = some (eventAt 6 2) := by
  have hwrite : Write (oneEvent (eventAt 5 1)) 3 (eventAt 5 1) (eventAt 6 2) :=
    ⟨rfl, by decide, rfl⟩
  have hiff := lastWriterWins.2.2 _ 3 _ _ hwrite [eventAt 5 1, eventAt 6 2] (List.Perm.swap _ _ _)
  exact hiff.mpr (.inl (by decide))

/-- At the last timestamp the write has the head's own, and its id may be the greater one. -/
theorem not_lastWriterWins : ¬ (OrderIndependent ∧ WriteWins) := by
  rintro ⟨_, hwins⟩
  have hwrite : Write (oneEvent (eventAt U64_MAX 1)) 0 (eventAt U64_MAX 1) (eventAt U64_MAX 2) :=
    ⟨rfl, by decide, rfl⟩
  have hhead := hwins _ 0 _ _ hwrite [eventAt U64_MAX 2, eventAt U64_MAX 1] (List.Perm.refl _)
  have hnot : selectHead [eventAt U64_MAX 2, eventAt U64_MAX 1] ≠ some (eventAt U64_MAX 2) := by
    decide
  exact hnot hhead

end Buzz.Engram
