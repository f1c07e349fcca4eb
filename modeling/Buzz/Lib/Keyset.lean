import Mathlib

namespace Buzz.Keyset
set_option autoImplicit true

/-- One page of a listing: its rows, whether more follow them, and the key to go on from. -/
structure Page (ρ κ : Type) where
  rows : List ρ
  hasMore : Bool
  next : Option κ

variable {ρ κ : Type} [LinearOrder κ] (key : ρ → κ)

def After (cursor : Option κ) (row : ρ) : Prop :=
  ∀ c, cursor = some c → c < key row

instance (cursor : Option κ) (row : ρ) : Decidable (After key cursor row) :=
  match cursor with
  | none => isTrue fun _ h => nomatch h
  | some c => decidable_of_iff (c < key row)
      ⟨fun h _ hd => Option.some.inj hd ▸ h, fun h => h c rfl⟩

/-- The rows after the cursor, in the order of their keys. -/
def scan (cursor : Option κ) (rows : List ρ) : List ρ :=
  (rows.filter fun row => After key cursor row).insertionSort fun a b => key a ≤ key b

/-- Rows of one key are one row. -/
def Keyed (rows : List ρ) : Prop :=
  (rows.map key).Nodup

section Scan

variable {key} {cursor : Option κ} {rows : List ρ}

theorem After.none (row : ρ) : After key none row := by
  intro c hc
  cases hc

theorem After.some_iff {c : κ} {row : ρ} : After key (some c) row ↔ c < key row := by
  constructor
  · intro h
    exact h c rfl
  · intro h d hd
    cases hd
    exact h

theorem mem_scan {row : ρ} : row ∈ scan key cursor rows ↔ row ∈ rows ∧ After key cursor row := by
  rw [scan, List.mem_insertionSort, List.mem_filter, decide_eq_true_eq]

theorem scan_pairwise (hkeyed : Keyed key rows) :
    (scan key cursor rows).Pairwise fun a b => key a < key b := by
  have hle : (scan key cursor rows).Pairwise fun a b => key a ≤ key b := by
    have : Std.Total fun a b : ρ => key a ≤ key b := ⟨fun a b => le_total (key a) (key b)⟩
    have : IsTrans ρ fun a b => key a ≤ key b := ⟨fun _ _ _ => le_trans⟩
    exact List.pairwise_insertionSort _ _
  have hperm : (scan key cursor rows).Perm (rows.filter fun row => After key cursor row) :=
    List.perm_insertionSort _ _
  have hnodup : ((scan key cursor rows).map key).Nodup := by
    apply (hperm.map key).nodup_iff.mpr
    exact hkeyed.sublist (List.filter_sublist.map key)
  rw [List.Nodup, List.pairwise_map] at hnodup
  exact (hle.and hnodup).imp fun h => lt_of_le_of_ne h.1 h.2

/-- Whatever is cut off a page comes after all that is on it. -/
theorem take_lt_drop (hkeyed : Keyed key rows) (n : Nat) {a b : ρ}
    (ha : a ∈ (scan key cursor rows).take n) (hb : b ∈ (scan key cursor rows).drop n) :
    key a < key b := by
  have h : (scan key cursor rows).Pairwise fun a b => key a < key b := scan_pairwise hkeyed
  rw [← List.take_append_drop n (scan key cursor rows), List.pairwise_append] at h
  exact h.2.2 a ha b hb

end Scan

/-- The first `n` rows after the cursor. One row more than that shows that there are more. -/
def fetch (n : Nat) (cursor : Option κ) (rows : List ρ) : Page ρ κ where
  rows := (scan key cursor rows).take n
  hasMore := n < (scan key cursor rows).length
  next :=
    if n < (scan key cursor rows).length then
      ((scan key cursor rows).take n).getLast?.map key
    else none

section Fetch

variable {key} {n : Nat} {cursor : Option κ} {rows : List ρ} {row : ρ}

theorem fetch_sublist : (fetch key n cursor rows).rows.Sublist (scan key cursor rows) :=
  List.take_sublist n _

theorem mem_of_mem_fetch (h : row ∈ (fetch key n cursor rows).rows) :
    row ∈ rows ∧ After key cursor row :=
  mem_scan.mp (fetch_sublist.subset h)

theorem hasMore_iff (hkeyed : Keyed key rows) :
    (fetch key n cursor rows).hasMore = true ↔
      ∃ row ∈ rows, After key cursor row ∧ ∀ x ∈ (fetch key n cursor rows).rows,
        key x < key row := by
  simp only [fetch, decide_eq_true_eq]
  constructor
  · intro h
    have hmem : (scan key cursor rows)[n] ∈ (scan key cursor rows).drop n := by
      rw [List.drop_eq_getElem_cons h]
      exact List.mem_cons_self
    have hrow := mem_scan.mp (List.mem_of_mem_drop hmem)
    exact ⟨_, hrow.1, hrow.2, fun x hx => take_lt_drop hkeyed n hx hmem⟩
  · intro ⟨row, hrow, hafter, hlt⟩
    by_contra hlen
    rw [List.take_of_length_le (Nat.not_lt.mp hlen)] at hlt
    exact lt_irrefl _ (hlt row (mem_scan.mpr ⟨hrow, hafter⟩))

theorem next_of_not_hasMore (h : (fetch key n cursor rows).hasMore = false) :
    (fetch key n cursor rows).next = none := by
  simp only [fetch, decide_eq_false_iff_not] at h ⊢
  exact if_neg h

/-- The cursor of a page is the key of its last row, the largest one there. -/
theorem next_of_hasMore (hkeyed : Keyed key rows) (hn : 1 ≤ n)
    (h : (fetch key n cursor rows).hasMore = true) :
    ∃ last ∈ (fetch key n cursor rows).rows, (fetch key n cursor rows).next = some (key last) ∧
      ∀ x ∈ (fetch key n cursor rows).rows, key x ≤ key last := by
  simp only [fetch, decide_eq_true_eq] at h ⊢
  have hne : (scan key cursor rows).take n ≠ [] := by
    intro hnil
    have hlen := congrArg List.length hnil
    rw [List.length_take, List.length_nil] at hlen
    omega
  have hpair : ((scan key cursor rows).take n).Pairwise fun a b => key a < key b :=
    (scan_pairwise hkeyed).sublist (List.take_sublist n _)
  refine ⟨_, List.getLast_mem hne, ?_, ?_⟩
  · rw [if_pos h, List.getLast?_eq_some_getLast hne, Option.map_some]
  · intro x hx
    rw [← List.dropLast_append_getLast hne, List.pairwise_append] at hpair
    rw [← List.dropLast_append_getLast hne, List.mem_append, List.mem_singleton] at hx
    cases hx with
    | inl hx => exact le_of_lt (hpair.2.2 x hx _ (List.mem_singleton_self _))
    | inr hx => rw [hx]

/-- A row after the cursor is on the page or after it. -/
theorem mem_fetch_or_after (hkeyed : Keyed key rows) (hrow : row ∈ rows)
    (hafter : After key cursor row) :
    row ∈ (fetch key n cursor rows).rows ∨
      (fetch key n cursor rows).hasMore = true ∧
        ∀ x ∈ (fetch key n cursor rows).rows, key x < key row := by
  have hmem : row ∈ scan key cursor rows := mem_scan.mpr ⟨hrow, hafter⟩
  rw [← List.take_append_drop n (scan key cursor rows), List.mem_append] at hmem
  cases hmem with
  | inl h => exact .inl h
  | inr h =>
    have hlt : ∀ x ∈ (fetch key n cursor rows).rows, key x < key row :=
      fun x hx => take_lt_drop hkeyed n hx h
    exact .inr ⟨(hasMore_iff hkeyed).mpr ⟨row, hrow, hafter, hlt⟩, hlt⟩

end Fetch

/-- A step of a walk: the rows there were, the cursor it came with, the page it got. -/
structure Step (ρ κ : Type) where
  rows : List ρ
  cursor : Option κ
  page : Page ρ κ

/-- Page after page over rows that change in between, until a page has no more after it. -/
def walk (n : Nat) : Option κ → List (List ρ) → List (Step ρ κ)
  | _, [] => []
  | cursor, rows :: history =>
    let page := fetch key n cursor rows
    ⟨rows, cursor, page⟩ :: if page.hasMore then walk n page.next history else []

/-- The walk got to a last page. -/
def Ended (steps : List (Step ρ κ)) : Prop :=
  ∃ step, steps.getLast? = some step ∧ step.page.hasMore = false

def listed (steps : List (Step ρ κ)) : List ρ :=
  steps.flatMap fun step => step.page.rows

section Walk

variable {key} {n : Nat} {cursor : Option κ} {history : List (List ρ)}

theorem walk_cons (rows : List ρ) (history : List (List ρ)) :
    walk key n cursor (rows :: history) =
      ⟨rows, cursor, fetch key n cursor rows⟩ ::
        if (fetch key n cursor rows).hasMore then
          walk key n (fetch key n cursor rows).next history
        else [] := rfl

/-- Each page of a walk is one fetch from the rows and the cursor of its step. -/
theorem walk_page {step : Step ρ κ} (h : step ∈ walk key n cursor history) :
    step.page = fetch key n step.cursor step.rows ∧ step.rows ∈ history := by
  induction history generalizing cursor with
  | nil => cases h
  | cons rows history ih =>
    rw [walk_cons, List.mem_cons] at h
    cases h with
    | inl h =>
      subst h
      exact ⟨rfl, List.mem_cons_self⟩
    | inr h =>
      by_cases hmore : (fetch key n cursor rows).hasMore = true
      · rw [if_pos hmore] at h
        have hstep := ih h
        exact ⟨hstep.1, List.mem_cons_of_mem rows hstep.2⟩
      · rw [if_neg hmore] at h
        cases h

theorem walk_pairwise (hkeyed : ∀ rows ∈ history, Keyed key rows) (hn : 1 ≤ n) :
    (∀ row ∈ listed (walk key n cursor history), After key cursor row) ∧
      (listed (walk key n cursor history)).Pairwise fun a b => key a < key b := by
  induction history generalizing cursor with
  | nil => exact ⟨fun row h => (nomatch h), List.Pairwise.nil⟩
  | cons rows history ih =>
    have hrows : Keyed key rows := hkeyed rows List.mem_cons_self
    have hpage : ∀ row ∈ (fetch key n cursor rows).rows, After key cursor row :=
      fun row h => (mem_of_mem_fetch h).2
    have hsorted : (fetch key n cursor rows).rows.Pairwise fun a b => key a < key b :=
      (scan_pairwise hrows).sublist fetch_sublist
    rw [walk_cons, listed, List.flatMap_cons]
    by_cases hmore : (fetch key n cursor rows).hasMore = true
    · rw [if_pos hmore]
      obtain ⟨last, hlast, hnext, hmax⟩ := next_of_hasMore hrows hn hmore
      obtain ⟨hrest, hpair⟩ := @ih (fetch key n cursor rows).next
        fun rows' h => hkeyed rows' (List.mem_cons_of_mem rows h)
      have hbeyond : ∀ row ∈ listed (walk key n (fetch key n cursor rows).next history),
          key last < key row := by
        intro row h
        exact hrest row h _ hnext
      constructor
      · intro row h
        rw [List.mem_append] at h
        cases h with
        | inl h => exact hpage row h
        | inr h =>
          intro c hc
          exact lt_trans (hpage last hlast c hc) (hbeyond row h)
      · rw [List.pairwise_append]
        exact ⟨hsorted, hpair, fun x hx y hy => lt_of_le_of_lt (hmax x hx) (hbeyond y hy)⟩
    · rw [if_neg hmore, List.flatMap_nil, List.append_nil]
      exact ⟨hpage, hsorted⟩

/-- A row that is there at every step is listed by a walk that ends. -/
theorem walk_complete (hkeyed : ∀ rows ∈ history, Keyed key rows) (hn : 1 ≤ n)
    (hended : Ended (walk key n cursor history)) {row : ρ} (hafter : After key cursor row)
    (hthere : ∀ step ∈ walk key n cursor history, row ∈ step.rows) :
    row ∈ listed (walk key n cursor history) := by
  induction history generalizing cursor with
  | nil =>
    obtain ⟨step, hstep, -⟩ := hended
    cases hstep
  | cons rows history ih =>
    have hrows : Keyed key rows := hkeyed rows List.mem_cons_self
    rw [walk_cons] at hended hthere ⊢
    rw [listed, List.flatMap_cons, List.mem_append]
    cases mem_fetch_or_after (n := n) hrows (hthere _ List.mem_cons_self) hafter with
    | inl h => exact .inl h
    | inr h =>
      obtain ⟨hmore, hlt⟩ := h
      rw [if_pos hmore] at hended hthere ⊢
      obtain ⟨last, hlast, hnext, -⟩ := next_of_hasMore hrows hn hmore
      right
      apply ih fun rows' h => hkeyed rows' (List.mem_cons_of_mem rows h)
      · obtain ⟨step, hstep, hdone⟩ := hended
        rw [List.getLast?_cons] at hstep
        cases hw : (walk key n (fetch key n cursor rows).next history).getLast? with
        | none =>
          rw [hw] at hstep
          cases hstep
          have hfalse : (fetch key n cursor rows).hasMore = false := hdone
          rw [hmore] at hfalse
          cases hfalse
        | some step' =>
          rw [hw] at hstep
          cases hstep
          exact ⟨step', hw, hdone⟩
      · intro c hc
        rw [hnext] at hc
        cases hc
        exact hlt last hlast
      · intro step h
        exact hthere step (List.mem_cons_of_mem _ h)

/-- Every cursor a walk goes on from lies beyond the one before. -/
theorem next_after (hkeyed : ∀ rows ∈ history, Keyed key rows) (hn : 1 ≤ n)
    {step : Step ρ κ} (h : step ∈ walk key n cursor history) (hmore : step.page.hasMore = true) :
    ∃ c, step.page.next = some c ∧ ∀ c', step.cursor = some c' → c' < c := by
  obtain ⟨hpage, hrows⟩ := walk_page h
  rw [hpage] at hmore ⊢
  obtain ⟨last, hlast, hnext, -⟩ := next_of_hasMore (hkeyed _ hrows) hn hmore
  exact ⟨key last, hnext, (mem_of_mem_fetch hlast).2⟩

end Walk

end Buzz.Keyset
