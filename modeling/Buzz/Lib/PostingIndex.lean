import Mathlib

namespace Buzz
set_option autoImplicit true

/-- Append `a` unless it is already in the list. -/
def pushNew [DecidableEq α] (l : List α) (a : α) : List α :=
  if a ∈ l then l else l ++ [a]

theorem mem_pushNew [DecidableEq α] {l : List α} {a b : α} :
    b ∈ pushNew l a ↔ b ∈ l ∨ b = a := by
  rw [pushNew]
  split
  · rename_i ha
    constructor
    · exact .inl
    · rintro (hb | rfl)
      · exact hb
      · exact ha
  · rw [List.mem_append, List.mem_singleton]

theorem mem_foldl_pushNew [DecidableEq α] {l as : List α} {b : α} :
    b ∈ as.foldl pushNew l ↔ b ∈ l ∨ b ∈ as := by
  induction as generalizing l with
  | nil => simp
  | cons a as ih =>
    rw [List.foldl_cons, ih, mem_pushNew, List.mem_cons, or_assoc]

theorem nodup_pushNew [DecidableEq α] {l : List α} (h : l.Nodup) (a : α) :
    (pushNew l a).Nodup := by
  rw [pushNew]
  split
  · exact h
  · rename_i ha
    exact List.nodup_append.mpr ⟨h, List.nodup_singleton a, by
      rintro b hb c hc rfl
      exact ha (List.mem_singleton.mp hc ▸ hb)⟩

theorem nodup_foldl_pushNew [DecidableEq α] {l : List α} (h : l.Nodup) (as : List α) :
    (as.foldl pushNew l).Nodup := by
  induction as generalizing l with
  | nil => exact h
  | cons a as ih => exact ih (nodup_pushNew h a)

/-- An inverted index: the values posted under each key. -/
abbrev PostingIndex (K V : Type) := AList (fun _ : K => List V)

namespace PostingIndex
variable {K V : Type} [DecidableEq K] {ix : PostingIndex K V} {k k' : K} {v w : V}

def postings (ix : PostingIndex K V) (k : K) : List V :=
  (ix.lookup k).getD []

def push (ix : PostingIndex K V) (k : K) (v : V) : PostingIndex K V :=
  ix.insert k (ix.postings k ++ [v])

def pushAll (ix : PostingIndex K V) (ks : List K) (v : V) : PostingIndex K V :=
  ks.foldl (fun ix k => ix.push k v) ix

/-- No key maps to an empty list. -/
def NoEmpty (ix : PostingIndex K V) : Prop :=
  ∀ k l, ix.lookup k = some l → l ≠ []

@[simp]
theorem postings_empty (k : K) : postings (∅ : PostingIndex K V) k = [] := by
  simp [postings]

theorem postings_of_lookup (h : ix.lookup k = some l) : ix.postings k = l := by
  rw [postings, h, Option.getD_some]

theorem noEmpty_empty : NoEmpty (∅ : PostingIndex K V) := by
  intro k l h
  simp at h

theorem mem_postings_push :
    w ∈ (ix.push k v).postings k' ↔ w ∈ ix.postings k' ∨ (k' = k ∧ w = v) := by
  by_cases hk : k' = k
  · subst hk
    simp [push, postings]
  · simp [push, postings, AList.lookup_insert_ne hk, hk]

theorem NoEmpty.push (h : NoEmpty ix) (k : K) (v : V) : NoEmpty (ix.push k v) := by
  intro k' l hl
  by_cases hk : k' = k
  · subst hk
    rw [PostingIndex.push, AList.lookup_insert, Option.some.injEq] at hl
    rw [← hl]
    simp
  · rw [PostingIndex.push, AList.lookup_insert_ne hk] at hl
    exact h k' l hl

theorem mem_postings_pushAll {ks : List K} :
    w ∈ (ix.pushAll ks v).postings k' ↔ w ∈ ix.postings k' ∨ (k' ∈ ks ∧ w = v) := by
  induction ks generalizing ix with
  | nil => simp [pushAll]
  | cons k ks ih =>
    change w ∈ ((ix.push k v).pushAll ks v).postings k' ↔ _
    rw [ih, mem_postings_push, List.mem_cons, or_assoc, ← or_and_right]

theorem NoEmpty.pushAll (h : NoEmpty ix) (ks : List K) (v : V) : NoEmpty (ix.pushAll ks v) := by
  induction ks generalizing ix with
  | nil => exact h
  | cons k ks ih => exact ih (h.push k v)

/-- An index without empty keys that posts nothing is empty. -/
theorem NoEmpty.eq_empty (h : NoEmpty ix) (hp : ∀ k, ix.postings k = []) : ix = ∅ := by
  by_contra hne
  obtain ⟨k, hk⟩ : ∃ k, k ∈ ix := by
    by_contra hall
    apply hne
    have he : ix.entries = [] := by
      apply List.eq_nil_iff_forall_not_mem.mpr
      rintro ⟨k, l⟩ hm
      exact hall ⟨k, AList.mem_keys.mpr (List.mem_map_of_mem hm)⟩
    exact AList.ext he
  obtain ⟨l, hl⟩ := Option.isSome_iff_exists.mp (AList.lookup_isSome.mpr hk)
  apply h k l hl
  simpa [postings, hl] using hp k

variable [DecidableEq V]

/-- Drop every `v` under `k`, and the key itself once nothing is left under it. -/
def retract (ix : PostingIndex K V) (k : K) (v : V) : PostingIndex K V :=
  match ix.lookup k with
  | some entries =>
    if (entries.filter (· ≠ v)).isEmpty then ix.erase k
    else ix.insert k (entries.filter (· ≠ v))
  | none => ix

def retractAll (ix : PostingIndex K V) (ks : List K) (v : V) : PostingIndex K V :=
  ks.foldl (fun ix k => ix.retract k v) ix

theorem mem_postings_retract :
    w ∈ (ix.retract k v).postings k' ↔ w ∈ ix.postings k' ∧ ¬(k' = k ∧ w = v) := by
  cases hl : ix.lookup k with
  | none =>
    simp only [retract, hl]
    refine ⟨fun hw => ⟨hw, ?_⟩, And.left⟩
    rintro ⟨rfl, rfl⟩
    simp [postings, hl] at hw
  | some entries =>
    by_cases hk : k' = k
    · subst hk
      by_cases he : entries.filter (· ≠ v) = []
      · have hall : ∀ a ∈ entries, a = v := by simpa [List.filter_eq_nil_iff] using he
        simp only [retract, hl, he, List.isEmpty_nil, ↓reduceIte, postings, AList.lookup_erase,
          Option.getD_none, Option.getD_some, List.not_mem_nil, true_and, false_iff, not_and,
          not_not]
        exact hall w
      · have hne : (entries.filter (· ≠ v)).isEmpty = false := by simpa using he
        simp only [retract, hl, hne, Bool.false_eq_true, ↓reduceIte, postings, AList.lookup_insert,
          Option.getD_some, List.mem_filter, decide_eq_true_eq, true_and]
    · have hfr : (ix.retract k v).lookup k' = ix.lookup k' := by
        simp only [retract, hl]
        split
        · exact AList.lookup_erase_ne hk
        · exact AList.lookup_insert_ne hk
      simp [postings, hfr, hk]

theorem NoEmpty.retract (h : NoEmpty ix) (k : K) (v : V) : NoEmpty (ix.retract k v) := by
  intro k' l hl
  cases hk : ix.lookup k with
  | none =>
    simp only [PostingIndex.retract, hk] at hl
    exact h k' l hl
  | some entries =>
    simp only [PostingIndex.retract, hk] at hl
    split at hl
    · by_cases he : k' = k
      · subst he
        simp at hl
      · rw [AList.lookup_erase_ne he] at hl
        exact h k' l hl
    · rename_i hne
      by_cases he : k' = k
      · subst he
        rw [AList.lookup_insert, Option.some.injEq] at hl
        rw [← hl]
        simpa using hne
      · rw [AList.lookup_insert_ne he] at hl
        exact h k' l hl

theorem mem_postings_retractAll {ks : List K} :
    w ∈ (ix.retractAll ks v).postings k' ↔ w ∈ ix.postings k' ∧ ¬(k' ∈ ks ∧ w = v) := by
  induction ks generalizing ix with
  | nil => simp [retractAll]
  | cons k ks ih =>
    change w ∈ ((ix.retract k v).retractAll ks v).postings k' ↔ _
    rw [ih, mem_postings_retract, List.mem_cons, and_assoc, ← not_or, ← or_and_right]

theorem NoEmpty.retractAll (h : NoEmpty ix) (ks : List K) (v : V) :
    NoEmpty (ix.retractAll ks v) := by
  induction ks generalizing ix with
  | nil => exact h
  | cons k ks ih => exact ih (h.retract k v)

end PostingIndex

end Buzz
