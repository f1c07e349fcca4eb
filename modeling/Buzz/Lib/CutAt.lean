import Mathlib

namespace Buzz
set_option autoImplicit true

/-- What stands before and after the first occurrence of a pattern. -/
def cutAt [BEq α] (pat : List α) : List α → Option (List α × List α)
  | [] => ([].dropPrefix? pat).map fun rest => ([], rest)
  | c :: cs =>
    match (c :: cs).dropPrefix? pat with
    | some rest => some ([], rest)
    | none => (cutAt pat cs).map fun r => (c :: r.1, r.2)

variable {α : Type} [BEq α] [LawfulBEq α] {pat before after cs before' after' : List α}

/-- The pattern stands between the two parts, and nowhere further to the left. -/
structure FirstAt (pat before after cs : List α) : Prop where
  eq : cs = before ++ (pat ++ after)
  first : ∀ b a, cs = b ++ (pat ++ a) → before.length ≤ b.length

omit [BEq α] [LawfulBEq α] in
theorem FirstAt.unique (h : FirstAt pat before after cs) (h' : FirstAt pat before' after' cs) :
    before = before' ∧ after = after' := by
  have hlength : before.length = before'.length :=
    Nat.le_antisymm (h.first _ _ h'.eq) (h'.first _ _ h.eq)
  obtain ⟨rfl, hrest⟩ := List.append_inj (h.eq.symm.trans h'.eq) hlength
  exact ⟨rfl, List.append_cancel_left hrest⟩

theorem dropPrefix_eq_some : cs.dropPrefix? pat = some after ↔ cs = pat ++ after := by
  rw [List.dropPrefix?_eq_some_iff]
  constructor
  · rintro ⟨pre, hcs, hpre⟩
    rw [beq_iff_eq] at hpre
    rw [hcs, hpre]
  · rintro rfl
    exact ⟨pat, rfl, beq_self_eq_true pat⟩

theorem firstAt_of_cutAt (h : cutAt pat cs = some (before, after)) :
    FirstAt pat before after cs := by
  induction cs generalizing before with
  | nil =>
    obtain ⟨rest, hrest, heq⟩ := Option.map_eq_some_iff.mp h
    obtain ⟨rfl, rfl⟩ := Prod.mk.inj heq
    have hstart := dropPrefix_eq_some.mp hrest
    exact ⟨hstart, fun b a _ => Nat.zero_le _⟩
  | cons c cs ih =>
    rw [cutAt] at h
    split at h
    · rename_i rest hrest
      obtain ⟨rfl, rfl⟩ := Prod.mk.inj (Option.some.inj h)
      have hstart := dropPrefix_eq_some.mp hrest
      exact ⟨hstart, fun b a _ => Nat.zero_le _⟩
    · rename_i hnone
      obtain ⟨⟨b, a⟩, hcut, heq⟩ := Option.map_eq_some_iff.mp h
      obtain ⟨rfl, rfl⟩ := Prod.mk.inj heq
      have htail := ih hcut
      refine ⟨congrArg (c :: ·) htail.eq, ?_⟩
      intro b' a' hcs
      cases b' with
      | nil =>
        rw [List.nil_append] at hcs
        rw [dropPrefix_eq_some.mpr hcs] at hnone
        cases hnone
      | cons d b' =>
        obtain ⟨_, hcs⟩ := List.cons.inj hcs
        exact Nat.succ_le_succ (htail.first b' a' hcs)

theorem not_of_cutAt (h : cutAt pat cs = none) (before after : List α) :
    cs ≠ before ++ (pat ++ after) := by
  induction cs generalizing before with
  | nil =>
    intro hcs
    obtain ⟨rfl, hpat⟩ := List.append_eq_nil_iff.mp hcs.symm
    rw [cutAt, dropPrefix_eq_some.mpr hpat.symm] at h
    cases h
  | cons c cs ih =>
    rw [cutAt] at h
    split at h
    · cases h
    · rename_i hnone
      intro hcs
      cases before with
      | nil =>
        rw [List.nil_append] at hcs
        rw [dropPrefix_eq_some.mpr hcs] at hnone
        cases hnone
      | cons d before =>
        obtain ⟨_, hcs⟩ := List.cons.inj hcs
        exact ih (Option.map_eq_none_iff.mp h) before hcs

theorem cutAt_eq_some_iff : cutAt pat cs = some (before, after) ↔ FirstAt pat before after cs := by
  refine ⟨firstAt_of_cutAt, ?_⟩
  intro h
  cases hcut : cutAt pat cs with
  | none => exact absurd h.eq (not_of_cutAt hcut before after)
  | some r =>
    obtain ⟨rfl, rfl⟩ := (firstAt_of_cutAt hcut).unique h
    rfl

theorem cutAt_eq_none_iff : cutAt pat cs = none ↔ ∀ before after, cs ≠ before ++ (pat ++ after) := by
  refine ⟨not_of_cutAt, ?_⟩
  intro h
  cases hcut : cutAt pat cs with
  | none => rfl
  | some r => exact absurd (firstAt_of_cutAt hcut).eq (h r.1 r.2)

theorem length_cutAt (h : cutAt pat cs = some (before, after)) :
    cs.length = before.length + (pat.length + after.length) := by
  rw [(firstAt_of_cutAt h).eq, List.length_append, List.length_append]

end Buzz
