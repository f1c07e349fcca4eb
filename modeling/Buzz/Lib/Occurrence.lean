import Buzz.Lib.CutAt
import Buzz.Lib.Utf8

namespace Buzz
set_option autoImplicit true

section Pieces

variable {α : Type} [DecidableEq α] {pat cs before after : List α} {P : List α → Prop}

theorem length_of_cutAt (h : pat ≠ []) (hcut : cutAt pat cs = some (before, after)) :
    after.length < cs.length := by
  have hlen := length_cutAt hcut
  have hpos := List.length_pos_iff.mpr h
  omega

/-- A search goes on behind each occurrence that it finds. -/
theorem cutAt_induction (h : pat ≠ []) (hnone : ∀ cs, cutAt pat cs = none → P cs)
    (hsome : ∀ cs before after, cutAt pat cs = some (before, after) → P after → P cs)
    (cs : List α) : P cs := by
  induction hn : cs.length using Nat.strong_induction_on generalizing cs with
  | _ n ih =>
    cases hcut : cutAt pat cs with
    | none => exact hnone cs hcut
    | some r =>
      have hlt : r.2.length < n := hn ▸ length_of_cutAt h hcut
      exact hsome cs r.1 r.2 hcut (ih _ hlt r.2 rfl)

/-- The number of occurrences that are found one behind the other. -/
def matchCount (h : pat ≠ []) (cs : List α) : ℕ :=
  match hcut : cutAt pat cs with
  | none => 0
  | some (_, after) => matchCount h after + 1
termination_by cs.length
decreasing_by exact length_of_cutAt h hcut

/-- The parts between these occurrences. -/
def pieces (h : pat ≠ []) (cs : List α) : List (List α) :=
  match hcut : cutAt pat cs with
  | none => [cs]
  | some (before, after) => before :: pieces h after
termination_by cs.length
decreasing_by exact length_of_cutAt h hcut

/-- Replace each of these occurrences. -/
def replaceAll (h : pat ≠ []) (new cs : List α) : List α :=
  match hcut : cutAt pat cs with
  | none => cs
  | some (before, after) => before ++ (new ++ replaceAll h new after)
termination_by cs.length
decreasing_by exact length_of_cutAt h hcut

/-- Replace the first occurrence. -/
def replaceFirst (pat new cs : List α) : List α :=
  match cutAt pat cs with
  | none => cs
  | some (before, after) => before ++ (new ++ after)

variable (h : pat ≠ [])

theorem matchCount_none (hcut : cutAt pat cs = none) : matchCount h cs = 0 := by
  rw [matchCount]
  split
  · rfl
  · rename_i hsome
    rw [hcut] at hsome
    cases hsome

theorem matchCount_some (hcut : cutAt pat cs = some (before, after)) :
    matchCount h cs = matchCount h after + 1 := by
  rw [matchCount]
  split
  · rename_i hnone
    rw [hcut] at hnone
    cases hnone
  · rename_i hsome
    rw [hcut] at hsome
    cases hsome
    rfl

theorem pieces_none (hcut : cutAt pat cs = none) : pieces h cs = [cs] := by
  rw [pieces]
  split
  · rfl
  · rename_i hsome
    rw [hcut] at hsome
    cases hsome

theorem pieces_some (hcut : cutAt pat cs = some (before, after)) :
    pieces h cs = before :: pieces h after := by
  rw [pieces]
  split
  · rename_i hnone
    rw [hcut] at hnone
    cases hnone
  · rename_i hsome
    rw [hcut] at hsome
    cases hsome
    rfl

theorem replaceAll_none (hcut : cutAt pat cs = none) (new : List α) :
    replaceAll h new cs = cs := by
  rw [replaceAll]
  split
  · rfl
  · rename_i hsome
    rw [hcut] at hsome
    cases hsome

theorem replaceAll_some (hcut : cutAt pat cs = some (before, after)) (new : List α) :
    replaceAll h new cs = before ++ (new ++ replaceAll h new after) := by
  rw [replaceAll]
  split
  · rename_i hnone
    rw [hcut] at hnone
    cases hnone
  · rename_i hsome
    rw [hcut] at hsome
    cases hsome
    rfl

theorem pieces_ne_nil (cs : List α) : pieces h cs ≠ [] := by
  cases hcut : cutAt pat cs with
  | none =>
    rw [pieces_none h hcut]
    exact List.cons_ne_nil _ _
  | some r =>
    rw [pieces_some h hcut]
    exact List.cons_ne_nil _ _

theorem length_pieces (cs : List α) : (pieces h cs).length = matchCount h cs + 1 := by
  induction cs using cutAt_induction h with
  | hnone cs hcut => rw [pieces_none h hcut, matchCount_none h hcut]; rfl
  | hsome cs before after hcut ih =>
    rw [pieces_some h hcut, matchCount_some h hcut, List.length_cons, ih]

omit [DecidableEq α] in
theorem intercalate_cons (sep piece : List α) {rest : List (List α)} (hrest : rest ≠ []) :
    sep.intercalate (piece :: rest) = piece ++ (sep ++ sep.intercalate rest) := by
  obtain ⟨next, rest, rfl⟩ := List.exists_cons_of_ne_nil hrest
  rw [List.intercalate, List.intercalate, List.intersperse_cons_cons, List.flatten_cons,
    List.flatten_cons]

theorem replaceAll_eq (new cs : List α) : replaceAll h new cs = new.intercalate (pieces h cs) := by
  induction cs using cutAt_induction h with
  | hnone cs hcut =>
    rw [replaceAll_none h hcut, pieces_none h hcut, List.intercalate_singleton]
  | hsome cs before after hcut ih =>
    rw [replaceAll_some h hcut, pieces_some h hcut, intercalate_cons _ _ (pieces_ne_nil h after),
      ih]

theorem intercalate_pieces (cs : List α) : pat.intercalate (pieces h cs) = cs := by
  induction cs using cutAt_induction h with
  | hnone cs hcut => rw [pieces_none h hcut, List.intercalate_singleton]
  | hsome cs before after hcut ih =>
    rw [pieces_some h hcut, intercalate_cons _ _ (pieces_ne_nil h after), ih]
    exact (firstAt_of_cutAt hcut).eq.symm

end Pieces

section Size

variable {pat cs before after b a : List Char} {i : ℕ}

/-- A pattern occurs at a byte position. -/
def OccursAt (pat cs : List Char) (i : ℕ) : Prop :=
  ∃ before after, cs = before ++ (pat ++ after) ∧ textSize before = i

theorem textSize_pos (h : cs ≠ []) : 0 < textSize cs := by
  obtain ⟨c, cs, rfl⟩ := List.exists_cons_of_ne_nil h
  rw [textSize_cons]
  exact Nat.add_pos_left c.utf8Size_pos _

/-- A byte position is where one part of the text ends. -/
theorem before_eq_of_textSize {x y : List Char} (h : before ++ x = b ++ y)
    (hsize : textSize before = textSize b) : before = b := by
  have hsame : ∀ {u v x y : List Char}, u ++ x = v ++ y → textSize u = textSize v →
      u.length ≤ v.length → u = v := by
    intro u v x y heq hsize hle
    obtain ⟨t, rfl⟩ := List.prefix_of_prefix_length_le (List.prefix_append u x)
      (heq ▸ List.prefix_append v y) hle
    rw [textSize_append] at hsize
    have ht : t = [] := by
      by_contra hne
      have hpos := textSize_pos hne
      omega
    rw [ht, List.append_nil]
  rcases Nat.le_total before.length b.length with hle | hle
  · exact hsame h hsize hle
  · exact (hsame h.symm hsize.symm hle).symm

/-- What each replacement does to the size. -/
theorem textSize_replaceAll (h : pat ≠ []) (new cs : List Char) :
    textSize (replaceAll h new cs) + matchCount h cs * textSize pat =
      textSize cs + matchCount h cs * textSize new := by
  induction cs using cutAt_induction h with
  | hnone cs hcut => rw [replaceAll_none h hcut, matchCount_none h hcut, Nat.zero_mul, Nat.zero_mul]
  | hsome cs before after hcut ih =>
    rw [replaceAll_some h hcut, matchCount_some h hcut, (firstAt_of_cutAt hcut).eq]
    simp only [textSize_append, Nat.succ_mul]
    omega

end Size

end Buzz
