import Mathlib

namespace Buzz.LastWins
set_option autoImplicit true

/-- Values with a key and a version. -/
structure Versioned (κ ν : Type) where
  key : ν → κ
  version : ν → Nat

variable {κ ν : Type} (V : Versioned κ ν)

/-- The version of what is known under a key, if anything is. -/
def rank (known : Option ν) : WithBot Nat :=
  known.elim ⊥ fun r => (V.version r : WithBot Nat)

@[simp]
theorem rank_none : rank V none = ⊥ := rfl

@[simp]
theorem rank_some (r : ν) : rank V (some r) = (V.version r : WithBot Nat) := rfl

/-- `f` knows nothing newer than `g`. -/
def Le (f g : κ → Option ν) : Prop :=
  ∀ k, rank V (f k) ≤ rank V (g k)

/-- The newer of what two know. -/
def join (f g : κ → Option ν) (k : κ) : Option ν :=
  if rank V (g k) ≤ rank V (f k) then f k else g k

variable {V}

theorem Le.refl (f : κ → Option ν) : Le V f f :=
  fun _ => le_refl _

theorem Le.trans {f g h : κ → Option ν} (hfg : Le V f g) (hgh : Le V g h) : Le V f h :=
  fun k => (hfg k).trans (hgh k)

theorem rank_join (f g : κ → Option ν) (k : κ) :
    rank V (join V f g k) = max (rank V (f k)) (rank V (g k)) := by
  rw [join]
  split
  · rename_i h
    exact (max_eq_left h).symm
  · rename_i h
    exact (max_eq_right (not_le.mp h).le).symm

theorem left_le_join (f g : κ → Option ν) : Le V f (join V f g) := by
  intro k
  rw [rank_join]
  exact le_max_left _ _

theorem right_le_join (f g : κ → Option ν) : Le V g (join V f g) := by
  intro k
  rw [rank_join]
  exact le_max_right _ _

theorem join_le {f g h : κ → Option ν} (hf : Le V f h) (hg : Le V g h) :
    Le V (join V f g) h := by
  intro k
  rw [rank_join]
  exact max_le (hf k) (hg k)

theorem join_cases (f g : κ → Option ν) (k : κ) :
    join V f g k = f k ∨ join V f g k = g k := by
  rw [join]
  split
  · exact .inl rfl
  · exact .inr rfl

/-- Two who know the same versions know the same, where a version has one value. -/
theorem eq_of_le_of_le {f g : κ → Option ν} (hfg : Le V f g) (hgf : Le V g f)
    (hone : ∀ k r r', f k = some r → g k = some r' → V.version r = V.version r' → r = r') :
    f = g := by
  funext k
  have hrank := le_antisymm (hfg k) (hgf k)
  cases hf : f k with
  | none =>
    cases hg : g k with
    | none => rfl
    | some r' =>
      rw [hf, hg, rank_none, rank_some] at hrank
      cases hrank
  | some r =>
    cases hg : g k with
    | none =>
      rw [hf, hg, rank_none, rank_some] at hrank
      cases hrank
    | some r' =>
      rw [hf, hg, rank_some, rank_some, Nat.cast_inj] at hrank
      rw [hone k r r' hf hg hrank]

section Accept

variable [DecidableEq κ]

variable (V) in
/-- A value replaces an older one under its key. -/
def accept (r : ν) (f : κ → Option ν) : κ → Option ν :=
  if rank V (f (V.key r)) < V.version r then Function.update f (V.key r) (some r) else f

theorem rank_accept (r : ν) (f : κ → Option ν) (k : κ) :
    rank V (accept V r f k) =
      if k = V.key r then max (rank V (f k)) (V.version r) else rank V (f k) := by
  rw [accept]
  split
  · rename_i hlt
    by_cases hk : k = V.key r
    · subst hk
      rw [if_pos rfl, Function.update_self, rank_some, max_eq_right hlt.le]
    · rw [if_neg hk, Function.update_of_ne hk]
  · rename_i hge
    split
    · rename_i hk
      subst hk
      exact (max_eq_left (not_lt.mp hge)).symm
    · rfl

theorem le_accept (r : ν) (f : κ → Option ν) : Le V f (accept V r f) := by
  intro k
  rw [rank_accept]
  split
  · exact le_max_left _ _
  · exact le_refl _

/-- What was accepted is known from then on. -/
theorem version_le_accept (r : ν) (f : κ → Option ν) :
    (V.version r : WithBot Nat) ≤ rank V (accept V r f (V.key r)) := by
  rw [rank_accept, if_pos rfl]
  exact le_max_right _ _

theorem accept_le {f g : κ → Option ν} (h : Le V f g)
    (hr : (V.version r : WithBot Nat) ≤ rank V (g (V.key r))) : Le V (accept V r f) g := by
  intro k
  rw [rank_accept]
  split
  · rename_i hk
    subst hk
    exact max_le (h _) hr
  · exact h k

theorem accept_cases (r : ν) (f : κ → Option ν) (k : κ) :
    accept V r f k = f k ∨ k = V.key r ∧ accept V r f k = some r := by
  rw [accept]
  split
  · by_cases hk : k = V.key r
    · subst hk
      exact .inr ⟨rfl, Function.update_self ..⟩
    · exact .inl (Function.update_of_ne hk ..)
  · exact .inl rfl

/-- A value only gives way to a newer one. -/
theorem accept_eq_or_lt (r : ν) {f : κ → Option ν} (h : f k = some v) :
    accept V r f k = some v ∨ ∃ w, accept V r f k = some w ∧ V.version v < V.version w := by
  rw [accept]
  split
  · rename_i hlt
    by_cases hk : k = V.key r
    · subst hk
      rw [h, rank_some, Nat.cast_lt] at hlt
      exact .inr ⟨r, Function.update_self .., hlt⟩
    · rw [Function.update_of_ne hk]
      exact .inl h
  · exact .inl h

end Accept

end Buzz.LastWins
