import Mathlib

namespace Buzz
set_option autoImplicit true

/-- A labelled step relation, one step after the other, with the labels in order. -/
inductive Run (step : σ → ι → σ → Prop) (s : σ) : List ι → σ → Prop where
  | nil : Run step s [] s
  | snoc {items : List ι} {t u : σ} {a : ι} (h : Run step s items t) (hstep : step t a u) :
      Run step s (items ++ [a]) u

namespace Run

variable {step : σ → ι → σ → Prop} {s t : σ} {items : List ι}

/-- What holds of a state and its history at the start, and is kept by each step, holds. -/
theorem history {Inv : List ι → σ → Prop} (h : Run step s items t) (hstart : Inv [] s)
    (hstep : ∀ items t a u, Inv items t → step t a u → Inv (items ++ [a]) u) : Inv items t := by
  induction h with
  | nil => exact hstart
  | snoc _ hlast ih => exact hstep _ _ _ _ ih hlast

theorem append {more : List ι} (h : Run step s items t) (hmore : Run step t more u) :
    Run step s (items ++ more) u := by
  induction hmore with
  | nil =>
    rw [List.append_nil]
    exact h
  | snoc _ hstep ih =>
    rw [← List.append_assoc]
    exact ih.snoc hstep

/-- Steps that are steps of another kind make a run of that kind. -/
theorem mono {step' : σ → ι → σ → Prop} (h : Run step s items t)
    (hstep : ∀ t a u, step t a u → step' t a u) : Run step' s items t := by
  induction h with
  | nil => exact .nil
  | snoc _ hlast ih => exact ih.snoc (hstep _ _ _ hlast)

/-- A label in a run is the label of one of its steps. -/
theorem split {before after : List ι} (h : Run step s (before ++ a :: after) u) :
    ∃ t t', Run step s before t ∧ step t a t' ∧ Run step t' after u := by
  generalize hitems : before ++ a :: after = items at h
  induction h generalizing after with
  | nil => exact absurd hitems (by simp)
  | @snoc items t u b h hlast ih =>
    rcases List.eq_nil_or_concat after with rfl | ⟨after, c, rfl⟩
    · obtain ⟨rfl, hb⟩ := List.append_inj' hitems rfl
      cases hb
      exact ⟨t, u, h, hlast, .nil⟩
    · rw [List.concat_eq_append, ← List.cons_append, ← List.append_assoc] at hitems
      obtain ⟨hbefore, hc⟩ := List.append_inj' hitems rfl
      cases hc
      obtain ⟨t₁, t₂, hrun, hstep, hrest⟩ := ih hbefore
      refine ⟨t₁, t₂, hrun, hstep, ?_⟩
      rw [List.concat_eq_append]
      exact .snoc hrest hlast

end Run

end Buzz
