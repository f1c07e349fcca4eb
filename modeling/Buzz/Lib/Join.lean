import Mathlib

namespace Buzz
set_option autoImplicit true

variable {K V : Type} [DecidableEq K] [SemilatticeSup V]

/-- The join of what the entries say of a key, from a least value on. -/
def joinAt (b : V) (es : List (K × V)) (k : K) : V :=
  (es.filter fun e => e.1 = k).foldl (fun v e => v ⊔ e.2) b

namespace Join

@[simp]
theorem joinAt_nil (b : V) (k : K) : joinAt b [] k = b := rfl

theorem joinAt_append (b : V) (es fs : List (K × V)) (k : K) :
    joinAt b (es ++ fs) k = joinAt (joinAt b es k) fs k := by
  rw [joinAt, List.filter_append, List.foldl_append]
  rfl

theorem joinAt_cons (b : V) (e : K × V) (es : List (K × V)) (k : K) :
    joinAt b (e :: es) k = joinAt (if e.1 = k then b ⊔ e.2 else b) es k := by
  rw [joinAt, List.filter_cons]
  by_cases h : e.1 = k
  · rw [if_pos (decide_eq_true h), if_pos h]
    rfl
  · rw [if_neg (by simpa using h), if_neg h]
    rfl

/-- The join is the least value above the first and all that is said of the key. -/
theorem joinAt_le_iff {b c : V} {es : List (K × V)} {k : K} :
    joinAt b es k ≤ c ↔ b ≤ c ∧ ∀ e ∈ es, e.1 = k → e.2 ≤ c := by
  induction es generalizing b with
  | nil =>
    rw [joinAt_nil]
    exact ⟨fun h => ⟨h, fun _ he => (List.not_mem_nil he).elim⟩, fun h => h.1⟩
  | cons e es ih =>
    rw [joinAt_cons, ih, List.forall_mem_cons]
    split
    · rename_i he
      rw [sup_le_iff]
      exact ⟨fun h => ⟨h.1.1, fun _ => h.1.2, h.2⟩, fun h => ⟨⟨h.1, h.2.1 he⟩, h.2.2⟩⟩
    · rename_i he
      exact ⟨fun h => ⟨h.1, fun h' => absurd h' he, h.2⟩, fun h => ⟨h.1, h.2.2⟩⟩

theorem le_joinAt (b : V) (es : List (K × V)) (k : K) : b ≤ joinAt b es k :=
  (joinAt_le_iff.mp (le_refl _)).1

theorem le_joinAt_of_mem {b : V} {es : List (K × V)} {e : K × V} (h : e ∈ es) :
    e.2 ≤ joinAt b es e.1 :=
  (joinAt_le_iff.mp (le_refl _)).2 e h rfl

/-- Nothing is added by what is below. -/
theorem joinAt_eq_self {b : V} {es : List (K × V)} {k : K} (h : ∀ e ∈ es, e.1 = k → e.2 ≤ b) :
    joinAt b es k = b :=
  le_antisymm (joinAt_le_iff.mpr ⟨le_refl _, h⟩) (le_joinAt b es k)

/-- Neither order nor repetition counts. -/
theorem joinAt_congr {es fs : List (K × V)} (h : ∀ e, e ∈ es ↔ e ∈ fs) (b : V) (k : K) :
    joinAt b es k = joinAt b fs k := by
  apply le_antisymm
  · rw [joinAt_le_iff]
    refine ⟨le_joinAt b fs k, ?_⟩
    rintro e he rfl
    exact le_joinAt_of_mem ((h e).mp he)
  · rw [joinAt_le_iff]
    refine ⟨le_joinAt b es k, ?_⟩
    rintro e he rfl
    exact le_joinAt_of_mem ((h e).mpr he)

end Join

end Buzz
