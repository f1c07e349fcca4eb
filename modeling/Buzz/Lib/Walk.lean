import Buzz.Lib.Fallible

namespace Buzz
set_option autoImplicit true

/-- Why a walk over bytes ends early: an error of its own, a read past the end, or no end at all. -/
inductive Fault (ε : Type) where
  | error (e : ε)
  | outOfBounds
  | outOfFuel

def byteAt (b : List UInt8) (i : ℕ) : Except (Fault ε) UInt8 :=
  match b[i]? with
  | some x => .ok x
  | none => .error .outOfBounds

/-- `b[i..j]`. -/
def slice (b : List UInt8) (i j : ℕ) : Except (Fault ε) (List UInt8) :=
  if i ≤ j ∧ j ≤ b.length then .ok ((b.drop i).take (j - i)) else .error .outOfBounds

/-- What a loop does after one of its rounds. -/
inductive Step (σ ρ : Type) where
  | next (i : ℕ) (s : σ)
  | stop (r : ρ)

/-- A loop that keeps a position and a state. -/
def walk (step : ℕ → σ → Except (Fault ε) (Step σ ρ)) : ℕ → ℕ → σ → Except (Fault ε) ρ
  | 0, _, _ => .error .outOfFuel
  | fuel + 1, i, s =>
    match step i s with
    | .error e => .error e
    | .ok (.next i' s') => walk step fuel i' s'
    | .ok (.stop r) => .ok r

section Read

variable {b p rest : List UInt8} {i j : ℕ}

theorem drop_of_getElem? {x : UInt8} (h : b[i]? = some x) : b.drop i = x :: b.drop (i + 1) := by
  obtain ⟨hlt, hget⟩ := List.getElem?_eq_some_iff.mp h
  rw [List.drop_eq_getElem_cons hlt, hget]

theorem byteAt_ok {x : UInt8} (h : byteAt b i = (.ok x : Except (Fault ε) UInt8)) :
    b.drop i = x :: b.drop (i + 1) := by
  rw [byteAt] at h
  split at h
  · rename_i y hy
    rw [drop_of_getElem? hy, Except.ok.inj h]
  · cases h

theorem byteAt_of_drop {x : UInt8} (h : b.drop i = x :: rest) :
    byteAt b i = (.ok x : Except (Fault ε) UInt8) ∧ i < b.length ∧ b.drop (i + 1) = rest := by
  have hget : b[i]? = some x := by
    have hhead : (b.drop i)[0]? = some x := by
      rw [h]
      rfl
    rw [List.getElem?_drop] at hhead
    exact hhead
  obtain ⟨hlt, -⟩ := List.getElem?_eq_some_iff.mp hget
  refine ⟨?_, hlt, ?_⟩
  · rw [byteAt, hget]
  · rw [← List.drop_drop, h]
    rfl

theorem slice_eq (hij : i ≤ j) (hj : j ≤ b.length) :
    ∃ p, slice b i j = (.ok p : Except (Fault ε) (List UInt8)) ∧ p.length = j - i ∧
      b.drop i = p ++ b.drop j := by
  refine ⟨(b.drop i).take (j - i), if_pos ⟨hij, hj⟩, ?_, ?_⟩
  · rw [List.length_take, List.length_drop]
    exact min_eq_left (Nat.sub_le_sub_right hj i)
  · have hdrop : b.drop j = (b.drop i).drop (j - i) := by
      rw [List.drop_drop, Nat.add_sub_cancel' hij]
    rw [hdrop, List.take_append_drop]

theorem slice_ok (h : slice b i j = (.ok p : Except (Fault ε) (List UInt8))) :
    (i ≤ j ∧ j ≤ b.length) ∧ p.length = j - i ∧ b.drop i = p ++ b.drop j := by
  by_cases hbounds : i ≤ j ∧ j ≤ b.length
  · obtain ⟨q, hq, hlength, hdrop⟩ := slice_eq (ε := ε) hbounds.1 hbounds.2
    obtain rfl := Except.ok.inj (hq.symm.trans h)
    exact ⟨hbounds, hlength, hdrop⟩
  · rw [slice, if_neg hbounds] at h
    cases h

theorem slice_of_drop (h : b.drop i = p ++ rest) (hi : i ≤ b.length) (hj : j = i + p.length) :
    slice b i j = (.ok p : Except (Fault ε) (List UInt8)) ∧ j ≤ b.length ∧ b.drop j = rest := by
  have hlength : b.length - i = p.length + rest.length := by
    rw [← List.length_drop, h, List.length_append]
  have hle : j ≤ b.length := by omega
  refine ⟨?_, hle, ?_⟩
  · rw [slice, if_pos ⟨by omega, hle⟩, h]
    have hp : j - i = p.length := by omega
    rw [hp, List.take_left]
  · rw [hj, ← List.drop_drop, h, List.drop_left]

end Read

/-- The only way to end early is an error of its own. -/
def Safe (x : Except (Fault ε) α) : Prop :=
  x ≠ .error .outOfBounds ∧ x ≠ .error .outOfFuel

namespace Safe

theorem ok (a : α) : Safe (.ok a : Except (Fault ε) α) := by
  constructor
  · intro h
    cases h
  · intro h
    cases h

theorem error (e : ε) : Safe (.error (.error e) : Except (Fault ε) α) := by
  constructor
  · intro h
    cases h
  · intro h
    cases h

theorem bind {x : Except (Fault ε) α} {f : α → Except (Fault ε) β} (hx : Safe x)
    (hf : ∀ a, x = .ok a → Safe (f a)) : Safe (x >>= f) := by
  cases x with
  | ok a => exact hf a rfl
  | error e => exact ⟨fun h => hx.1 (congrArg Except.error (Except.error.inj h)),
      fun h => hx.2 (congrArg Except.error (Except.error.inj h))⟩

theorem map {x : Except (Fault ε) α} (f : α → β) (h : Safe x) : Safe (x.map f) := by
  cases x with
  | ok a => exact ok _
  | error e => exact ⟨fun he => h.1 (congrArg Except.error (Except.error.inj he)),
      fun he => h.2 (congrArg Except.error (Except.error.inj he))⟩

theorem byteAt {b : List UInt8} {i : ℕ} (h : i < b.length) :
    Safe (byteAt b i : Except (Fault ε) UInt8) := by
  rw [Buzz.byteAt, List.getElem?_eq_getElem h]
  exact ok _

theorem slice {b : List UInt8} {i j : ℕ} (hij : i ≤ j) (hj : j ≤ b.length) :
    Safe (slice b i j : Except (Fault ε) (List UInt8)) := by
  rw [Buzz.slice, if_pos ⟨hij, hj⟩]
  exact ok _

/-- A loop whose rounds are safe and go on towards the end is safe. -/
theorem walk {step : ℕ → σ → Except (Fault ε) (Step σ ρ)} {n : ℕ} (hstep : ∀ i s, Safe (step i s))
    (hprogress : ∀ i s i' s', step i s = .ok (.next i' s') → n - i' < n - i) {fuel i : ℕ}
    (hfuel : n - i < fuel) (s : σ) : Safe (walk step fuel i s) := by
  induction fuel generalizing i s with
  | zero => exact absurd hfuel (Nat.not_lt_zero _)
  | succ fuel ih =>
    rw [Buzz.walk]
    split
    · rename_i e he
      rw [Safe]
      constructor
      · intro h
        exact (hstep i s).1 (he.trans (congrArg Except.error (Except.error.inj h)))
      · intro h
        exact (hstep i s).2 (he.trans (congrArg Except.error (Except.error.inj h)))
    · rename_i i' s' hnext
      apply ih
      exact (hprogress i s i' s' hnext).trans_le (Nat.lt_succ_iff.mp hfuel)
    · exact ok _

end Safe

/-- What holds where a loop stops, and is carried back over its rounds, holds. -/
theorem walk_sound {step : ℕ → σ → Except (Fault ε) (Step σ ρ)} {P : ℕ → σ → ρ → Prop}
    (hnext : ∀ i s i' s' r, step i s = .ok (.next i' s') → P i' s' r → P i s r)
    (hstop : ∀ i s r, step i s = .ok (.stop r) → P i s r) {fuel i : ℕ} {s : σ} {r : ρ}
    (h : walk step fuel i s = .ok r) : P i s r := by
  induction fuel generalizing i s with
  | zero => cases h
  | succ fuel ih =>
    rw [walk] at h
    split at h
    · cases h
    · rename_i i' s' hstep
      exact hnext i s i' s' r hstep (ih h)
    · rename_i r' hstep
      obtain rfl := Except.ok.inj h
      exact hstop i s r' hstep

end Buzz
