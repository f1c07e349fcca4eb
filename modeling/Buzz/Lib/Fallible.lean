import Mathlib

namespace Buzz
set_option autoImplicit true

theorem ok_of_bind {x : Except ε α} {g : α → Except ε β} (h : (x >>= g) = .ok b) :
    ∃ a, x = .ok a ∧ g a = .ok b := by
  cases x with
  | error e => cases h
  | ok a => exact ⟨a, rfl, h⟩

theorem error_of_bind {x : Except ε α} {g : α → Except ε β} (h : (x >>= g) = .error e) :
    x = .error e ∨ ∃ a, x = .ok a ∧ g a = .error e := by
  cases x with
  | error e' =>
    cases h
    exact .inl rfl
  | ok a => exact .inr ⟨a, rfl, h⟩

theorem ok_of_map {x : Except ε α} {f : α → β} (h : x.map f = .ok b) : ∃ a, x = .ok a ∧ f a = b := by
  cases x with
  | error e => cases h
  | ok a => exact ⟨a, rfl, Except.ok.inj h⟩

theorem ok_of_mapError {x : Except ε α} {f : ε → ε'} (h : x.mapError f = .ok a) : x = .ok a := by
  cases x with
  | error e => cases h
  | ok a => exact congrArg Except.ok (Except.ok.inj h)

/-- A computation on a state that may fail. What it wrote before it failed stays. -/
def Fallible (σ ε α : Type) : Type :=
  σ → Except ε α × σ

namespace Fallible

instance : Monad (Fallible σ ε) where
  pure a := fun s => (.ok a, s)
  bind x f := fun s =>
    match x s with
    | (.ok a, s') => f a s'
    | (.error e, s') => (.error e, s')

def fail (e : ε) : Fallible σ ε α :=
  fun s => (.error e, s)

/-- A fallible look at the state. -/
def check (f : σ → Except ε α) : Fallible σ ε α :=
  fun s => (f s, s)

def modify (f : σ → σ) : Fallible σ ε Unit :=
  fun s => (.ok (), f s)

@[simp]
theorem modify_bind (f : σ → σ) (g : Unit → Fallible σ ε α) (s : σ) :
    (modify f >>= g) s = g () (f s) := rfl

@[simp]
theorem read_bind (f : σ → α) (g : α → Fallible σ ε β) (s : σ) :
    ((check fun s => .ok (f s)) >>= g) s = g (f s) s := rfl

theorem check_bind_ok {f : σ → Except ε α} (h : f s = .ok a) (g : α → Fallible σ ε β) :
    (check f >>= g) s = g a s := by
  change (match (f s, s) with
    | (.ok a, s') => g a s'
    | (.error e, s') => (.error e, s')) = g a s
  rw [h]

theorem check_bind_error {f : σ → Except ε α} (h : f s = .error e) (g : α → Fallible σ ε β) :
    (check f >>= g) s = (.error e, s) := by
  change (match (f s, s) with
    | (.ok a, s') => g a s'
    | (.error e, s') => (.error e, s')) = (.error e, s)
  rw [h]

theorem bind_cases {x : Fallible σ ε α} {g : α → Fallible σ ε β} (h : (x >>= g) s = (r, s')) :
    (∃ e, x s = (.error e, s') ∧ r = .error e) ∨
      ∃ a t, x s = (.ok a, t) ∧ g a t = (r, s') := by
  change (match x s with
    | (.ok a, t) => g a t
    | (.error e, t) => (.error e, t)) = (r, s') at h
  match hx : x s with
  | (.error e, t) =>
    rw [hx] at h
    obtain ⟨rfl, rfl⟩ := Prod.mk.inj h
    exact .inl ⟨e, rfl, rfl⟩
  | (.ok a, t) =>
    rw [hx] at h
    exact .inr ⟨a, t, rfl, h⟩

/-- A check either stops the computation and changes nothing, or lets it go on. -/
theorem check_bind_cases {f : σ → Except ε α} {g : α → Fallible σ ε β}
    (h : (check f >>= g) s = (r, s')) :
    (∃ e, r = .error e ∧ s' = s) ∨ ∃ a, f s = .ok a ∧ g a s = (r, s') := by
  rcases bind_cases h with ⟨e, hcheck, hr⟩ | ⟨a, t, hcheck, hg⟩
  · exact .inl ⟨e, hr, (congrArg Prod.snd hcheck).symm⟩
  · obtain ⟨hf, rfl⟩ := Prod.mk.inj hcheck
    exact .inr ⟨a, hf, hg⟩

theorem check_bind_of_ok {f : σ → Except ε α} {g : α → Fallible σ ε β}
    (h : (check f >>= g) s = (.ok b, s')) : ∃ a, f s = .ok a ∧ g a s = (.ok b, s') := by
  rcases check_bind_cases h with ⟨_, he, _⟩ | hok
  · cases he
  · exact hok

/-- The computation leaves the state as it is. -/
def ReadOnly (x : Fallible σ ε α) : Prop :=
  ∀ s, (x s).2 = s

theorem readOnly_pure (a : α) : ReadOnly (pure a : Fallible σ ε α) :=
  fun _ => rfl

theorem readOnly_fail (e : ε) : ReadOnly (fail e : Fallible σ ε α) :=
  fun _ => rfl

theorem readOnly_check (f : σ → Except ε α) : ReadOnly (check f) :=
  fun _ => rfl

theorem ReadOnly.bind {x : Fallible σ ε α} {g : α → Fallible σ ε β} (hx : ReadOnly x)
    (hg : ∀ a, ReadOnly (g a)) : ReadOnly (x >>= g) := by
  intro s
  have hs := hx s
  change (match x s with
    | (.ok a, t) => g a t
    | (.error e, t) => (.error e, t)).2 = s
  match hrun : x s with
  | (.error e, t) =>
    rw [hrun] at hs
    exact hs
  | (.ok a, t) =>
    rw [hrun] at hs
    exact (hg a t).trans hs

theorem ReadOnly.eq {x : Fallible σ ε α} (hx : ReadOnly x) (h : x s = (r, s')) : s' = s := by
  have hs := hx s
  rw [h] at hs
  exact hs

theorem fail_cases (h : (fail e : Fallible σ ε α) s = (r, s')) : r = .error e ∧ s' = s :=
  ⟨(congrArg Prod.fst h).symm, (congrArg Prod.snd h).symm⟩

theorem map_error {x : Fallible σ ε α} (h : x s = (.error e, s')) (f : α → β) :
    (f <$> x) s = (.error e, s') := by
  change (match x s with
    | (.ok a, s') => (Except.ok (f a), s')
    | (.error e, s') => (Except.error e, s')) = (Except.error e, s')
  rw [h]

theorem map_cases {x : Fallible σ ε α} {f : α → β} (h : (f <$> x) s = (r, s')) :
    (∃ e, x s = (.error e, s') ∧ r = .error e) ∨ ∃ a, x s = (.ok a, s') ∧ r = .ok (f a) := by
  -- `f <$> x` unfolds to a bind
  rcases bind_cases (g := fun a => pure (f a)) h with herror | ⟨a, t, hx, hpure⟩
  · exact .inl herror
  · obtain ⟨hr, rfl⟩ := Prod.mk.inj hpure
    exact .inr ⟨a, hx, hr.symm⟩

theorem map_of_ok {x : Fallible σ ε α} {f : α → β} (h : (f <$> x) s = (.ok b, s')) :
    ∃ a, x s = (.ok a, s') ∧ b = f a := by
  rcases map_cases h with ⟨_, _, he⟩ | ⟨a, hx, hb⟩
  · cases he
  · exact ⟨a, hx, Except.ok.inj hb⟩

end Fallible

end Buzz
