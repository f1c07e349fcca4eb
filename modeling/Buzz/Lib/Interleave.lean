import Mathlib

namespace Buzz.Interleave
set_option autoImplicit true

/-- A sequential program that touches the shared state only through atomic operations. -/
inductive Prog (Op : Type) (Res : Op → Type) (α : Type) where
  | ret (a : α)
  | call (op : Op) (next : Res op → Prog Op Res α)

variable {Op : Type} {Res : Op → Type} {σ ι α β : Type}

namespace Prog

protected def bind : Prog Op Res α → (α → Prog Op Res β) → Prog Op Res β
  | .ret a, f => f a
  | .call op next, f => .call op fun r => (next r).bind f

instance : Monad (Prog Op Res) where
  pure := .ret
  bind := Prog.bind

/-- A single operation. -/
def lift (op : Op) : Prog Op Res (Res op) :=
  .call op .ret

end Prog

/-- The shared state and the program that each thread still has to run. -/
structure Config (Op : Type) (Res : Op → Type) (σ ι α : Type) where
  shared : σ
  thread : ι → Prog Op Res α

/-- One thread runs its next operation. -/
inductive Step [DecidableEq ι] (exec : ι → (op : Op) → σ → Res op → σ → Prop) :
    Config Op Res σ ι α → Config Op Res σ ι α → Prop where
  | run (i : ι) (hnext : c.thread i = .call op next) (hexec : exec i op c.shared r s) :
    Step exec c ⟨s, Function.update c.thread i (next r)⟩

/-- An invariant of the shared state, and what the threads may do to it between two operations
of one of them. -/
structure Protocol (σ : Type) where
  inv : σ → Prop
  rely : σ → σ → Prop
  refl : ∀ s, rely s s
  trans : ∀ s t u, rely s t → rely t u → rely s u

section Safe

variable (P : Protocol σ) (exec : ι → (op : Op) → σ → Res op → σ → Prop)

/-- Whatever the other threads do in between, each operation of the program keeps the protocol,
and its result meets the postcondition. -/
def Safe (i : ι) (post : α → σ → Prop) : Prog Op Res α → σ → Prop
  | .ret a, s => post a s
  | .call op next, s => ∀ s₁, P.rely s s₁ → P.inv s₁ → ∀ r s₂, exec i op s₁ r s₂ →
    P.inv s₂ ∧ P.rely s₁ s₂ ∧ Safe i post (next r) s₂

variable {P exec}

/-- A safe program stays safe while other threads run. -/
theorem Safe.mono {post : α → σ → Prop} (hpost : ∀ a s t, P.rely s t → post a s → post a t)
    (h : Safe P exec i post p s) (hrely : P.rely s t) : Safe P exec i post p t := by
  cases p with
  | ret a => exact hpost a s t hrely h
  | call op next =>
    intro s₁ hs₁
    exact h s₁ (P.trans s t s₁ hrely hs₁)

theorem Safe.bind {mid : α → σ → Prop} {post : β → σ → Prop} {f : α → Prog Op Res β}
    {p : Prog Op Res α} (h : Safe P exec i mid p s)
    (hf : ∀ a t, P.rely s t → mid a t → Safe P exec i post (f a) t) :
    Safe P exec i post (p >>= f) s := by
  induction p generalizing s with
  | ret a => exact hf a s (P.refl s) h
  | call op next ih =>
    intro s₁ hs₁ hinv r s₂ hexec
    obtain ⟨hinv₂, hrely, hnext⟩ := h s₁ hs₁ hinv r s₂ hexec
    refine ⟨hinv₂, hrely, ih r hnext fun a t ht => ?_⟩
    exact hf a t (P.trans _ _ _ (P.trans _ _ _ hs₁ hrely) ht)

theorem Safe.imp {post post' : α → σ → Prop} {p : Prog Op Res α} (h : Safe P exec i post p s)
    (himp : ∀ a t, P.rely s t → post a t → post' a t) : Safe P exec i post' p s := by
  induction p generalizing s with
  | ret a => exact himp a s (P.refl s) h
  | call op next ih =>
    intro s₁ hs₁ hinv r s₂ hexec
    obtain ⟨hinv₂, hrely, hnext⟩ := h s₁ hs₁ hinv r s₂ hexec
    refine ⟨hinv₂, hrely, ih r hnext fun a t ht => ?_⟩
    exact himp a t (P.trans _ _ _ (P.trans _ _ _ hs₁ hrely) ht)

/-- A thread that runs one operation keeps the invariant and every thread's safety. -/
theorem safe_step [DecidableEq ι] {post : ι → α → σ → Prop} {c d : Config Op Res σ ι α}
    (hpost : ∀ i a s t, P.rely s t → post i a s → post i a t) (hstep : Step exec c d)
    (hinv : P.inv c.shared) (hsafe : ∀ i, Safe P exec i (post i) (c.thread i) c.shared) :
    P.inv d.shared ∧ ∀ i, Safe P exec i (post i) (d.thread i) d.shared := by
  cases hstep with
  | run i hnext hexec =>
    have hi := hsafe i
    rw [hnext] at hi
    obtain ⟨hinv', hrely, hrest⟩ := hi c.shared (P.refl _) hinv _ _ hexec
    refine ⟨hinv', fun j => ?_⟩
    dsimp only
    by_cases hj : j = i
    · subst hj
      rw [Function.update_self]
      exact hrest
    · rw [Function.update_of_ne hj]
      exact (hsafe j).mono (hpost j) hrely

/-- In every interleaving of safe programs the invariant holds, and the threads that are done
meet their postconditions. -/
theorem safe_run [DecidableEq ι] {post : ι → α → σ → Prop} {c d : Config Op Res σ ι α}
    (hpost : ∀ i a s t, P.rely s t → post i a s → post i a t)
    (hrun : Relation.ReflTransGen (Step exec) c d) (hinv : P.inv c.shared)
    (hsafe : ∀ i, Safe P exec i (post i) (c.thread i) c.shared) :
    P.inv d.shared ∧ ∀ i a, d.thread i = .ret a → post i a d.shared := by
  have hall : P.inv d.shared ∧ ∀ i, Safe P exec i (post i) (d.thread i) d.shared := by
    induction hrun with
    | refl => exact ⟨hinv, hsafe⟩
    | tail _ hstep ih => exact safe_step hpost hstep ih.1 ih.2
  refine ⟨hall.1, fun i a hret => ?_⟩
  have hi := hall.2 i
  rw [hret] at hi
  exact hi

end Safe

section Alone

variable (exec : ι → (op : Op) → σ → Res op → σ → Prop)

/-- What a program can do while no other thread runs. -/
inductive Alone (i : ι) : Prog Op Res α → σ → Prog Op Res α → σ → Prop where
  | refl : Alone i p s p s
  | call (hexec : exec i op s r t) (hrest : Alone i (next r) t q u) : Alone i (.call op next) s q u

variable {exec}

theorem Alone.bind {p : Prog Op Res α} {f : α → Prog Op Res β} (h : Alone exec i p s (.ret a) t)
    (hf : Alone exec i (f a) t q u) : Alone exec i (p >>= f) s q u := by
  generalize he : Prog.ret a = e at h
  induction h with
  | refl =>
    subst he
    exact hf
  | call hexec _ ih => exact .call hexec (ih hf he)

/-- A run of one thread alone is a run. -/
theorem Alone.run [DecidableEq ι] {p q : Prog Op Res α} (h : Alone exec i p s q t)
    (c : Config Op Res σ ι α) (hp : c.thread i = p) (hs : c.shared = s) :
    ∃ d, Relation.ReflTransGen (Step exec) c d ∧ d.shared = t ∧ d.thread i = q := by
  induction h generalizing c with
  | refl => exact ⟨c, .refl, hs, hp⟩
  | @call op s r t next q u hexec _ ih =>
    subst hs
    obtain ⟨d, hrun, hd⟩ := ih ⟨t, Function.update c.thread i (next r)⟩ (Function.update_self ..) rfl
    exact ⟨d, .head (.run i hp hexec) hrun, hd⟩

end Alone

end Buzz.Interleave
