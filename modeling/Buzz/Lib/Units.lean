import Buzz.Lib.Walk

namespace Buzz
set_option autoImplicit true

/-- A format of bytes: units, each of which may come in some states and leads to the next state or is
the last one, and the states in which there need be no more. -/
structure Units (σ υ : Type) where
  bytes : υ → List UInt8
  Fits : σ → υ → Prop
  next : σ → υ → Option σ
  Ends : σ → Prop

namespace Units

/-- The units that may come from a state on, to the end. -/
inductive Path (G : Units σ υ) : σ → List υ → Prop where
  | nil (h : G.Ends s) : G.Path s []
  | last (h : G.Fits s u) (hnext : G.next s u = none) : G.Path s [u]
  | cons {s s' : σ} {us : List υ} (h : G.Fits s u) (hnext : G.next s u = some s')
      (hrest : G.Path s' us) : G.Path s (u :: us)

def render (G : Units σ υ) (us : List υ) : List UInt8 :=
  us.flatMap G.bytes

variable {G : Units σ υ} {s : σ} {us vs : List υ}

@[simp]
theorem render_nil : G.render [] = [] := rfl

@[simp]
theorem render_cons (u : υ) (us : List υ) : G.render (u :: us) = G.bytes u ++ G.render us :=
  List.flatMap_cons

theorem Path.fits (h : G.Path s us) {u : υ} (hu : u ∈ us) : ∃ s, G.Fits s u := by
  induction h with
  | nil => exact absurd hu List.not_mem_nil
  | last hfits _ =>
    obtain rfl := List.mem_singleton.mp hu
    exact ⟨_, hfits⟩
  | cons hfits _ _ ih =>
    obtain rfl | hu := List.mem_cons.mp hu
    · exact ⟨_, hfits⟩
    · exact ih hu

/-- Where the bytes tell which unit comes and only a last unit ends them, they have one
decomposition. -/
theorem Path.unique
    (hcode : ∀ s u v x y, G.Fits s u → G.Fits s v → G.bytes u ++ x = G.bytes v ++ y → u = v)
    (hends : ∀ s, ¬ G.Ends s) (h : G.Path s us) (h' : G.Path s vs)
    (hbytes : G.render us = G.render vs) : us = vs := by
  induction h generalizing vs with
  | nil hend => exact absurd hend (hends _)
  | last hfits hnext =>
    cases h' with
    | nil hend => exact absurd hend (hends _)
    | last hfits' _ => rw [hcode _ _ _ _ _ hfits hfits' hbytes]
    | cons hfits' hnext' _ =>
      obtain rfl := hcode _ _ _ _ _ hfits hfits' hbytes
      rw [hnext] at hnext'
      cases hnext'
  | cons hfits hnext hrest ih =>
    cases h' with
    | nil hend => exact absurd hend (hends _)
    | last hfits' hnext' =>
      obtain rfl := hcode _ _ _ _ _ hfits hfits' hbytes
      rw [hnext] at hnext'
      cases hnext'
    | cons hfits' hnext' hrest' =>
      rw [render_cons, render_cons] at hbytes
      obtain rfl := hcode _ _ _ _ _ hfits hfits' hbytes
      obtain rfl := Option.some.inj (hnext.symm.trans hnext')
      rw [ih hrest' (List.append_cancel_left hbytes)]

/-- A loop that reads bytes unit by unit, and is content with what it stops with only where there is
nothing more to read. -/
structure Reads (G : Units σ υ) (b : List UInt8) (step : ℕ → σ → Except (Fault ε) (Step σ ρ))
    (Accepts : ρ → Prop) : Prop where
  next : ∀ i s i' s', step i s = .ok (.next i' s') →
    ∃ u, G.Fits s u ∧ G.next s u = some s' ∧ G.bytes u ≠ [] ∧ b.drop i = G.bytes u ++ b.drop i'
  stop : ∀ i s r, step i s = .ok (.stop r) → Accepts r → ∃ us, G.Path s us ∧ b.drop i = G.render us
  safe : ∀ i s, Safe (step i s)

variable {b : List UInt8} {step : ℕ → σ → Except (Fault ε) (Step σ ρ)} {Accepts : ρ → Prop}
  {fuel i : ℕ}

theorem Reads.sound (h : G.Reads b step Accepts) {r : ρ} (hwalk : walk step fuel i s = .ok r)
    (haccepts : Accepts r) : ∃ us, G.Path s us ∧ b.drop i = G.render us := by
  refine walk_sound (P := fun i s r => Accepts r → ∃ us, G.Path s us ∧ b.drop i = G.render us)
    ?_ h.stop hwalk haccepts
  intro i s i' s' r hstep hafter haccepts
  obtain ⟨us, hpath, hrest⟩ := hafter haccepts
  obtain ⟨u, hfits, hnext, -, hdrop⟩ := h.next i s i' s' hstep
  refine ⟨u :: us, .cons hfits hnext hpath, ?_⟩
  rw [render_cons, hdrop, hrest]

/-- Each round leaves fewer bytes, so there is fuel enough. -/
theorem Reads.walk_safe (h : G.Reads b step Accepts) (i : ℕ) (s : σ) :
    Safe (walk step (b.length + 1) i s) := by
  apply Safe.walk (n := b.length) h.safe
  · intro i s i' s' hstep
    obtain ⟨u, -, -, hne, hdrop⟩ := h.next i s i' s' hstep
    have hlength := congrArg List.length hdrop
    rw [List.length_append, List.length_drop, List.length_drop] at hlength
    have hpos : 0 < (G.bytes u).length := List.length_pos_iff.mpr hne
    omega
  · exact Nat.lt_succ_of_le (Nat.sub_le _ _)

/-- A loop that takes every unit but the last on, and stops at the last, takes all. -/
theorem Path.complete (b : List UInt8) (step : ℕ → σ → Except (Fault ε) (Step σ ρ))
    (Accepts : ρ → Prop)
    (hnext : ∀ i s u s' rest, G.Fits s u → G.next s u = some s' → i ≤ b.length →
      b.drop i = G.bytes u ++ rest →
        step i s = .ok (.next (i + (G.bytes u).length) s') ∧ G.bytes u ≠ [])
    (hlast : ∀ i s u, G.Fits s u → G.next s u = none → i ≤ b.length → b.drop i = G.bytes u →
      ∃ r, step i s = .ok (.stop r) ∧ Accepts r)
    (hends : ∀ s, ¬ G.Ends s) (hpath : G.Path s us) (hi : i ≤ b.length)
    (hdrop : b.drop i = G.render us) (hfuel : b.length - i < fuel) :
    ∃ r, walk step fuel i s = .ok r ∧ Accepts r := by
  induction hpath generalizing fuel i with
  | nil hend => exact absurd hend (hends _)
  | last hfits hnone =>
    rw [render_cons, render_nil, List.append_nil] at hdrop
    obtain ⟨r, hstep, haccepts⟩ := hlast i _ _ hfits hnone hi hdrop
    obtain _ | fuel := fuel
    · exact absurd hfuel (Nat.not_lt_zero _)
    · rw [walk, hstep]
      exact ⟨r, rfl, haccepts⟩
  | cons hfits hsome hrest ih =>
    rw [render_cons] at hdrop
    obtain ⟨hstep, hne⟩ := hnext i _ _ _ _ hfits hsome hi hdrop
    have hlength := congrArg List.length hdrop
    rw [List.length_append, List.length_drop] at hlength
    have hpos := List.length_pos_iff.mpr hne
    obtain _ | fuel := fuel
    · exact absurd hfuel (Nat.not_lt_zero _)
    · rw [walk, hstep]
      apply ih
      · omega
      · rw [← List.drop_drop, hdrop, List.drop_left]
      · omega

end Units

end Buzz
