import Buzz.Workflow.Schedule
import Buzz.Lib.Run

namespace Buzz.Workflow
set_option autoImplicit true

/-- A tick that passed the check, on its way to the claim. -/
structure Attempt where
  now : Int
  scheduledFor : Int
deriving DecidableEq

/-- What a process has in memory of the workflow. -/
structure Pod where
  lastFired : Option Int
  attempt : Option Attempt
deriving DecidableEq

/-- The processes, the claimed instants, and the tick times of the claims. -/
structure Scheduler where
  pods : Nat → Pod
  fires : List Int
  claims : List Int

namespace Scheduler

def init : Scheduler :=
  ⟨fun _ => ⟨none, none⟩, [], []⟩

def latestScheduledWorkflowFire (s : Scheduler) : Option Int :=
  s.fires.max?

def setPod (s : Scheduler) (p : Nat) (pod : Pod) : Scheduler :=
  { s with pods := Function.update s.pods p pod }

/-- The check of a tick. An anchor that cannot be read counts as none. -/
def tick (dur : String) (p : Nat) (now : Int) (readable : Bool) (s : Scheduler) : Scheduler :=
  let last := (s.pods p).lastFired.or (if readable then s.latestScheduledWorkflowFire else none)
  let (fire, lastFired) := intervalPrefilterShouldFire (s.pods p).lastFired dur last now
  s.setPod p ⟨lastFired, if fire then (intervalFireInstant dur now).map (⟨now, ·⟩) else none⟩

/-- The claim of a tick, and whether its run is then created. -/
def claim (p : Nat) (a : Attempt) (created : Bool) (s : Scheduler) : Scheduler :=
  if a.scheduledFor ∈ s.fires then s.setPod p ⟨some a.now, none⟩
  else
    { s.setPod p ⟨if created then some a.now else (s.pods p).lastFired, none⟩ with
      fires := s.fires ++ [a.scheduledFor]
      claims := s.claims ++ [a.now] }

end Scheduler

inductive Event where
  | tick (p : Nat) (now : Int) (readable : Bool)
  | claim (p : Nat) (created : Bool)
  | missing (p : Nat)
  | skip (p : Nat)
  | restart (p : Nat)
  | prune (p : Nat)

/-- The processes take steps in any order, at any times. -/
inductive Step (dur : String) (s : Scheduler) : Event → Scheduler → Prop where
  | tick (hnow : Representable now) (hidle : (s.pods p).attempt = none) :
      Step dur s (.tick p now readable) (s.tick dur p now readable)
  | claim (ha : (s.pods p).attempt = some a) : Step dur s (.claim p created) (s.claim p a created)
  -- The workflow is gone: the claim has no row to insert.
  | missing (ha : (s.pods p).attempt = some a) :
      Step dur s (.missing p) (s.setPod p ⟨some a.now, none⟩)
  -- The owner has no authority, or the claim fails.
  | skip : Step dur s (.skip p) (s.setPod p ⟨(s.pods p).lastFired, none⟩)
  | restart : Step dur s (.restart p) (s.setPod p ⟨none, none⟩)
  | prune (hidle : (s.pods p).attempt = none) : Step dur s (.prune p) (s.setPod p ⟨none, none⟩)

/-- Two tick times are an interval apart. -/
def Apart (interval : Int) (claims : List Int) : Prop :=
  claims.Pairwise fun c n => interval ≤ |n - c|

/-- Of two times in neighbouring buckets, the later one is as far into its bucket at least. -/
def InPhase (interval c n : Int) : Prop :=
  (n / interval = c / interval + 1 → c % interval ≤ n % interval) ∧
    (c / interval = n / interval + 1 → n % interval ≤ c % interval)

/-- A tick that is about to claim a free bucket is in phase with the claims so far. -/
def PhasesKept (interval : Int) (s : Scheduler) : Event → Prop
  | .claim p _ => ∀ a, (s.pods p).attempt = some a → a.scheduledFor ∉ s.fires →
      ∀ c ∈ s.claims, InPhase interval c a.now
  | _ => True

theorem bucket_inj (hinterval : 0 < interval)
    (h : c / interval * interval = n / interval * interval) : c / interval = n / interval :=
  mul_right_cancel₀ (ne_of_gt hinterval) h

theorem interval_le_sub_iff {c n interval : Int} (hinterval : 0 < interval)
    (hlt : c / interval < n / interval) :
    interval ≤ n - c ↔ (n / interval = c / interval + 1 → c % interval ≤ n % interval) := by
  have hc := Int.mul_ediv_add_emod c interval
  have hn := Int.mul_ediv_add_emod n interval
  have hn0 := Int.emod_nonneg n hinterval.ne'
  have hclt := Int.emod_lt_of_pos c hinterval
  by_cases hnext : n / interval = c / interval + 1
  · rw [hnext, mul_add, mul_one] at hn
    constructor
    · intro hle _
      omega
    · intro hphase
      have hle := hphase hnext
      omega
  · have hfar : interval * (c / interval + 2) ≤ interval * (n / interval) :=
      Int.mul_le_mul_of_nonneg_left (by omega) hinterval.le
    rw [mul_add] at hfar
    refine ⟨fun _ h => absurd h hnext, fun _ => ?_⟩
    omega

/-- In different buckets, the phase alone tells whether two times are an interval apart. -/
theorem interval_le_abs_iff {c n interval : Int} (hinterval : 0 < interval)
    (hne : c / interval ≠ n / interval) : interval ≤ |n - c| ↔ InPhase interval c n := by
  rw [InPhase]
  rcases lt_or_gt_of_ne hne with hlt | hlt
  · have hle : c ≤ n := le_of_lt (lt_of_not_ge fun h => absurd hlt
      (not_lt_of_ge (Int.ediv_le_ediv hinterval h)))
    have hback : c / interval ≠ n / interval + 1 := by omega
    rw [abs_of_nonneg (sub_nonneg.mpr hle), interval_le_sub_iff hinterval hlt]
    exact ⟨fun h => ⟨h, fun h' => absurd h' hback⟩, fun h => h.1⟩
  · have hle : n ≤ c := le_of_lt (lt_of_not_ge fun h => absurd hlt
      (not_lt_of_ge (Int.ediv_le_ediv hinterval h)))
    have hback : n / interval ≠ c / interval + 1 := by omega
    rw [abs_sub_comm, abs_of_nonneg (sub_nonneg.mpr hle), interval_le_sub_iff hinterval hlt]
    exact ⟨fun h => ⟨fun h' => absurd h' hback, h⟩, fun h => h.2⟩

/-- What holds of the processes and the table after any steps. -/
structure Scheduler.Sound (dur : String) (interval : Int) (s : Scheduler) : Prop where
  lastFired : ∀ p, ∀ t ∈ (s.pods p).lastFired, Representable t
  attempt : ∀ p, ∀ a ∈ (s.pods p).attempt, Representable a.now ∧
    Representable a.scheduledFor ∧ a.scheduledFor = a.now / interval * interval
  representable : ∀ t ∈ s.fires, Representable t
  fires : s.fires = s.claims.map fun c => c / interval * interval
  nodup : s.fires.Nodup

namespace Scheduler.Sound

variable {s : Scheduler} {secs : Nat}

theorem init : Scheduler.init.Sound dur interval where
  lastFired _ _ h := by cases h
  attempt _ _ h := by cases h
  representable _ h := by cases h
  fires := rfl
  nodup := List.nodup_nil

/-- A process changes what it has in memory. -/
theorem setPod (h : s.Sound dur interval) (hlast : ∀ t ∈ pod.lastFired, Representable t)
    (hattempt : ∀ a ∈ pod.attempt, Representable a.now ∧ Representable a.scheduledFor ∧
      a.scheduledFor = a.now / interval * interval) : (s.setPod p pod).Sound dur interval where
  lastFired q t ht := by
    rw [Scheduler.setPod] at ht
    dsimp only at ht
    rw [Function.update_apply] at ht
    split at ht
    · exact hlast t ht
    · exact h.lastFired q t ht
  attempt q a ha := by
    rw [Scheduler.setPod] at ha
    dsimp only at ha
    rw [Function.update_apply] at ha
    split at ha
    · exact hattempt a ha
    · exact h.attempt q a ha
  representable := h.representable
  fires := h.fires
  nodup := h.nodup

theorem tick (h : s.Sound dur (secs * SECOND)) (hparse : parseDurationSecs dur = .ok secs)
    (hnow : Representable now) : (s.tick dur p now readable).Sound dur (secs * SECOND) := by
  have hlast : ∀ t ∈ (s.pods p).lastFired.or
      (if readable then s.latestScheduledWorkflowFire else none), Representable t := by
    intro t ht
    rcases Option.or_eq_some_iff.mp ht with ht | ⟨_, ht⟩
    · exact h.lastFired p t ht
    · split at ht
      · exact h.representable t (List.max?_mem ht)
      · cases ht
  rw [Scheduler.tick]
  rcases intervalPrefilterShouldFire_cases (s.pods p).lastFired dur ((s.pods p).lastFired.or
      (if readable then s.latestScheduledWorkflowFire else none)) now with ⟨heq, hfire⟩ | heq | heq
  · rw [heq]
    dsimp only
    apply h.setPod
    · exact h.lastFired p
    intro a ha
    obtain ⟨start, hstart, rfl⟩ := Option.map_eq_some_iff.mp ha
    exact ⟨hnow, intervalFireInstant_representable hstart, intervalFireInstant_eq_some hparse
      (intervalShouldFire_lt hnow hlast hparse hfire) hstart⟩
  · rw [heq]
    refine h.setPod ?_ (fun _ ha => by cases ha)
    rintro t ⟨⟩
    exact hnow
  · rw [heq]
    exact h.setPod (h.lastFired p) (fun _ ha => by cases ha)

theorem claim (h : s.Sound dur interval) (ha : (s.pods p).attempt = some a) :
    (s.claim p a created).Sound dur interval := by
  obtain ⟨hnow, hrepresentable, hstart⟩ := h.attempt p a ha
  have hlast : ∀ t ∈ some a.now, Representable t := by
    rintro t ⟨⟩
    exact hnow
  rw [Scheduler.claim]
  split
  · exact h.setPod hlast (fun _ ha => by cases ha)
  · rename_i hfree
    have hpod : (s.setPod p ⟨if created then some a.now else (s.pods p).lastFired, none⟩).Sound
        dur interval := by
      refine h.setPod ?_ (fun _ ha => by cases ha)
      dsimp only
      split
      · exact hlast
      · exact h.lastFired p
    refine ⟨hpod.lastFired, hpod.attempt, ?_, ?_, ?_⟩
    · intro t ht
      rcases List.mem_append.mp ht with ht | ht
      · exact h.representable t ht
      · rw [List.mem_singleton.mp ht]
        exact hrepresentable
    · rw [List.map_append, List.map_singleton, ← hstart, ← h.fires]
    · rw [← List.concat_eq_append, List.nodup_concat]
      exact ⟨hfree, h.nodup⟩

theorem step (h : s.Sound dur (secs * SECOND)) (hparse : parseDurationSecs dur = .ok secs)
    (hstep : Step dur s e s') : s'.Sound dur (secs * SECOND) := by
  cases hstep with
  | tick hnow => exact h.tick hparse hnow
  | claim ha => exact h.claim ha
  | @missing p a ha =>
    refine h.setPod ?_ (fun _ ha => by cases ha)
    rintro t ⟨⟩
    exact (h.attempt p a ha).1
  | @skip p => exact h.setPod (h.lastFired p) (fun _ ha => by cases ha)
  | restart => exact h.setPod (fun _ ht => by cases ht) (fun _ ha => by cases ha)
  | prune => exact h.setPod (fun _ ht => by cases ht) (fun _ ha => by cases ha)

theorem run (hparse : parseDurationSecs dur = .ok secs)
    (h : Run (Step dur) Scheduler.init events s) : s.Sound dur (secs * SECOND) := by
  induction h with
  | nil => exact .init
  | snoc _ hstep ih => exact ih.step hparse hstep

end Scheduler.Sound

theorem apart_append_singleton {claims : List Int} :
    Apart interval (claims ++ [n]) ↔ Apart interval claims ∧ ∀ c ∈ claims, interval ≤ |n - c| := by
  rw [Apart, List.pairwise_append]
  constructor
  · rintro ⟨hclaims, _, hlast⟩
    exact ⟨hclaims, fun c hc => hlast c hc n List.mem_cons_self⟩
  · rintro ⟨hclaims, hlast⟩
    refine ⟨hclaims, List.pairwise_singleton _ _, ?_⟩
    intro c hc m hm
    rw [List.mem_singleton.mp hm]
    exact hlast c hc

/-- A claim of a free bucket keeps the claims apart exactly when it is in phase with them. -/
theorem apart_step_iff {s : Scheduler} (hinterval : 0 < interval) (h : s.Sound dur interval)
    (hstep : Step dur s e s') :
    Apart interval s'.claims ↔ Apart interval s.claims ∧ PhasesKept interval s e := by
  cases hstep with
  | @claim p a created ha =>
    obtain ⟨_, _, hstart⟩ := h.attempt p a ha
    rw [Scheduler.claim]
    split
    · rename_i htaken
      refine ⟨fun hapart => ⟨hapart, ?_⟩, fun hboth => hboth.1⟩
      intro b hb hfree
      cases ha.symm.trans hb
      exact absurd htaken hfree
    · rename_i hfree
      have hphases : (∀ c ∈ s.claims, interval ≤ |a.now - c|) ↔
          ∀ c ∈ s.claims, InPhase interval c a.now := by
        apply forall₂_congr
        intro c hc
        apply interval_le_abs_iff hinterval
        intro hbucket
        apply hfree
        rw [h.fires, hstart, ← hbucket]
        exact List.mem_map_of_mem hc
      rw [apart_append_singleton, hphases]
      apply and_congr_right
      intro _
      constructor
      · intro hall b hb _
        cases ha.symm.trans hb
        exact hall
      · intro hkept
        exact hkept a ha hfree
  | tick => exact (and_iff_left trivial).symm
  | missing => exact (and_iff_left trivial).symm
  | skip => exact (and_iff_left trivial).symm
  | restart => exact (and_iff_left trivial).symm
  | prune => exact (and_iff_left trivial).symm

/-- Minutes after the epoch. -/
def minute (n : Int) : Int :=
  n * 60 * SECOND

theorem hour_valid : validateInterval "1h" = .ok () := by
  decide +kernel

end Buzz.Workflow
