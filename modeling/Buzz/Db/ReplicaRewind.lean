import Buzz.Db.ReplicaFence

namespace Buzz.Fence
set_option autoImplicit true

namespace ReplicaFence

/-- A proof is the greatest entry of the ring that is not above the observed token, and there is one
when there is such an entry. -/
theorem resolve_proved_iff {fence : ReplicaFence} (h : fence.Ordered) {epoch : Uuid} :
    fence.resolve token epoch = .proved e ↔ fence.epoch = some epoch ∧ e ∈ fence.ring ∧
      e.token ≤ token ∧ ∀ e' ∈ fence.ring, e'.token ≤ token → e'.token ≤ e.token := by
  constructor
  · intro hresolve
    obtain ⟨hmem, hepoch, hle, hgreatest⟩ := resolve_proved h hresolve
    exact ⟨hepoch, hmem, hle, hgreatest⟩
  · rintro ⟨hepoch, hmem, hle, hgreatest⟩
    cases hresolve : fence.resolve token epoch with
    | epochMismatch =>
      rw [resolve, hepoch, if_neg] at hresolve
      · split at hresolve
        · cases hresolve
        · cases hresolve
      · rw [Option.any_some, decide_eq_true_iff]
        exact not_not.mpr rfl
    | tokenBehind =>
      rw [resolve] at hresolve
      split at hresolve
      · cases hresolve
      · split at hresolve
        · cases hresolve
        · rename_i hnone
          have hnot := List.find?_eq_none.mp hnone e (List.mem_reverse.mpr hmem)
          exact absurd (decide_eq_true hle) hnot
    | proved e₁ =>
      obtain ⟨hmem₁, _, hle₁, hgreatest₁⟩ := resolve_proved h hresolve
      have htoken : e₁.token = e.token :=
        le_antisymm (hgreatest e₁ hmem₁ hle₁) (hgreatest₁ e hmem hle)
      have hapart : (fence.ring.map TokenEntry.token).Nodup :=
        List.pairwise_map.mpr (h.increasing.imp fun hlt => hlt.ne)
      rw [List.inj_on_of_nodup_map hapart hmem₁ hmem htoken]

end ReplicaFence

/-- A heartbeat, and when it was committed. -/
structure Beat where
  token : Int
  epoch : Uuid
  committedAt : Nat

inductive LoopPhase where
  | idle
  | sampled (token : Int) (epoch : Uuid) (committedAt : Nat) (wall : Int)
  | rotating (wall : Int)
  | rotated (token : Int) (epoch : Uuid) (committedAt : Nat) (wall : Int)

/-- The heartbeat row of a writer that can be restored, and one pod with its probe loop. Each event
has a moment of its own. -/
structure Loop where
  now : Nat
  token : Int
  epoch : Uuid
  beats : List Beat
  restores : List Nat
  fence : ReplicaFence
  phase : LoopPhase

namespace Loop

def init (epoch : Uuid) : Loop :=
  ⟨1, 0, epoch, [⟨0, epoch, 0⟩], [], .new, .idle⟩

/-- A heartbeat is committed. -/
def beat (s : Loop) (epoch : Uuid) : Loop :=
  { s with
    now := s.now + 1
    token := s.token + 1
    epoch := epoch
    beats := s.beats ++ [⟨s.token + 1, epoch, s.now⟩] }

/-- The row is set back, and keeps its epoch. -/
def restore (s : Loop) (token : Int) : Loop :=
  { s with now := s.now + 1, token := token, restores := s.restores ++ [s.now] }

/-- The probe fails, and the loop closes the fence. -/
def fail (s : Loop) : Loop :=
  { s with fence := s.fence.close, phase := .idle }

def record (s : Loop) (token : Int) (epoch : Uuid) (committedAt : Nat) (wall : Int) : Loop :=
  match s.fence.record token epoch committedAt wall with
  | (fence, .recorded) => { s with fence := fence, phase := .idle }
  | (fence, .tokenRegression) => { s with fence := fence, phase := .rotating wall }

def recordRotated (s : Loop) (token : Int) (epoch : Uuid) (committedAt : Nat) (wall : Int) : Loop :=
  { s with fence := (s.fence.record token epoch committedAt wall).1, phase := .idle }

end Loop

inductive LoopEvent where
  | sample
  | sampleFailed
  | sampleLost
  | record
  | rotate
  | rotateFailed
  | rotateLost
  | recordRotated
  | otherBeat
  | otherRotate
  | restore

/-- A probe loop, the beats of the other pods, and restores, in any order. A statement that fails
may have been committed all the same. -/
inductive LoopStep (s : Loop) : LoopEvent → Loop → Prop where
  | sample (hphase : s.phase = .idle) : LoopStep s .sample
      { s.beat s.epoch with phase := .sampled (s.token + 1) s.epoch s.now wall }
  | sampleFailed (hphase : s.phase = .idle) : LoopStep s .sampleFailed s.fail
  | sampleLost (hphase : s.phase = .idle) : LoopStep s .sampleLost (s.beat s.epoch).fail
  | record (hphase : s.phase = .sampled token epoch committedAt wall) :
      LoopStep s .record (s.record token epoch committedAt wall)
  | rotate (hphase : s.phase = .rotating wall) (hfresh : ∀ b ∈ s.beats, b.epoch ≠ epoch) :
      LoopStep s .rotate
        { s.beat epoch with phase := .rotated (s.token + 1) epoch s.now wall }
  | rotateFailed (hphase : s.phase = .rotating wall) : LoopStep s .rotateFailed s.fail
  | rotateLost (hphase : s.phase = .rotating wall) (hfresh : ∀ b ∈ s.beats, b.epoch ≠ epoch) :
      LoopStep s .rotateLost (s.beat epoch).fail
  | recordRotated (hphase : s.phase = .rotated token epoch committedAt wall) :
      LoopStep s .recordRotated (s.recordRotated token epoch committedAt wall)
  | otherBeat : LoopStep s .otherBeat (s.beat s.epoch)
  | otherRotate (hfresh : ∀ b ∈ s.beats, b.epoch ≠ epoch) : LoopStep s .otherRotate (s.beat epoch)
  | restore (hlt : token < s.token) : LoopStep s .restore (s.restore token)

/-- An observation that only the time before a restore can have given. -/
def OnlyBefore (s : Loop) (restore : Nat) (token : Int) (epoch : Uuid) : Prop :=
  (∃ b ∈ s.beats, b.token = token ∧ b.epoch = epoch) ∧
    ∀ b ∈ s.beats, b.token = token → b.epoch = epoch → b.committedAt < restore

/-- No reader from before a restore is answered with an entry from after it. -/
def NoStaleProof (s : Loop) : Prop :=
  ∀ restore ∈ s.restores, ∀ token epoch entry, OnlyBefore s restore token epoch →
    s.fence.resolve token epoch = .proved entry → entry.committedAt < restore

/-- A sample that the ring does not show to have gone back is above each heartbeat of its epoch that
a restore before it took back. -/
def RewindNoticed (s : Loop) : LoopEvent → Prop
  | .record => ∀ token epoch committedAt wall, s.phase = .sampled token epoch committedAt wall →
      (s.fence.epoch = some epoch → ∀ last ∈ s.fence.ring.getLast?, last.token < token) →
      ∀ restore ∈ s.restores, restore ≤ committedAt → ∀ observed, OnlyBefore s restore observed epoch →
        observed < token
  | _ => True

/-- The ring has tokens of one epoch, in order, and a proof is its greatest entry that the observed
token has reached. -/
structure RingSound (s : Loop) : Prop where
  ordered : s.fence.Ordered
  beats : ∀ entry ∈ s.fence.ring, ∃ epoch, s.fence.epoch = some epoch ∧
    ⟨entry.token, epoch, entry.committedAt⟩ ∈ s.beats
  resolve : ∀ token epoch entry, s.fence.resolve token epoch = .proved entry ↔
    s.fence.epoch = some epoch ∧ entry ∈ s.fence.ring ∧ entry.token ≤ token ∧
      ∀ e ∈ s.fence.ring, e.token ≤ token → e.token ≤ entry.token

/-- A sample on its way was committed in its epoch; after a rotation the epoch is new. -/
def LoopPhase.Sound (s : Loop) : LoopPhase → Prop
  | idle => True
  | sampled token epoch committedAt _ => ⟨token, epoch, committedAt⟩ ∈ s.beats
  | rotating _ => True
  | rotated token epoch committedAt _ => ⟨token, epoch, committedAt⟩ ∈ s.beats ∧
      ∀ b ∈ s.beats, b.epoch = epoch → committedAt ≤ b.committedAt

/-- What any steps keep. -/
structure Loop.Sound (s : Loop) : Prop where
  ordered : s.fence.Ordered
  entries : ∀ entry ∈ s.fence.ring, ∃ epoch, s.fence.epoch = some epoch ∧
    ⟨entry.token, epoch, entry.committedAt⟩ ∈ s.beats
  beats_lt : ∀ b ∈ s.beats, b.committedAt < s.now
  restores_lt : ∀ restore ∈ s.restores, restore < s.now
  phase : s.phase.Sound s

namespace Loop.Sound

variable {s : Loop} {token : Int} {epoch : Uuid}

theorem init (epoch : Uuid) : (Loop.init epoch).Sound where
  ordered := .new
  entries _ h := by cases h
  beats_lt b hb := by
    rw [List.mem_singleton.mp hb]
    exact Nat.zero_lt_one
  restores_lt _ h := by cases h
  phase := trivial

/-- A heartbeat of another pod leaves what is known of the sample. -/
theorem beat_phase (h : s.Sound) (epoch : Uuid) : s.phase.Sound (s.beat epoch) := by
  have hphase := h.phase
  cases hp : s.phase with
  | idle => trivial
  | sampled =>
    rw [hp] at hphase
    exact List.mem_append_left _ hphase
  | rotating => trivial
  | rotated token own committedAt wall =>
    rw [hp] at hphase
    refine ⟨List.mem_append_left _ hphase.1, ?_⟩
    intro b hb hown
    rcases List.mem_append.mp hb with hb | hb
    · exact hphase.2 b hb hown
    · rw [List.mem_singleton.mp hb]
      exact (h.beats_lt _ hphase.1).le

theorem beat (h : s.Sound) (epoch : Uuid) {phase : LoopPhase} (hphase : phase.Sound (s.beat epoch)) :
    Sound { s.beat epoch with phase := phase } where
  ordered := h.ordered
  entries entry hentry := by
    obtain ⟨own, hown, hbeat⟩ := h.entries entry hentry
    exact ⟨own, hown, List.mem_append_left _ hbeat⟩
  beats_lt b hb := by
    rcases List.mem_append.mp hb with hb | hb
    · exact Nat.lt_succ_of_lt (h.beats_lt b hb)
    · rw [List.mem_singleton.mp hb]
      exact Nat.lt_succ_self _
  restores_lt restore hr := Nat.lt_succ_of_lt (h.restores_lt restore hr)
  phase := by
    cases phase with
    | idle => trivial
    | sampled => exact hphase
    | rotating => trivial
    | rotated => exact hphase

theorem fail (h : s.Sound) : s.fail.Sound where
  ordered := .close s.fence
  entries _ h := by cases h
  beats_lt := h.beats_lt
  restores_lt := h.restores_lt
  phase := trivial

theorem retained (h : s.Sound) (hbeat : ⟨token, epoch, committedAt⟩ ∈ s.beats) (wall : Int) :
    ∀ entry ∈ (s.fence.record token epoch committedAt wall).1.ring, ∃ own,
      (s.fence.record token epoch committedAt wall).1.epoch = some own ∧
        ⟨entry.token, own, entry.committedAt⟩ ∈ s.beats := by
  intro entry hentry
  refine ⟨epoch, ReplicaFence.record_epoch _ _ _ _ _, ?_⟩
  rcases ReplicaFence.mem_record hentry with ⟨hentry, hepoch⟩ | rfl
  · obtain ⟨own, hown, hmem⟩ := h.entries entry hentry
    cases hown.symm.trans hepoch
    exact hmem
  · exact hbeat

theorem record_eq (s : Loop) (token : Int) (epoch : Uuid) (committedAt : Nat) (wall : Int) :
    ∃ phase : LoopPhase, (phase = .idle ∨ phase = .rotating wall) ∧
      s.record token epoch committedAt wall =
        { s with fence := (s.fence.record token epoch committedAt wall).1, phase := phase } := by
  rw [Loop.record]
  split
  · rename_i heq
    rw [heq]
    exact ⟨.idle, .inl rfl, rfl⟩
  · rename_i heq
    rw [heq]
    exact ⟨.rotating wall, .inr rfl, rfl⟩

theorem refence (h : s.Sound) (hbeat : ⟨token, epoch, committedAt⟩ ∈ s.beats) (wall : Int)
    {phase : LoopPhase} (hphase : phase = .idle ∨ phase = .rotating wall) :
    Sound { s with
      fence := (s.fence.record token epoch committedAt wall).1
      phase := phase } where
  ordered := h.ordered.record token epoch committedAt wall
  entries := h.retained hbeat wall
  beats_lt := h.beats_lt
  restores_lt := h.restores_lt
  phase := by
    rcases hphase with rfl | rfl
    · trivial
    · trivial

theorem step (h : s.Sound) (hstep : LoopStep s e s') : s'.Sound := by
  cases hstep with
  | sample => exact h.beat s.epoch (List.mem_append_right _ List.mem_cons_self)
  | sampleFailed => exact h.fail
  | sampleLost =>
    have hbeat : (s.beat s.epoch).Sound := h.beat s.epoch (h.beat_phase s.epoch)
    exact hbeat.fail
  | @record token epoch committedAt wall hphase =>
    have hbeat := h.phase
    rw [hphase] at hbeat
    obtain ⟨phase, hphase, heq⟩ := record_eq s token epoch committedAt wall
    rw [heq]
    exact h.refence hbeat wall hphase
  | @rotate wall epoch hphase hfresh =>
    apply h.beat epoch
    refine ⟨List.mem_append_right _ List.mem_cons_self, ?_⟩
    intro b hb hown
    rcases List.mem_append.mp hb with hb | hb
    · exact absurd hown (hfresh b hb)
    · rw [List.mem_singleton.mp hb]
  | rotateFailed => exact h.fail
  | @rotateLost wall epoch =>
    have hbeat : (s.beat epoch).Sound := h.beat epoch (h.beat_phase epoch)
    exact hbeat.fail
  | @recordRotated token epoch committedAt wall hphase =>
    have hbeat := h.phase
    rw [hphase] at hbeat
    exact h.refence hbeat.1 wall (.inl rfl)
  | otherBeat => exact h.beat s.epoch (h.beat_phase s.epoch)
  | @otherRotate epoch => exact h.beat epoch (h.beat_phase epoch)
  | @restore token =>
    refine ⟨h.ordered, h.entries, fun b hb => Nat.lt_succ_of_lt (h.beats_lt b hb), ?_, ?_⟩
    · intro restore hr
      rcases List.mem_append.mp hr with hr | hr
      · exact Nat.lt_succ_of_lt (h.restores_lt restore hr)
      · rw [List.mem_singleton.mp hr]
        exact Nat.lt_succ_self _
    · have hphase := h.phase
      rw [Loop.restore]
      dsimp only
      cases hp : s.phase with
      | idle => trivial
      | sampled =>
        rw [hp] at hphase
        exact hphase
      | rotating => trivial
      | rotated =>
        rw [hp] at hphase
        exact hphase

theorem run (h : Run LoopStep (.init epoch) events s) : s.Sound := by
  induction h with
  | nil => exact .init epoch
  | snoc _ hstep ih => exact ih.step hstep

theorem ringSound (h : s.Sound) : RingSound s where
  ordered := h.ordered
  beats := h.entries
  resolve _ _ _ := ReplicaFence.resolve_proved_iff h.ordered

end Loop.Sound

/-- No entry that came after a restore is at or below a heartbeat from only before it. -/
def EntriesFresh (s : Loop) : Prop :=
  ∀ entry ∈ s.fence.ring, ∀ epoch, s.fence.epoch = some epoch → ∀ restore ∈ s.restores,
    restore ≤ entry.committedAt → ∀ observed, OnlyBefore s restore observed epoch →
      observed < entry.token

theorem EntriesFresh.noStaleProof (h : EntriesFresh s) (hsound : s.Sound) : NoStaleProof s := by
  intro restore hrestore token epoch entry honly hresolve
  obtain ⟨hmem, hepoch, hle, _⟩ := ReplicaFence.resolve_proved hsound.ordered hresolve
  by_contra hge
  have hlt := h entry hmem epoch hepoch restore hrestore (not_lt.mp hge) token honly
  omega

section Steps

variable {s : Loop}

/-- A heartbeat of now makes no observation one of only before. -/
theorem OnlyBefore.of_beat {own : Uuid} (h : OnlyBefore (s.beat own) restore observed epoch)
    (hle : restore ≤ s.now) : OnlyBefore s restore observed epoch := by
  obtain ⟨⟨b, hb, htoken, hepoch⟩, hall⟩ := h
  refine ⟨⟨b, ?_, htoken, hepoch⟩, fun b hb => hall b (List.mem_append_left _ hb)⟩
  rcases List.mem_append.mp hb with hmem | hnew
  · exact hmem
  · have hlt := hall b hb htoken hepoch
    rw [List.mem_singleton.mp hnew] at hlt
    exact absurd hlt (not_lt.mpr hle)

theorem EntriesFresh.beat (h : EntriesFresh s) (hsound : s.Sound) (own : Uuid) :
    EntriesFresh (s.beat own) := by
  intro entry hentry epoch hepoch restore hrestore hle observed honly
  exact h entry hentry epoch hepoch restore hrestore hle observed
    (honly.of_beat (hsound.restores_lt restore hrestore).le)

theorem EntriesFresh.restore (h : EntriesFresh s) (hsound : s.Sound) (token : Int) :
    EntriesFresh (s.restore token) := by
  intro entry hentry epoch hepoch restore hrestore hle observed honly
  rcases List.mem_append.mp hrestore with hrestore | hrestore
  · exact h entry hentry epoch hepoch restore hrestore hle observed honly
  · obtain ⟨own, _, hbeat⟩ := hsound.entries entry hentry
    have hlt := hsound.beats_lt _ hbeat
    rw [List.mem_singleton.mp hrestore] at hle
    exact absurd hlt (not_lt.mpr hle)

theorem EntriesFresh.record (h : EntriesFresh s)
    (hnew : ⟨token, committedAt, wall⟩ ∈ (s.fence.record token epoch committedAt wall).1.ring →
      ∀ restore ∈ s.restores, restore ≤ committedAt → ∀ observed,
        OnlyBefore s restore observed epoch → observed < token) (phase : LoopPhase) :
    EntriesFresh { s with
      fence := (s.fence.record token epoch committedAt wall).1
      phase := phase } := by
  intro entry hentry own hown restore hrestore hle observed honly
  cases (ReplicaFence.record_epoch s.fence token epoch committedAt wall).symm.trans hown
  rcases ReplicaFence.mem_record hentry with ⟨hold, hepoch⟩ | rfl
  · exact h entry hold epoch hepoch restore hrestore hle observed honly
  · exact hnew hentry restore hrestore hle observed honly

/-- What a step keeps, when the pod notices each restore. -/
theorem EntriesFresh.step (h : EntriesFresh s) (hsound : s.Sound) (hstep : LoopStep s e s')
    (hnoticed : RewindNoticed s e) : EntriesFresh s' := by
  cases hstep with
  | sample => exact h.beat hsound s.epoch
  | sampleFailed =>
    intro entry hentry
    cases hentry
  | sampleLost =>
    intro entry hentry
    cases hentry
  | @record token epoch committedAt wall hphase =>
    obtain ⟨phase, _, heq⟩ := Loop.Sound.record_eq s token epoch committedAt wall
    rw [heq]
    apply h.record
    intro hentry
    apply hnoticed token epoch committedAt wall hphase
    intro hepoch last hlast
    rcases ReplicaFence.record_cases s.fence token epoch committedAt wall with
      ⟨hne, _⟩ | ⟨_, _, hregression⟩ | ⟨_, hbelow, _⟩
    · exact absurd hepoch hne
    · rw [hregression] at hentry
      cases hentry
    · exact hbelow last hlast
  | rotate => exact h.beat hsound _
  | rotateFailed =>
    intro entry hentry
    cases hentry
  | rotateLost =>
    intro entry hentry
    cases hentry
  | @recordRotated token epoch committedAt wall hphase =>
    apply h.record
    intro _ restore hrestore hle observed honly
    have hrotated := hsound.phase
    rw [hphase] at hrotated
    obtain ⟨b, hb, htoken, hepoch⟩ := honly.1
    have hlt := honly.2 b hb htoken hepoch
    have hge := hrotated.2 b hb hepoch
    omega
  | otherBeat => exact h.beat hsound s.epoch
  | otherRotate => exact h.beat hsound _
  | restore => exact h.restore hsound _

/-- What is recorded below a heartbeat that was taken back proves that heartbeat. -/
theorem noticed_of_noStaleProof (hstep : LoopStep s e s') (h : NoStaleProof s') :
    RewindNoticed s e := by
  cases hstep with
  | @record token epoch committedAt wall hphase =>
    intro token' epoch' committedAt' wall' hphase' hbelow restore hrestore hle observed honly
    cases hphase.symm.trans hphase'
    obtain ⟨phase, _, heq⟩ := Loop.Sound.record_eq s token epoch committedAt wall
    rw [heq] at h
    by_contra hge
    have hlast : ∃ front, (s.fence.record token epoch committedAt wall).1.ring =
        front ++ [⟨token, committedAt, wall⟩] := by
      rcases ReplicaFence.record_cases s.fence token epoch committedAt wall with
        ⟨_, hfirst⟩ | ⟨hepoch, ⟨last, hlast, hregression⟩, _⟩ | ⟨_, _, hnext⟩
      · rw [hfirst]
        exact ⟨[], rfl⟩
      · exact absurd (hbelow hepoch last hlast) (not_lt.mpr hregression)
      · rw [hnext]
        exact ⟨_, rfl⟩
    obtain ⟨front, hring⟩ := hlast
    have hresolve := ReplicaFence.resolve_last hring
      (ReplicaFence.record_epoch s.fence token epoch committedAt wall) (not_lt.mp hge)
    have hlt := h restore hrestore observed epoch _ honly hresolve
    exact absurd hlt (not_lt.mpr hle)
  | sample => trivial
  | sampleFailed => trivial
  | sampleLost => trivial
  | rotate => trivial
  | rotateFailed => trivial
  | rotateLost => trivial
  | recordRotated => trivial
  | otherBeat => trivial
  | otherRotate => trivial
  | restore => trivial

end Steps

def firstEpoch : Uuid :=
  ⟨List.replicate 32 0, rfl⟩

end Buzz.Fence
