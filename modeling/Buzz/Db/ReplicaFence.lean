import Buzz.Lib.ListAt
import Buzz.Lib.Run
import Buzz.Lib.Uuid

namespace Buzz.Fence
set_option autoImplicit true

/-- Times of the writer are microseconds. -/
def SECOND : Int := 1000000

def CREATED_AT_FLOOR_SECS : Int := 960

def FENCE_CLOCK_MARGIN_SECS : Int := 5

def RING_CAPACITY : Nat := 120

/-- A heartbeat that was committed, when, and the wall it stands for. -/
structure TokenEntry where
  token : Int
  committedAt : Nat
  fenceWall : Int
deriving DecidableEq

structure ReplicaFence where
  epoch : Option Uuid
  ring : List TokenEntry

inductive RecordOutcome where
  | recorded
  | tokenRegression
deriving DecidableEq

inductive ResolveOutcome where
  | proved (entry : TokenEntry)
  | epochMismatch
  | tokenBehind

structure WriterSample where
  sampledAt : Int
  oldestXactStart : Option Int
  token : Int
  epoch : Uuid
  committedAt : Nat

def fenceWall (sampleS : Int) (oldestXactStart : Option Int) : Int :=
  (match oldestXactStart with
    | some oldest => min oldest sampleS
    | none => sampleS) - CREATED_AT_FLOOR_SECS * SECOND - FENCE_CLOCK_MARGIN_SECS * SECOND

namespace ReplicaFence

def new : ReplicaFence :=
  ⟨none, []⟩

def close (fence : ReplicaFence) : ReplicaFence :=
  { fence with ring := [] }

/-- The oldest entry makes room when the ring is full. -/
def retain (ring : List TokenEntry) (entry : TokenEntry) : List TokenEntry :=
  (if ring.length = RING_CAPACITY then ring.tail else ring) ++ [entry]

/-- Record one sample, and whether its token went back within the epoch. -/
def record (fence : ReplicaFence) (token : Int) (epoch : Uuid) (committedAt : Nat)
    (fenceWall : Int) : ReplicaFence × RecordOutcome :=
  if fence.epoch ≠ some epoch then
    (⟨some epoch, retain [] ⟨token, committedAt, fenceWall⟩⟩, .recorded)
  else if fence.ring.getLast?.any (fun last => token ≤ last.token) then
    (⟨fence.epoch, []⟩, .tokenRegression)
  else (⟨fence.epoch, retain fence.ring ⟨token, committedAt, fenceWall⟩⟩, .recorded)

/-- The newest entry that the observed token has reached. -/
def resolve (fence : ReplicaFence) (observedToken : Int) (observedEpoch : Uuid) : ResolveOutcome :=
  if fence.epoch.any (· ≠ observedEpoch) then .epochMismatch
  else
    match fence.ring.reverse.find? (·.token ≤ observedToken) with
    | some entry => .proved entry
    | none => .tokenBehind

/-- The tokens of a ring go up, and it has no more of them than it can hold. -/
structure Ordered (fence : ReplicaFence) : Prop where
  increasing : fence.ring.Pairwise fun a b => a.token < b.token
  length_le : fence.ring.length ≤ RING_CAPACITY
  unseen : fence.epoch = none → fence.ring = []

section Lemmas

variable {fence : ReplicaFence} {epoch : Uuid}

theorem mem_retain {ring : List TokenEntry} (h : e ∈ retain ring entry) : e ∈ ring ∨ e = entry := by
  rw [retain, List.mem_append, List.mem_singleton] at h
  rcases h with h | h
  · split at h
    · exact .inl (List.mem_of_mem_tail h)
    · exact .inl h
  · exact .inr h

/-- What a sample does to the ring. -/
theorem record_cases (fence : ReplicaFence) (token : Int) (epoch : Uuid) (committedAt : Nat)
    (wall : Int) :
    (fence.epoch ≠ some epoch ∧ fence.record token epoch committedAt wall =
        (⟨some epoch, [⟨token, committedAt, wall⟩]⟩, .recorded)) ∨
      (fence.epoch = some epoch ∧ (∃ last ∈ fence.ring.getLast?, token ≤ last.token) ∧
        fence.record token epoch committedAt wall = (⟨some epoch, []⟩, .tokenRegression)) ∨
      (fence.epoch = some epoch ∧ (∀ last ∈ fence.ring.getLast?, last.token < token) ∧
        fence.record token epoch committedAt wall =
          (⟨some epoch, retain fence.ring ⟨token, committedAt, wall⟩⟩, .recorded)) := by
  rw [record]
  split
  · rename_i hepoch
    exact .inl ⟨hepoch, rfl⟩
  · rename_i hepoch
    have hepoch : fence.epoch = some epoch := not_not.mp hepoch
    rw [hepoch]
    split
    · rename_i hany
      obtain ⟨last, hlast, hle⟩ := Option.any_eq_true_iff_get .. |>.mp hany |> fun ⟨h, hp⟩ =>
        (⟨_, Option.get_mem h, of_decide_eq_true hp⟩ : ∃ last ∈ fence.ring.getLast?, token ≤ last.token)
      exact .inr (.inl ⟨rfl, ⟨last, hlast, hle⟩, rfl⟩)
    · rename_i hany
      refine .inr (.inr ⟨rfl, ?_, rfl⟩)
      intro last hlast
      by_contra hle
      apply hany
      rw [Option.mem_def.mp hlast]
      exact decide_eq_true (not_lt.mp hle)

theorem token_le_getLast (h : fence.Ordered) (he : e ∈ fence.ring) :
    ∃ last ∈ fence.ring.getLast?, e.token ≤ last.token := by
  rcases List.eq_nil_or_concat fence.ring with hnil | ⟨front, last, hring⟩
  · rw [hnil] at he
    cases he
  · rw [List.concat_eq_append] at hring
    have hincreasing := h.increasing
    rw [hring] at he hincreasing ⊢
    refine ⟨last, List.getLast?_concat .., ?_⟩
    rcases List.mem_append.mp he with he | he
    · exact ((List.pairwise_append.mp hincreasing).2.2 e he last List.mem_cons_self).le
    · rw [List.mem_singleton.mp he]

theorem Ordered.new : new.Ordered where
  increasing := .nil
  length_le := Nat.zero_le _
  unseen _ := rfl

theorem Ordered.close (fence : ReplicaFence) : fence.close.Ordered where
  increasing := .nil
  length_le := Nat.zero_le _
  unseen _ := rfl

theorem Ordered.retain {entry : TokenEntry} (h : fence.Ordered)
    (hlast : ∀ last ∈ fence.ring.getLast?, last.token < entry.token) :
    Ordered ⟨some epoch, retain fence.ring entry⟩ where
  increasing := by
    have hbelow : ∀ e ∈ fence.ring, e.token < entry.token := by
      intro e he
      obtain ⟨last, hmem, hle⟩ := token_le_getLast h he
      exact lt_of_le_of_lt hle (hlast last hmem)
    rw [ReplicaFence.retain, List.pairwise_append]
    refine ⟨?_, List.pairwise_singleton _ _, ?_⟩
    · split
      · exact h.increasing.tail
      · exact h.increasing
    · intro e he last hl
      rw [List.mem_singleton.mp hl]
      split at he
      · exact hbelow e (List.mem_of_mem_tail he)
      · exact hbelow e he
  length_le := by
    have hle := h.length_le
    rw [ReplicaFence.retain, List.length_append, List.length_singleton]
    split
    · rename_i hfull
      rw [List.length_tail, hfull]
      decide
    · omega
  unseen h := by cases h

theorem Ordered.record (h : fence.Ordered) (token : Int) (epoch : Uuid) (committedAt : Nat)
    (wall : Int) : (fence.record token epoch committedAt wall).1.Ordered := by
  rcases record_cases fence token epoch committedAt wall with
    ⟨_, heq⟩ | ⟨_, _, heq⟩ | ⟨_, hlast, heq⟩
  · rw [heq]
    exact ⟨List.pairwise_singleton _ _, (by decide : 1 ≤ RING_CAPACITY), fun h => by cases h⟩
  · rw [heq]
    exact ⟨.nil, Nat.zero_le _, fun h => by cases h⟩
  · rw [heq]
    exact h.retain hlast

/-- What is in the ring after a sample was there before or is the sample. -/
theorem mem_record (he : e ∈ (fence.record token epoch committedAt wall).1.ring) :
    (e ∈ fence.ring ∧ fence.epoch = some epoch) ∨ e = ⟨token, committedAt, wall⟩ := by
  rcases record_cases fence token epoch committedAt wall with
    ⟨_, heq⟩ | ⟨_, _, heq⟩ | ⟨hepoch, _, heq⟩
  · rw [heq] at he
    exact .inr (List.mem_singleton.mp he)
  · rw [heq] at he
    cases he
  · rw [heq] at he
    rcases mem_retain he with he | he
    · exact .inl ⟨he, hepoch⟩
    · exact .inr he

theorem record_epoch (fence : ReplicaFence) (token : Int) (epoch : Uuid) (committedAt : Nat)
    (wall : Int) : (fence.record token epoch committedAt wall).1.epoch = some epoch := by
  rcases record_cases fence token epoch committedAt wall with
    ⟨_, heq⟩ | ⟨_, _, heq⟩ | ⟨_, _, heq⟩
  · rw [heq]
  · rw [heq]
  · rw [heq]

/-- A proof is the greatest entry of the ring that is not above the observed token. -/
theorem resolve_proved (h : fence.Ordered) (hresolve : fence.resolve token epoch = .proved e) :
    e ∈ fence.ring ∧ fence.epoch = some epoch ∧ e.token ≤ token ∧
      ∀ e' ∈ fence.ring, e'.token ≤ token → e'.token ≤ e.token := by
  rw [resolve] at hresolve
  split at hresolve
  · cases hresolve
  · rename_i hepoch
    split at hresolve
    · rename_i entry hfind
      cases hresolve
      obtain ⟨htoken, after, before, hring, hafter⟩ := List.find?_eq_some_iff_append.mp hfind
      have hring : fence.ring = before.reverse ++ e :: after.reverse := by
        rw [← List.reverse_reverse fence.ring, hring, List.reverse_append, List.reverse_cons,
          List.append_assoc]
        rfl
      have hmem : e ∈ fence.ring := by
        rw [hring]
        exact List.mem_append_right _ List.mem_cons_self
      refine ⟨hmem, ?_, of_decide_eq_true htoken, ?_⟩
      · cases hfence : fence.epoch with
        | none =>
          rw [h.unseen hfence] at hmem
          cases hmem
        | some own =>
          rw [hfence] at hepoch
          have hsame : own = epoch := by
            by_contra hne
            exact hepoch (decide_eq_true hne)
          rw [hsame]
      · intro e' he' hle
        have hincreasing := h.increasing
        rw [hring] at he' hincreasing
        rcases List.mem_append.mp he' with he' | he'
        · exact ((List.pairwise_append.mp hincreasing).2.2 e' he' e List.mem_cons_self).le
        · rcases List.mem_cons.mp he' with rfl | he'
          · exact le_refl _
          · have hnot := hafter e' (List.mem_reverse.mp he')
            rw [Bool.not_eq_true', decide_eq_false_iff_not] at hnot
            exact absurd hle hnot
    · cases hresolve

/-- The newest entry is proved by each token of its epoch from its own on. -/
theorem resolve_last (hring : fence.ring = front ++ [e]) (hepoch : fence.epoch = some epoch)
    (hle : e.token ≤ token) : fence.resolve token epoch = .proved e := by
  have hfind : fence.ring.reverse.find? (·.token ≤ token) = some e := by
    rw [hring, List.reverse_append, List.reverse_singleton, List.singleton_append]
    exact List.find?_cons_of_pos (decide_eq_true hle)
  rw [resolve, hepoch, if_neg, hfind]
  rw [Option.any_some, decide_eq_true_iff]
  exact not_not.mpr rfl

end Lemmas

end ReplicaFence

theorem fenceWall_lt (sampleS : Int) (oldestXactStart : Option Int) :
    fenceWall sampleS oldestXactStart < sampleS - CREATED_AT_FLOOR_SECS * SECOND := by
  unfold fenceWall FENCE_CLOCK_MARGIN_SECS SECOND
  split
  · omega
  · omega

theorem fenceWall_lt_of_mem (sampleS : Int) (h : oldestXactStart = some oldest) :
    fenceWall sampleS oldestXactStart < oldest - CREATED_AT_FLOOR_SECS * SECOND := by
  subst h
  unfold fenceWall FENCE_CLOCK_MARGIN_SECS SECOND
  dsimp only
  omega

end Buzz.Fence
