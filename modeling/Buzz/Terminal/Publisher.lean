import Buzz.Lib.Run
import Buzz.Terminal.Frames

namespace Buzz.Terminal
set_option autoImplicit true

/-- A frame carrying the identity and sequence that its acknowledgement must repeat. -/
structure Publication (Id : Type) where
  subscriptionId : Id
  sequence : ℕ
  frame : Frame

/-- Only a complete snapshot may be replaceable. -/
inductive OfferError where
  | pendingFrameMustBeSnapshot

structure Subscription (Id : Type) where
  id : Id
  nextSequence : ℕ
  inFlight : Option ℕ
  pending : Option Frame
  viewportReady : Bool

/-- Publication state for a terminal session. -/
structure FramePublisher (Id : Type) where
  applied : Viewport
  subscription : Option (Subscription Id)

variable {Id : Type}

namespace Subscription

/-- Credit or readiness is held. -/
def Held (s : Subscription Id) : Prop :=
  s.inFlight.isSome ∨ s.viewportReady = false

instance (s : Subscription Id) : Decidable s.Held :=
  inferInstanceAs (Decidable (_ ∨ _))

def publish (s : Subscription Id) (frame : Frame) : Subscription Id × Publication Id :=
  ({ s with nextSequence := s.nextSequence + 1, inFlight := some s.nextSequence },
    { subscriptionId := s.id, sequence := s.nextSequence, frame })

def flush (s : Subscription Id) : Subscription Id × Option (Publication Id) :=
  if s.Held then (s, none)
  else match s.pending with
    | none => (s, none)
    | some frame =>
      let done := publish { s with pending := none } frame
      (done.1, some done.2)

end Subscription

namespace FramePublisher

def new (applied : Viewport) : FramePublisher Id where
  applied := applied
  subscription := none

/-- Attach with a complete snapshot of the current viewport. -/
def attach (p : FramePublisher Id) (id : Id) (snapshot : Frame) :
    Except OfferError (FramePublisher Id × Publication Id) :=
  if snapshot.viewport = p.applied ∧ snapshot.full = true then
    let done := Subscription.publish
      { id, nextSequence := 1, inFlight := none, pending := none, viewportReady := true } snapshot
    .ok ({ p with subscription := some done.1 }, done.2)
  else .error .pendingFrameMustBeSnapshot

/-- Whether the next capture must be complete so it can safely replace the pending value. -/
def requiresSnapshot (p : FramePublisher Id) : Bool :=
  p.subscription.any fun s => decide s.Held

/-- Offer the newest capture. Frames for an overtaken viewport are inert. -/
def offer (p : FramePublisher Id) (frame : Frame) :
    Except OfferError (FramePublisher Id × Option (Publication Id)) :=
  if frame.viewport ≠ p.applied then .ok (p, none)
  else match p.subscription with
    | none => .ok (p, none)
    | some s =>
      if s.Held then
        if frame.full then
          .ok ({ p with subscription := some { s with pending := some frame } }, none)
        else .error .pendingFrameMustBeSnapshot
      else
        let done := s.publish frame
        .ok ({ p with subscription := some done.1 }, some done.2)

/-- Apply the viewport returned by the engine resize call. A same-size resize is inert. -/
def resizeApplied (p : FramePublisher Id) (viewport : Viewport) : FramePublisher Id :=
  if viewport = p.applied then p
  else
    { applied := viewport
      subscription := p.subscription.map fun s =>
        { s with viewportReady := false, pending := none } }

def close (p : FramePublisher Id) : FramePublisher Id :=
  { p with subscription := none }

variable [DecidableEq Id]

/-- Release frame credit only for the exact live subscription and exact frame in flight. -/
def acknowledge (p : FramePublisher Id) (id : Id) (sequence : ℕ) :
    FramePublisher Id × Option (Publication Id) :=
  match p.subscription with
  | none => (p, none)
  | some s =>
    if s.id ≠ id ∨ s.inFlight ≠ some sequence then (p, none)
    else
      let done := Subscription.flush { s with inFlight := none }
      ({ p with subscription := some done.1 }, done.2)

/-- Renderer confirmation that the resize result has been installed. -/
def viewportReady (p : FramePublisher Id) (id : Id) (viewport : Viewport) :
    FramePublisher Id × Option (Publication Id) :=
  match p.subscription with
  | none => (p, none)
  | some s =>
    if s.id ≠ id ∨ viewport ≠ p.applied then (p, none)
    else
      let done := Subscription.flush { s with viewportReady := true }
      ({ p with subscription := some done.1 }, done.2)

/-- Drop publication state of the subscription. -/
def fault (p : FramePublisher Id) (id : Id) : FramePublisher Id × Bool :=
  if p.subscription.any fun s => s.id = id then ({ p with subscription := none }, true)
  else (p, false)

end FramePublisher

/-- What callers ask of a publisher. -/
inductive PublisherOp (Id : Type) where
  | attach (id : Id) (snapshot : Frame)
  | offer (frame : Frame)
  | resizeApplied (viewport : Viewport)
  | acknowledge (id : Id) (sequence : ℕ)
  | viewportReady (id : Id) (viewport : Viewport)
  | fault (id : Id)
  | close

/-- A publisher beside its history: what the live subscription was sent, and the last complete
frame accepted for the viewport in effect with all that was accepted after it. -/
structure Line (Id : Type) where
  publisher : FramePublisher Id
  sent : List (Publication Id)
  since : List Frame

namespace Line

def new (applied : Viewport) : Line Id where
  publisher := .new applied
  sent := []
  since := []

/-- A frame that is accepted: a complete one makes what came before it irrelevant. -/
def accept (since : List Frame) (frame : Frame) : List Frame :=
  if frame.full then [frame] else if since = [] then [] else since ++ [frame]

/-- The frame is one that an offer takes. -/
def Taken (p : FramePublisher Id) (frame : Frame) : Prop :=
  frame.viewport = p.applied ∧ p.subscription.isSome ∧
    (p.requiresSnapshot = true → frame.full = true)

instance (p : FramePublisher Id) (frame : Frame) : Decidable (Taken p frame) :=
  inferInstanceAs (Decidable (_ ∧ _ ∧ _))

/-- What a live subscription was sent, and what it is still owed. -/
structure Live (line : Line Id) (s : Subscription Id) : Prop where
  started : line.sent ≠ []
  ids : ∀ p ∈ line.sent, p.subscriptionId = s.id
  sequences : line.sent.map Publication.sequence = List.range' 1 line.sent.length
  next : s.nextSequence = line.sent.length + 1
  -- The credit that is out is the one of the newest publication.
  credit : ∀ sequence, s.inFlight = some sequence → sequence = line.sent.length
  viewport : ∀ frame ∈ line.since, frame.viewport = line.publisher.applied
  -- A frame that waits is all that is owed, and has a reason to wait.
  waiting : ∀ frame, s.pending = some frame →
    frame.full = true ∧ s.Held ∧ line.since = [frame]
  -- With none waiting, the subscription has been sent all of it, in order.
  delivered : s.pending = none → line.since <:+ line.sent.map Publication.frame

structure Ok (line : Line Id) : Prop where
  live : ∀ s, line.publisher.subscription = some s → line.Live s
  empty : line.publisher.subscription = none → line.sent = [] ∧ line.since = []

variable {line : Line Id} {s : Subscription Id}

theorem ok_new (applied : Viewport) : (new applied : Line Id).Ok := by
  refine ⟨fun s hs => ?_, fun _ => ⟨rfl, rfl⟩⟩
  cases hs

theorem ok_none {p : FramePublisher Id} (hp : p.subscription = none) :
    ({ publisher := p, sent := [], since := [] } : Line Id).Ok := by
  refine ⟨fun s hs => ?_, fun _ => ⟨rfl, rfl⟩⟩
  change p.subscription = some s at hs
  rw [hp] at hs
  cases hs

/-- Publishing the next frame of what is owed. -/
theorem Live.publish (h : line.Live s) (frame : Frame) (since : List Frame)
    (hviewport : ∀ f ∈ since, f.viewport = line.publisher.applied)
    (hsince : since <:+ line.sent.map Publication.frame ++ [frame])
    {p : FramePublisher Id} (hp : p.applied = line.publisher.applied) :
    ({ publisher := p, sent := line.sent ++ [(s.publish frame).2], since } : Line Id).Live
      { (s.publish frame).1 with pending := none } where
  started := List.append_ne_nil_of_right_ne_nil _ (List.cons_ne_nil _ _)
  ids q hq := by
    rcases List.mem_append.mp hq with hq | hq
    · exact h.ids q hq
    · rw [List.mem_singleton.mp hq]
      rfl
  sequences := by
    change (line.sent ++ [(s.publish frame).2]).map Publication.sequence = _
    rw [List.map_append, h.sequences, List.length_append, List.length_singleton,
      List.range'_1_concat, Nat.add_comm 1, ← h.next]
    rfl
  next := by
    change s.nextSequence + 1 = _
    rw [h.next, List.length_append, List.length_singleton]
  credit sequence hs := by
    change some s.nextSequence = some sequence at hs
    rw [← Option.some.inj hs, h.next, List.length_append, List.length_singleton]
  viewport f hf := (hviewport f hf).trans hp.symm
  waiting f hf := by cases hf
  delivered _ := by
    change since <:+ (line.sent ++ [(s.publish frame).2]).map Publication.frame
    rw [List.map_append]
    exact hsince

/-- Releasing a hold sends the frame that waits for it. -/
theorem Live.flush (h : line.Live s) {t : Subscription Id} (hid : t.id = s.id)
    (hnext : t.nextSequence = s.nextSequence) (hpending : t.pending = s.pending)
    (hcredit : ∀ sequence, t.inFlight = some sequence → s.inFlight = some sequence)
    {p : FramePublisher Id} (hp : p.applied = line.publisher.applied) :
    ({ publisher := p, sent := line.sent ++ t.flush.2.toList, since := line.since } : Line Id).Live
      t.flush.1 := by
  have hlive : ({ publisher := p, sent := line.sent, since := line.since } : Line Id).Live
      { t with pending := none } ∨ s.pending ≠ none := by
    by_cases hnone : s.pending = none
    · refine .inl ⟨h.started, ?_, h.sequences, hnext.trans h.next, fun q hq => h.credit q (hcredit q hq),
        fun f hf => (h.viewport f hf).trans hp.symm, fun f hf => ?_, fun _ => h.delivered hnone⟩
      · intro q hq
        exact (h.ids q hq).trans hid.symm
      · cases hf
    · exact .inr hnone
  unfold Subscription.flush
  split
  · rename_i hheld
    rw [Option.toList_none, List.append_nil]
    refine ⟨h.started, fun q hq => (h.ids q hq).trans hid.symm, h.sequences, hnext.trans h.next,
      fun q hq => h.credit q (hcredit q hq), fun f hf => (h.viewport f hf).trans hp.symm,
      fun f hf => ?_, fun hnone => h.delivered (hpending ▸ hnone)⟩
    obtain ⟨hfull, -, hsince⟩ := h.waiting f (hpending ▸ hf)
    exact ⟨hfull, hheld, hsince⟩
  · split
    · rename_i hnone
      rw [Option.toList_none, List.append_nil]
      rcases hlive with hlive | hsome
      · have heta : ({ t with pending := none } : Subscription Id) = t := by
          cases t
          cases hnone
          rfl
        rwa [heta] at hlive
      · exact absurd (hpending ▸ hnone) hsome
    · rename_i frame hframe
      obtain ⟨-, -, hsince⟩ := h.waiting frame (hpending ▸ hframe)
      have hbare : ({ publisher := p, sent := line.sent, since := [] } : Line Id).Live
          { t with pending := none } :=
        ⟨h.started, fun q hq => (h.ids q hq).trans hid.symm, h.sequences, hnext.trans h.next,
          fun q hq => h.credit q (hcredit q hq), fun f hf => absurd hf List.not_mem_nil,
          (fun f hf => by cases hf), fun _ => List.nil_suffix⟩
      refine hbare.publish frame _ (fun f hf => (h.viewport f hf).trans hp.symm) ?_ rfl
      rw [hsince]
      exact List.suffix_append _ _

variable [DecidableEq Id]

def exec (line : Line Id) : PublisherOp Id → Line Id
  | .attach id snapshot =>
    match line.publisher.attach id snapshot with
    | .ok done => { publisher := done.1, sent := [done.2], since := [snapshot] }
    | .error _ => line
  | .offer frame =>
    match line.publisher.offer frame with
    | .ok done =>
      { publisher := done.1
        sent := line.sent ++ done.2.toList
        since := if Taken line.publisher frame then accept line.since frame else line.since }
    | .error _ => line
  | .resizeApplied viewport =>
    { publisher := line.publisher.resizeApplied viewport
      sent := line.sent
      since := if viewport = line.publisher.applied then line.since else [] }
  | .acknowledge id sequence =>
    let done := line.publisher.acknowledge id sequence
    { publisher := done.1, sent := line.sent ++ done.2.toList, since := line.since }
  | .viewportReady id viewport =>
    let done := line.publisher.viewportReady id viewport
    { publisher := done.1, sent := line.sent ++ done.2.toList, since := line.since }
  | .fault id =>
    let done := line.publisher.fault id
    if done.2 then { publisher := done.1, sent := [], since := [] } else line
  | .close => { publisher := line.publisher.close, sent := [], since := [] }

theorem exec_ok (h : line.Ok) (op : PublisherOp Id) : (line.exec op).Ok := by
  cases op with
  | attach id snapshot =>
    by_cases hsnapshot : snapshot.viewport = line.publisher.applied ∧ snapshot.full = true
    · simp only [exec, FramePublisher.attach, if_pos hsnapshot]
      refine ⟨fun s hs => ?_, fun hs => ?_⟩
      · obtain rfl := Option.some.inj hs
        refine ⟨List.cons_ne_nil _ _, fun q hq => ?_, rfl, rfl, fun q hq => ?_, fun f hf => ?_,
          fun f hf => ?_, fun _ => List.suffix_refl _⟩
        · rw [List.mem_singleton.mp hq]
          rfl
        · exact (Option.some.inj hq).symm
        · rw [List.mem_singleton.mp hf]
          exact hsnapshot.1
        · cases hf
      · cases hs
    · simp only [exec, FramePublisher.attach, if_neg hsnapshot]
      exact h
  | offer frame =>
    simp only [exec, FramePublisher.offer]
    by_cases hviewport : frame.viewport = line.publisher.applied
    · rw [if_neg (not_not_intro hviewport)]
      cases hs : line.publisher.subscription with
      | none =>
        have htaken : ¬ Taken line.publisher frame := fun ht => by
          have hsome := ht.2.1
          rw [hs] at hsome
          cases hsome
        simp only [Option.toList_none, List.append_nil, if_neg htaken]
        exact h
      | some s =>
        have hlive := h.live s hs
        by_cases hheld : s.Held
        · by_cases hfull : frame.full = true
          · have htaken : Taken line.publisher frame :=
              ⟨hviewport, by rw [hs]; rfl, fun _ => hfull⟩
            simp only [if_pos hheld, if_pos hfull, Option.toList_none, List.append_nil,
              if_pos htaken, accept]
            refine ⟨fun t ht => ?_, fun ht => ?_⟩
            · obtain rfl := Option.some.inj ht
              refine ⟨hlive.started, hlive.ids, hlive.sequences, hlive.next, hlive.credit, fun f hf => ?_,
                fun f hf => ?_, fun hnone => ?_⟩
              · rw [List.mem_singleton.mp hf]
                exact hviewport
              · obtain rfl := Option.some.inj hf
                exact ⟨hfull, hheld, rfl⟩
              · cases hnone
            · cases ht
          · simp only [if_pos hheld, if_neg hfull]
            exact h
        · have htaken : Taken line.publisher frame := by
            refine ⟨hviewport, by rw [hs]; rfl, fun hrequires => absurd ?_ hheld⟩
            rw [FramePublisher.requiresSnapshot, hs] at hrequires
            exact of_decide_eq_true hrequires
          simp only [if_neg hheld, if_pos htaken, Option.toList_some]
          have hpending : s.pending = none := by
            cases hp : s.pending with
            | none => rfl
            | some f => exact absurd (hlive.waiting f hp).2.1 hheld
          refine ⟨fun t ht => ?_, fun ht => ?_⟩
          · obtain rfl := Option.some.inj ht
            have hpublished := hlive.publish frame (accept line.since frame)
              (fun f hf => ?_) ?_
              (p := { line.publisher with subscription := some (s.publish frame).1 }) rfl
            · have heta : ({ (s.publish frame).1 with pending := none } : Subscription Id) =
                  (s.publish frame).1 := by
                cases s
                cases hpending
                rfl
              rwa [heta] at hpublished
            · unfold accept at hf
              split at hf
              · rw [List.mem_singleton.mp hf]
                exact hviewport
              · split at hf
                · exact absurd hf List.not_mem_nil
                · rcases List.mem_append.mp hf with hf | hf
                  · exact hlive.viewport f hf
                  · rw [List.mem_singleton.mp hf]
                    exact hviewport
            · unfold accept
              split
              · exact List.suffix_append _ _
              · split
                · exact List.nil_suffix
                · obtain ⟨pre, hpre⟩ := hlive.delivered hpending
                  exact ⟨pre, by rw [← hpre, List.append_assoc]⟩
          · cases ht
    · rw [if_pos hviewport]
      have htaken : ¬ Taken line.publisher frame := fun ht => hviewport ht.1
      simp only [Option.toList_none, List.append_nil, if_neg htaken]
      exact h
  | resizeApplied viewport =>
    simp only [exec, FramePublisher.resizeApplied]
    by_cases hv : viewport = line.publisher.applied
    · simp only [if_pos hv]
      exact h
    · simp only [if_neg hv]
      refine ⟨fun t ht => ?_, fun ht => ?_⟩
      · obtain ⟨s, hs, rfl⟩ := Option.map_eq_some_iff.mp ht
        have hlive := h.live s hs
        exact ⟨hlive.started, hlive.ids, hlive.sequences, hlive.next, hlive.credit,
          fun f hf => absurd hf List.not_mem_nil, (fun f hf => by cases hf),
          fun _ => List.nil_suffix⟩
      · exact ⟨(h.empty (Option.map_eq_none_iff.mp ht)).1, rfl⟩
  | acknowledge id sequence =>
    simp only [exec, FramePublisher.acknowledge]
    cases hs : line.publisher.subscription with
    | none =>
      simp only [Option.toList_none, List.append_nil]
      exact h
    | some s =>
      by_cases hstale : s.id ≠ id ∨ s.inFlight ≠ some sequence
      · simp only [if_pos hstale, Option.toList_none, List.append_nil]
        exact h
      · simp only [if_neg hstale]
        refine ⟨fun t ht => ?_, fun ht => ?_⟩
        · obtain rfl := Option.some.inj ht
          exact (h.live s hs).flush (t := { s with inFlight := none }) rfl rfl rfl
            (fun q hq => by cases hq) rfl
        · cases ht
  | viewportReady id viewport =>
    simp only [exec, FramePublisher.viewportReady]
    cases hs : line.publisher.subscription with
    | none =>
      simp only [Option.toList_none, List.append_nil]
      exact h
    | some s =>
      by_cases hstale : s.id ≠ id ∨ viewport ≠ line.publisher.applied
      · simp only [if_pos hstale, Option.toList_none, List.append_nil]
        exact h
      · simp only [if_neg hstale]
        refine ⟨fun t ht => ?_, fun ht => ?_⟩
        · obtain rfl := Option.some.inj ht
          exact (h.live s hs).flush (t := { s with viewportReady := true }) rfl rfl rfl
            (fun q hq => hq) rfl
        · cases ht
  | fault id =>
    simp only [exec, FramePublisher.fault]
    by_cases hany : (line.publisher.subscription.any fun s => decide (s.id = id)) = true
    · simp only [if_pos hany]
      exact ok_none rfl
    · simp only [if_neg hany]
      exact h
  | close =>
    exact ok_none rfl

/-- One operation of a caller. -/
def Step (line : Line Id) (op : PublisherOp Id) (line' : Line Id) : Prop :=
  line' = line.exec op

theorem Step.ok {line' : Line Id} {op : PublisherOp Id} (hstep : Step line op line') (h : line.Ok) :
    line'.Ok := by
  rw [hstep]
  exact exec_ok h op

theorem run_ok {ops : List (PublisherOp Id)} (h : Run Step (new applied) ops line) : line.Ok :=
  h.history (ok_new applied) fun _ _ _ _ ht hstep => Step.ok hstep ht

/-- What a publication needs: the viewport in effect, confirmed, and no credit out. -/
structure Permitted (line : Line Id) (op : PublisherOp Id) (p : Publication Id) : Prop where
  viewport : p.frame.viewport = (line.exec op).publisher.applied
  credit : ∃ s, (line.exec op).publisher.subscription = some s ∧ s.viewportReady = true ∧
    s.inFlight = some p.sequence
  free : ∀ s, line.publisher.subscription = some s → s.inFlight = none ∨
    ∃ sequence, s.inFlight = some sequence ∧ op = .acknowledge s.id sequence

omit [DecidableEq Id] in
theorem flush_some {t : Subscription Id} (h : t.flush.2 = some p) :
    ¬ t.Held ∧ t.pending = some p.frame ∧ t.flush.1.viewportReady = true ∧
      t.flush.1.inFlight = some p.sequence := by
  unfold Subscription.flush at h ⊢
  split at h
  · cases h
  · rename_i hheld
    have hready : t.viewportReady = true := by
      cases hr : t.viewportReady with
      | true => rfl
      | false => exact absurd (.inr hr) hheld
    split at h
    · cases h
    · rename_i frame hframe
      obtain rfl := Option.some.inj h
      rw [if_neg hheld, hframe]
      exact ⟨hheld, rfl, hready, rfl⟩

theorem toList_eq_singleton {o : Option α} (h : as ++ o.toList = as ++ [a]) : o = some a := by
  have htail := List.append_cancel_left h
  cases o with
  | none => cases htail
  | some b => rw [List.singleton_inj.mp htail]

theorem permitted (h : line.Ok) (op : PublisherOp Id)
    (hsent : (line.exec op).sent = line.sent ++ [p]) : line.Permitted op p := by
  have hsilent : line.sent ≠ line.sent ++ [p] := fun he =>
    absurd (List.self_eq_append_right.mp he) (List.cons_ne_nil _ _)
  -- What a flush sends waited for the viewport in effect.
  have hflush : ∀ {s : Subscription Id} {t : Subscription Id}, line.publisher.subscription = some s →
      t.pending = s.pending → t.flush.2 = some p →
      p.frame.viewport = line.publisher.applied := by
    intro s t hs hpending hsome
    have hlive := h.live s hs
    obtain ⟨-, hwaits, -, -⟩ := flush_some hsome
    obtain ⟨-, -, hsince⟩ := hlive.waiting p.frame (hpending ▸ hwaits)
    exact hlive.viewport p.frame (hsince ▸ List.mem_cons_self)
  cases op with
  | attach id snapshot =>
    by_cases hsnapshot : snapshot.viewport = line.publisher.applied ∧ snapshot.full = true
    · simp only [exec, FramePublisher.attach, if_pos hsnapshot] at hsent
      have hnil : line.sent = [] := by
        cases hl : line.sent with
        | nil => rfl
        | cons q rest =>
          have hlen := congrArg List.length hsent
          rw [hl, List.length_append, List.length_cons, List.length_singleton] at hlen
          simp at hlen
      rw [hnil, List.nil_append, List.singleton_inj] at hsent
      subst hsent
      refine ⟨?_, ?_, fun s hs => absurd hnil (h.live s hs).started⟩
      · simp only [exec, FramePublisher.attach, if_pos hsnapshot]
        exact hsnapshot.1
      · simp only [exec, FramePublisher.attach, if_pos hsnapshot]
        exact ⟨_, rfl, rfl, rfl⟩
    · simp only [exec, FramePublisher.attach, if_neg hsnapshot] at hsent
      exact absurd hsent hsilent
  | offer frame =>
    by_cases hviewport : frame.viewport = line.publisher.applied
    · cases hs : line.publisher.subscription with
      | none =>
        simp only [exec, FramePublisher.offer, if_neg (not_not_intro hviewport), hs,
          Option.toList_none, List.append_nil] at hsent
        exact absurd hsent hsilent
      | some s =>
        by_cases hheld : s.Held
        · by_cases hfull : frame.full = true
          · simp only [exec, FramePublisher.offer, if_neg (not_not_intro hviewport), hs,
              if_pos hheld, if_pos hfull, Option.toList_none, List.append_nil] at hsent
            exact absurd hsent hsilent
          · simp only [exec, FramePublisher.offer, if_neg (not_not_intro hviewport), hs,
              if_pos hheld, if_neg hfull] at hsent
            exact absurd hsent hsilent
        · have hready : s.viewportReady = true := by
            cases hr : s.viewportReady with
            | true => rfl
            | false => exact absurd (.inr hr) hheld
          simp only [exec, FramePublisher.offer, if_neg (not_not_intro hviewport), hs,
            if_neg hheld] at hsent
          obtain rfl := Option.some.inj (toList_eq_singleton hsent)
          refine ⟨?_, ?_, fun t ht => ?_⟩
          · simp only [exec, FramePublisher.offer, if_neg (not_not_intro hviewport), hs,
              if_neg hheld]
            exact hviewport
          · simp only [exec, FramePublisher.offer, if_neg (not_not_intro hviewport), hs,
              if_neg hheld]
            exact ⟨_, rfl, hready, rfl⟩
          · obtain rfl := Option.some.inj (hs.symm.trans ht)
            cases hf : s.inFlight with
            | none => exact .inl rfl
            | some q => exact absurd (.inl (by rw [hf]; rfl)) hheld
    · simp only [exec, FramePublisher.offer, if_pos hviewport, Option.toList_none,
        List.append_nil] at hsent
      exact absurd hsent hsilent
  | resizeApplied viewport => exact absurd hsent hsilent
  | acknowledge id sequence =>
    cases hs : line.publisher.subscription with
    | none =>
      simp only [exec, FramePublisher.acknowledge, hs, Option.toList_none, List.append_nil] at hsent
      exact absurd hsent hsilent
    | some s =>
      by_cases hstale : s.id ≠ id ∨ s.inFlight ≠ some sequence
      · simp only [exec, FramePublisher.acknowledge, hs, if_pos hstale, Option.toList_none,
          List.append_nil] at hsent
        exact absurd hsent hsilent
      · simp only [exec, FramePublisher.acknowledge, hs, if_neg hstale] at hsent
        have hsome := toList_eq_singleton hsent
        obtain ⟨-, -, hready, hcredit⟩ := flush_some hsome
        rw [not_or, not_ne_iff, not_ne_iff] at hstale
        refine ⟨?_, ?_, fun t ht => ?_⟩
        · simp only [exec, FramePublisher.acknowledge, hs,
            if_neg (not_or.mpr ⟨not_ne_iff.mpr hstale.1, not_ne_iff.mpr hstale.2⟩)]
          exact hflush (t := { s with inFlight := none }) hs rfl hsome
        · simp only [exec, FramePublisher.acknowledge, hs,
            if_neg (not_or.mpr ⟨not_ne_iff.mpr hstale.1, not_ne_iff.mpr hstale.2⟩)]
          exact ⟨_, rfl, hready, hcredit⟩
        · obtain rfl := Option.some.inj (hs.symm.trans ht)
          exact .inr ⟨sequence, hstale.2, by rw [hstale.1]⟩
  | viewportReady id viewport =>
    cases hs : line.publisher.subscription with
    | none =>
      simp only [exec, FramePublisher.viewportReady, hs, Option.toList_none,
        List.append_nil] at hsent
      exact absurd hsent hsilent
    | some s =>
      by_cases hstale : s.id ≠ id ∨ viewport ≠ line.publisher.applied
      · simp only [exec, FramePublisher.viewportReady, hs, if_pos hstale, Option.toList_none,
          List.append_nil] at hsent
        exact absurd hsent hsilent
      · simp only [exec, FramePublisher.viewportReady, hs, if_neg hstale] at hsent
        have hsome := toList_eq_singleton hsent
        obtain ⟨hfree, -, hready, hcredit⟩ := flush_some hsome
        refine ⟨?_, ?_, fun t ht => ?_⟩
        · simp only [exec, FramePublisher.viewportReady, hs, if_neg hstale]
          exact hflush (t := { s with viewportReady := true }) hs rfl hsome
        · simp only [exec, FramePublisher.viewportReady, hs, if_neg hstale]
          exact ⟨_, rfl, hready, hcredit⟩
        · obtain rfl := Option.some.inj (hs.symm.trans ht)
          cases hf : s.inFlight with
          | none => exact .inl rfl
          | some q => exact absurd (.inl (by rw [hf]; rfl)) hfree
  | fault id =>
    by_cases hany : (line.publisher.subscription.any fun s => decide (s.id = id)) = true
    · simp only [exec, FramePublisher.fault, if_pos hany] at hsent
      exact absurd hsent.symm (List.append_ne_nil_of_right_ne_nil _ (List.cons_ne_nil _ _))
    · simp only [exec, FramePublisher.fault, if_neg hany] at hsent
      exact absurd hsent hsilent
  | close => exact absurd hsent.symm (List.append_ne_nil_of_right_ne_nil _ (List.cons_ne_nil _ _))

/-- In every run a subscription is sent consecutive frames, each once the one before it is
acknowledged and its viewport confirmed, and loses no accepted frame: what it was sent ends with the
last complete frame and all that came after it, or that complete frame waits. -/
theorem publisher_delivers {ops : List (PublisherOp Id)} (h : Run Step (new applied) ops line) :
    line.Ok ∧ ∀ op p, (line.exec op).sent = line.sent ++ [p] → line.Permitted op p :=
  ⟨run_ok h, fun op _ hsent => permitted (run_ok h) op hsent⟩

def snapshotFrame (column : ℕ) : Frame where
  rows := [rowFrame 0 []]
  cursor := ⟨0, column, true⟩
  cursorChanged := true
  full := true
  viewport := ⟨0, 80, 1⟩

/-- Two snapshots are offered while the first frame is unacknowledged. -/
def heldLine : Line ℕ :=
  (((new ⟨0, 80, 1⟩).exec (.attach 7 (snapshotFrame 0))).exec (.offer (snapshotFrame 1))).exec
    (.offer (snapshotFrame 2))

theorem publisher_delivers_held : heldLine.Ok ∧
    ∀ op p, (heldLine.exec op).sent = heldLine.sent ++ [p] → heldLine.Permitted op p :=
  publisher_delivers (((Run.nil.snoc rfl).snoc rfl).snoc rfl)

end Line

end Buzz.Terminal
