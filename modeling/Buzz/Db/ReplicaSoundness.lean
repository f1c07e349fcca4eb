import Buzz.Db.ReplicaProbe

namespace Buzz.Fence
set_option autoImplicit true

def ProbePhase.Sound (w : Writer) : ProbePhase → Prop
  | idle => True
  | clocked sampledAt => sampledAt ≤ w.clock
  | scanning scan => scan.Sound w
  | sampled sample => Fenced (fenceWall sample.sampledAt sample.oldestXactStart) sample.token w
  | rotating wall => Cleared wall w
  | rotated token _ _ wall => Fenced wall token w

theorem ProbePhase.Sound.grows {phase : ProbePhase} (h : phase.Sound w) (hgrows : Grows w w') :
    phase.Sound w' := by
  cases phase with
  | idle => trivial
  | clocked => exact le_trans h hgrows.clock_le
  | scanning => exact Scan.Sound.grows h hgrows
  | sampled => exact Fenced.grows h hgrows
  | rotating => exact Cleared.grows h hgrows
  | rotated => exact Fenced.grows h hgrows

/-- What a pod retains is proved. -/
structure Pod.Sound (w : Writer) (pod : Pod) : Prop where
  ordered : pod.fence.Ordered
  entries : ∀ entry ∈ pod.fence.ring, Fenced entry.fenceWall entry.token w
  phase : pod.phase.Sound w

namespace Pod.Sound

variable {pod : Pod} {w : Writer}

theorem grows (h : pod.Sound w) (hgrows : Grows w w') : pod.Sound w' where
  ordered := h.ordered
  entries entry hentry := (h.entries entry hentry).grows hgrows
  phase := ProbePhase.Sound.grows h.phase hgrows

/-- A probe goes on. -/
theorem move {phase : ProbePhase} (h : pod.Sound w) (hphase : phase.Sound w) :
    Pod.Sound w { pod with phase := phase } where
  ordered := h.ordered
  entries := h.entries
  phase := hphase

theorem retained (h : pod.Sound w) (hfenced : Fenced wall token w) (epoch : Uuid)
    (committedAt : Nat) :
    ∀ entry ∈ (pod.fence.record token epoch committedAt wall).1.ring,
      Fenced entry.fenceWall entry.token w := by
  intro entry hentry
  rcases ReplicaFence.mem_record hentry with ⟨hentry, _⟩ | rfl
  · exact h.entries entry hentry
  · exact hfenced

theorem record (h : pod.Sound w) (hphase : pod.phase = .sampled sample) :
    (pod.record sample).Sound w := by
  have hfenced : Fenced (fenceWall sample.sampledAt sample.oldestXactStart) sample.token w := by
    have hsound := h.phase
    rw [hphase] at hsound
    exact hsound
  have hordered := h.ordered.record sample.token sample.epoch sample.committedAt
    (fenceWall sample.sampledAt sample.oldestXactStart)
  have hentries := h.retained hfenced sample.epoch sample.committedAt
  rw [Pod.record]
  split
  · rename_i heq
    rw [heq] at hordered hentries
    exact ⟨hordered, hentries, trivial⟩
  · rename_i heq
    rw [heq] at hordered hentries
    exact ⟨hordered, hentries, hfenced.cleared⟩

/-- What a step of a probe keeps. -/
theorem step (h : pod.Sound w) (hsound : w.Sound) (hstep : ProbeStep w pod e w' pod') :
    pod'.Sound w' ∧ w'.Sound ∧ Grows w w' := by
  have hsame : Grows w w := .refl w
  cases hstep with
  | readClock => exact ⟨h.move (le_refl w.clock), hsound, hsame⟩
  | @beginScan sampledAt hphase =>
    have hclocked := h.phase
    rw [hphase] at hclocked
    exact ⟨h.move (Scan.Sound.start hclocked), hsound, hsame⟩
  | @lookActive scan k tx hphase hk =>
    have hscan := h.phase
    rw [hphase] at hscan
    exact ⟨h.move (Scan.Sound.lookActive hscan hsound hk), hsound, hsame⟩
  | @lookPrepared scan k tx hphase hk =>
    have hscan := h.phase
    rw [hphase] at hscan
    exact ⟨h.move (Scan.Sound.lookPrepared hscan hk), hsound, hsame⟩
  | @commitToken scan token epoch committedAt hphase hcomplete hlast =>
    have hscan : scan.Sound w := by
      have hscan := h.phase
      rw [hphase] at hscan
      exact hscan
    have hgrows : Grows w (w.bump (token + 1) epoch) := .bump w (token + 1) epoch
    have hcleared := hscan.cleared hsound hcomplete
    exact ⟨(h.grows hgrows).move (hcleared.bump (token + 1) epoch), hsound.bump hlast epoch, hgrows⟩
  | record hphase => exact ⟨h.record hphase, hsound, hsame⟩
  | @rotate wall token epoch epoch' committedAt hphase hlast =>
    have hcleared : Cleared wall w := by
      have hcleared := h.phase
      rw [hphase] at hcleared
      exact hcleared
    have hgrows : Grows w (w.bump (token + 1) epoch') := .bump w (token + 1) epoch'
    exact ⟨(h.grows hgrows).move (hcleared.bump (token + 1) epoch'), hsound.bump hlast epoch',
      hgrows⟩
  | @recordRotated token epoch committedAt wall hphase =>
    have hfenced : Fenced wall token w := by
      have hfenced := h.phase
      rw [hphase] at hfenced
      exact hfenced
    exact ⟨⟨h.ordered.record token epoch committedAt wall, h.retained hfenced epoch committedAt,
      trivial⟩, hsound, hsame⟩
  | fail => exact ⟨⟨.close pod.fence, (fun _ h => by cases h), trivial⟩, hsound, hsame⟩

end Pod.Sound

structure Deployment.Sound (d : Deployment) : Prop where
  writer : d.writer.Sound
  pods : ∀ p, (d.pods p).Sound d.writer

namespace Deployment.Sound

theorem init (clock : Int) (epoch : Uuid) : (Deployment.init clock epoch).Sound where
  writer := ⟨(fun _ h => by cases h), (fun _ h => by cases h), List.pairwise_singleton _ _⟩
  pods _ := ⟨.new, (fun _ h => by cases h), trivial⟩

theorem step {d : Deployment} (h : d.Sound) (hstep : Step d e d') :
    d'.Sound ∧ Grows d.writer d'.writer := by
  cases hstep with
  | writer hwriter =>
    have hgrows := hwriter.grows
    exact ⟨⟨h.writer.step hwriter, fun p => (h.pods p).grows hgrows⟩, hgrows⟩
  | @probe p e w pod hprobe =>
    obtain ⟨hpod, hwriter, hgrows⟩ := (h.pods p).step h.writer hprobe
    refine ⟨⟨hwriter, fun q => ?_⟩, hgrows⟩
    dsimp only
    rw [Function.update_apply]
    split
    · exact hpod
    · exact (h.pods q).grows hgrows

theorem run {d : Deployment} (h : d.Sound) (hrun : Run Step d events d') : d'.Sound := by
  induction hrun with
  | nil => exact h
  | snoc _ hstep ih => exact (ih.step hstep).1

theorem fenced_run {d : Deployment} (h : d.Sound) (hfenced : Fenced wall token d.writer)
    (hrun : Run Step d events d') : Fenced wall token d'.writer ∧ d.writer.log <+: d'.writer.log := by
  induction hrun with
  | nil => exact ⟨hfenced, List.prefix_rfl⟩
  | snoc hrun hstep ih =>
    have hgrows := ((h.run hrun).step hstep).2
    obtain ⟨more, hlog, _⟩ := hgrows.log
    exact ⟨ih.1.grows hgrows, ih.2.trans ⟨more, hlog.symm⟩⟩

end Deployment.Sound

/-- A reader session that is given a proof has every channel row up to the wall, whenever the row
is committed. -/
theorem replica_fence_sound (hrun : Run Step (.init clock epoch₀) events d)
    (hlast : lastHeartbeat (d.writer.log.take n) = some (token, epoch))
    (hresolve : (d.pods p).fence.resolve token epoch = .proved entry)
    (hlater : Run Step d more d') {i : Nat} (hi : d'.writer.log[i]? = some (.rows rows))
    {row : WindowRow} (hrow : row ∈ rows) (hchannel : row.channelId.isSome)
    (hwall : row.createdAt ≤ entry.fenceWall) :
    (d.writer.log.take n)[i]? = some (.rows rows) := by
  have hsound := (Deployment.Sound.init clock epoch₀).run hrun
  have hpod := hsound.pods p
  obtain ⟨hentry, _, hle, _⟩ := ReplicaFence.resolve_proved hpod.ordered hresolve
  obtain ⟨hfenced, hprefix⟩ := hsound.fenced_run (hpod.entries entry hentry) hlater
  obtain ⟨k, epoch', hk, hafter⟩ := hfenced.after
  have hsnapshot : d.writer.log.take n <+: d'.writer.log := (List.take_prefix n _).trans hprefix
  rw [List.prefix_iff_eq_take] at hsnapshot
  have hreached : k < (d.writer.log.take n).length := by
    rw [hsnapshot] at hlast
    exact lt_of_lastHeartbeat (hsound.run hlater).writer.tokens hk hlast hle
  rcases Nat.lt_or_ge i (d.writer.log.take n).length with hlt | hge
  · rw [hsnapshot, List.getElem?_take_of_lt hlt]
    exact hi
  · have hlt := hafter i rows (Nat.lt_of_lt_of_le hreached hge) hi row hrow hchannel
    omega

theorem length_zeros : (List.replicate 32 (0 : Fin 16)).length = 32 :=
  rfl

def zeroUuid : Uuid :=
  ⟨List.replicate 32 0, length_zeros⟩

/-- A row that was committed before the probe. -/
def oldRow : WindowRow :=
  ⟨0, some zeroUuid, 0⟩

/-- A reader that has replayed the heartbeat of the first probe. -/
theorem replica_fence_sound_first : ∃ events d entry, Run Step (.init 0 zeroUuid) events d ∧
    lastHeartbeat (d.writer.log.take 3) = some (1, zeroUuid) ∧
    (d.pods 0).fence.resolve 1 zeroUuid = .proved entry ∧ oldRow.createdAt ≤ entry.fenceWall ∧
    (d.writer.log.take 3)[1]? = some (.rows [oldRow]) := by
  have hrun : ∃ events d, Run Step (.init 0 zeroUuid) events d ∧
      d.writer.log = [.heartbeat 0 zeroUuid, .rows [oldRow], .heartbeat 1 zeroUuid] ∧
      (d.pods 0).fence = ⟨some zeroUuid, [⟨1, 0, 1035 * SECOND⟩]⟩ := by
    refine ⟨_, _, ((((((((((Run.nil.snoc (.writer .start)).snoc
      (.writer (.insert (k := 0) rfl rfl))).snoc
      (.writer (.guard (k := 0) rfl rfl ?guard))).snoc
      (.writer (.commit (k := 0) rfl rfl))).snoc
      (.writer (.clock (t := 2000 * SECOND) ?clock))).snoc
      (.probe (p := 0) (.readClock rfl))).snoc
      (.probe (p := 0) (.beginScan rfl))).snoc
      (.probe (p := 0) (.lookActive (k := 0) rfl rfl))).snoc
      (.probe (p := 0) (.lookPrepared (k := 0) rfl rfl))).snoc
      (.probe (p := 0) (@ProbeStep.commitToken _ _ _ _ _ 0 rfl ?complete rfl))).snoc
      (.probe (p := 0) (.record rfl)), rfl, rfl⟩
    case guard =>
      intro row hrow
      cases List.mem_singleton.mp hrow
      decide
    case clock => decide
    case complete =>
      intro k hk
      cases Nat.lt_one_iff.mp hk
      exact ⟨List.mem_cons_self, List.mem_cons_self⟩
  obtain ⟨events, d, hrun, hlog, hfence⟩ := hrun
  have hlast : lastHeartbeat (d.writer.log.take 3) = some (1, zeroUuid) := by
    rw [hlog]
    rfl
  have hresolve : (d.pods 0).fence.resolve 1 zeroUuid = .proved ⟨1, 0, 1035 * SECOND⟩ := by
    rw [hfence]
    rfl
  have hwall : oldRow.createdAt ≤ 1035 * SECOND := by decide
  refine ⟨events, d, _, hrun, hlast, hresolve, hwall, ?_⟩
  apply replica_fence_sound hrun hlast hresolve .nil ?_ List.mem_cons_self rfl hwall
  rw [hlog]
  rfl

end Buzz.Fence
