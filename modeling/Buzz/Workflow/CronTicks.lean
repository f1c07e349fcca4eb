import Buzz.Workflow.Schedule

namespace Buzz.Workflow
set_option autoImplicit true

/-- Two instants of the schedule are a minute apart at least. -/
def MinuteGranularity (cron : Cron) (sched : cron.Schedule) : Prop :=
  ∀ i ∈ cron.instants sched, ∀ j ∈ cron.instants sched, i < j → i + 60 * SECOND ≤ j

/-- The loop sleeps for a minute, and its own work takes up to a second. -/
def TickPeriod (t t' : Int) : Prop :=
  t + 60 * SECOND ≤ t' ∧ t' ≤ t + 61 * SECOND

/-- No instant of the schedule lies between a tick and the window of the next one. -/
def NoneInGap (cron : Cron) (sched : cron.Schedule) (t t' : Int) : Prop :=
  ∀ i ∈ cron.instants sched, t < i → t' - 60 * SECOND < i

/-- Each instant after the first tick, up to the last one, is the one that some tick fires for. -/
def NoneSkipped (cron : Cron) (expr : String) (sched : cron.Schedule) (ticks : List Int) : Prop :=
  ∀ i ∈ cron.instants sched, ∀ first ∈ ticks.head?, ∀ last ∈ ticks.getLast?,
    first < i → i ≤ last → ∃ t ∈ ticks, cronFireInstant cron expr t 60 = some i

section Ticks

variable {cron : Cron} {sched : cron.Schedule}

/-- The window of a tick has one instant of the schedule at most, and the tick fires for it. -/
theorem cronFireInstant_eq_some_iff (hlaw : cron.Lawful)
    (hparse : cron.parse (normalizeCron expr) = .ok sched) (hgran : MinuteGranularity cron sched)
    (hi : i ∈ cron.instants sched) :
    cronFireInstant cron expr now 60 = some i ↔ now - 60 * SECOND < i ∧ i ≤ now := by
  rw [cronFireInstant, hparse]
  dsimp only
  rw [Option.filter_eq_some_iff, decide_eq_true_iff]
  constructor
  · rintro ⟨hnext, hle⟩
    exact ⟨(hlaw.next_some hnext).1.2, hle⟩
  · rintro ⟨hlt, hle⟩
    refine ⟨?_, hle⟩
    cases hnext : cron.next sched (now - 60 * SECOND) with
    | none =>
      have hbefore := hlaw.next_none hnext i hi
      omega
    | some j =>
      obtain ⟨⟨hj, hjlt⟩, hleast⟩ := hlaw.next_some hnext
      rcases (hleast ⟨hi, hlt⟩).lt_or_eq with hji | rfl
      · have hapart := hgran j hj i hi hji
        omega
      · rfl

theorem tickPeriod_le (h : TickPeriod t t') : t ≤ t' := by
  rw [TickPeriod, SECOND] at h
  omega

theorem head_le_of_mem (h : (t :: ticks).IsChain TickPeriod) (hx : x ∈ t :: ticks) : t ≤ x := by
  have hpairwise := (h.imp fun _ _ => tickPeriod_le).pairwise
  rcases List.mem_cons.mp hx with rfl | hx
  · exact le_refl x
  · exact List.rel_of_pairwise_cons hpairwise hx

/-- The first gap and the gaps after it. -/
theorem noneSkipped_cons_cons (hlaw : cron.Lawful)
    (hparse : cron.parse (normalizeCron expr) = .ok sched) (hgran : MinuteGranularity cron sched)
    (hticks : (t :: t' :: ticks).IsChain TickPeriod) :
    NoneSkipped cron expr sched (t :: t' :: ticks) ↔
      NoneInGap cron sched t t' ∧ NoneSkipped cron expr sched (t' :: ticks) := by
  obtain ⟨hperiod, hrest⟩ := List.isChain_cons_cons.mp hticks
  have hlastMem : ∀ last ∈ (t' :: ticks).getLast?, last ∈ t' :: ticks :=
    fun last hlast => List.mem_of_getLast? hlast
  constructor
  · intro h
    refine ⟨?_, ?_⟩
    · intro i hi hlt
      by_contra hgap
      obtain ⟨last, hlast⟩ : ∃ last, (t' :: ticks).getLast? = some last :=
        ⟨_, List.getLast?_eq_some_getLast (List.cons_ne_nil _ _)⟩
      have hle := head_le_of_mem hrest (hlastMem last hlast)
      obtain ⟨x, hx, hfire⟩ := h i hi t rfl last (by rw [List.getLast?_cons_cons, hlast]; rfl) hlt
        (by rw [SECOND] at hgap; omega)
      rw [cronFireInstant_eq_some_iff hlaw hparse hgran hi] at hfire
      rcases List.mem_cons.mp hx with rfl | hx
      · omega
      · have hxle := head_le_of_mem hrest hx
        omega
    · intro i hi first hfirst last hlast hlt hle
      cases Option.mem_some.mp hfirst
      have htt' := tickPeriod_le hperiod
      obtain ⟨x, hx, hfire⟩ := h i hi t rfl last (by rw [List.getLast?_cons_cons]; exact hlast)
        (by omega) hle
      rcases List.mem_cons.mp hx with rfl | hx
      · rw [cronFireInstant_eq_some_iff hlaw hparse hgran hi] at hfire
        omega
      · exact ⟨x, hx, hfire⟩
  · rintro ⟨hgap, h⟩ i hi first hfirst last hlast hlt hle
    cases Option.mem_some.mp hfirst
    rw [List.getLast?_cons_cons] at hlast
    rcases lt_or_ge t' i with ht' | ht'
    · obtain ⟨x, hx, hfire⟩ := h i hi t' rfl last hlast ht' hle
      exact ⟨x, List.mem_cons_of_mem _ hx, hfire⟩
    · refine ⟨t', List.mem_cons_of_mem _ List.mem_cons_self, ?_⟩
      rw [cronFireInstant_eq_some_iff hlaw hparse hgran hi]
      exact ⟨hgap i hi hlt, ht'⟩

end Ticks

/-- The ticks skip no instant exactly when none falls in the time that a tick comes late. -/
theorem cron_skips_none_iff {cron : Cron} (hlaw : cron.Lawful)
    (hvalid : validateCron cron expr = .ok ()) :
    ∃ sched, cron.parse (normalizeCron expr) = .ok sched ∧ (MinuteGranularity cron sched →
      ∀ ticks : List Int, ticks.IsChain TickPeriod →
        (NoneSkipped cron expr sched ticks ↔ ticks.IsChain (NoneInGap cron sched))) := by
  obtain ⟨sched, hparse⟩ := validateCron_ok hvalid
  refine ⟨sched, hparse, fun hgran ticks hticks => ?_⟩
  induction ticks with
  | nil =>
    refine ⟨fun _ => List.IsChain.nil, ?_⟩
    intro _ i hi first hfirst
    cases hfirst
  | cons t ticks ih =>
    cases ticks with
    | nil =>
      refine ⟨fun _ => List.IsChain.singleton t, ?_⟩
      intro _ i hi first hfirst last hlast hlt hle
      cases Option.mem_some.mp hfirst
      have hlast : t = last := Option.some.inj hlast
      omega
    | cons t' ticks =>
      rw [noneSkipped_cons_cons hlaw hparse hgran hticks, List.isChain_cons_cons,
        ih (List.isChain_cons_cons.mp hticks).2]

/-- The library on the schedule of every minute. -/
def everyMinute : Cron where
  Schedule := Unit
  parse s := if s = "0 * * * * * *" then .ok () else .error "Invalid cron expression."
  instants _ := {i | i % (60 * SECOND) = 0}
  next _ t := some (t / (60 * SECOND) * (60 * SECOND) + 60 * SECOND)

theorem everyMinute_lawful : everyMinute.Lawful where
  next_some := by
    intro _ t i h
    have hi : t / (60 * SECOND) * (60 * SECOND) + 60 * SECOND = i := Option.some.inj h
    rw [SECOND] at hi
    refine ⟨⟨?_, ?_⟩, ?_⟩
    · show i % (60 * 1000000000) = 0
      omega
    · omega
    · rintro j ⟨hj, hlt⟩
      have hj : j % (60 * 1000000000) = 0 := hj
      omega
  next_none h := by cases h

theorem everyMinute_granularity : MinuteGranularity everyMinute () := by
  intro i hi j hj hlt
  have hi : i % (60 * SECOND) = 0 := hi
  have hj : j % (60 * SECOND) = 0 := hj
  rw [SECOND] at *
  omega

theorem everyMinute_parse : everyMinute.parse (normalizeCron "* * * * *") = .ok () := by
  have hfields : normalizeCron "* * * * *" = "0 * * * * * *" := by decide
  rw [hfields]
  rfl

theorem everyMinute_valid : validateCron everyMinute "* * * * *" = .ok () := by
  rw [validateCron, everyMinute_parse]

/-- Two ticks on the minute. -/
theorem cron_skips_none_iff_onTime : ∃ sched,
    everyMinute.parse (normalizeCron "* * * * *") = .ok sched ∧
    NoneSkipped everyMinute "* * * * *" sched [0, 60 * SECOND] := by
  obtain ⟨sched, hparse, h⟩ := cron_skips_none_iff everyMinute_lawful everyMinute_valid
  refine ⟨sched, hparse, (h everyMinute_granularity _ ?ticks).mpr ?gap⟩
  case ticks =>
    refine List.isChain_cons_cons.mpr ⟨?_, .singleton _⟩
    rw [TickPeriod, SECOND]
    omega
  case gap =>
    refine List.isChain_cons_cons.mpr ⟨?_, .singleton _⟩
    intro i _ hlt
    omega

/-- Ticks that are half a second late over a minute skip the instant of that minute. -/
theorem cron_skips_late_minute : everyMinute.Lawful ∧
    validateCron everyMinute "* * * * *" = .ok () ∧ MinuteGranularity everyMinute () ∧
    [59900000000, 120400000000].IsChain TickPeriod ∧
    ¬ NoneSkipped everyMinute "* * * * *" () [59900000000, 120400000000] := by
  refine ⟨everyMinute_lawful, everyMinute_valid, everyMinute_granularity, ?_, ?_⟩
  · refine List.isChain_cons_cons.mpr ⟨?_, .singleton _⟩
    rw [TickPeriod, SECOND]
    omega
  · intro h
    have hminute : 60 * SECOND ∈ everyMinute.instants () := by
      show (60 * SECOND) % (60 * SECOND) = 0
      exact Int.emod_self
    obtain ⟨t, ht, hfire⟩ := h (60 * SECOND) hminute _ rfl _ rfl (by decide) (by decide)
    rw [cronFireInstant_eq_some_iff everyMinute_lawful everyMinute_parse everyMinute_granularity
      hminute] at hfire
    rw [SECOND] at hfire
    rcases List.mem_pair.mp ht with rfl | rfl
    · omega
    · omega

end Buzz.Workflow
