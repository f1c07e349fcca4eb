import Buzz.Agent.TurnFrame
import Buzz.Lib.ListAt

namespace Buzz.Agent
set_option autoImplicit true

namespace Tally

/-- How far a count is: what was not seen is first, and what is lost is last. -/
def rank : Tally → WithBot (WithTop Nat)
  | unseen => ⊥
  | exact n => ((n.toNat : WithTop Nat) : WithBot (WithTop Nat))
  | unknown => ⊤

theorem le_unknown (t : Tally) : t.rank ≤ unknown.rank :=
  le_top

theorem rank_exact_le {m n : UInt64} : (exact m).rank ≤ (exact n).rank ↔ m ≤ n := by
  rw [rank, rank, WithBot.coe_le_coe, Nat.cast_le, UInt64.le_iff_toNat_le]

theorem le_checkedExactSum (acc n : UInt64) : (exact acc).rank ≤ (checkedExactSum acc n).rank := by
  rw [checkedExactSum]
  split
  · rename_i h
    rw [rank_exact_le, UInt64.le_iff_toNat_le, UInt64.toNat_add, Nat.mod_eq_of_lt h]
    exact Nat.le_add_right _ _
  · exact le_unknown _

theorem checkedExactSum_mono {acc m n : UInt64} (h : m ≤ n) :
    (checkedExactSum acc m).rank ≤ (checkedExactSum acc n).rank := by
  have hle := UInt64.le_iff_toNat_le.mp h
  rw [checkedExactSum, checkedExactSum]
  by_cases hn : acc.toNat + n.toNat < UInt64.size
  · have hm : acc.toNat + m.toNat < UInt64.size := lt_of_le_of_lt (Nat.add_le_add_left hle _) hn
    rw [if_pos hm, if_pos hn, rank_exact_le, UInt64.le_iff_toNat_le, UInt64.toNat_add,
      UInt64.toNat_add, Nat.mod_eq_of_lt hm, Nat.mod_eq_of_lt hn]
    exact Nat.add_le_add_left hle _
  · rw [if_neg hn]
    exact le_unknown _

theorem le_add (t : Tally) (n : UInt64) : t.rank ≤ (t.add n).rank := by
  cases t with
  | unseen => exact bot_le
  | exact acc => exact le_checkedExactSum acc n
  | unknown => exact le_refl _

@[simp]
theorem mergeSession_unseen (t : Tally) : t.mergeSession unseen = t := by
  cases t with
  | unseen => rfl
  | exact acc => rfl
  | unknown => rfl

theorem mergeSession_unknown (t : Tally) : t.mergeSession unknown = unknown := by
  cases t with
  | unseen => rfl
  | exact acc => rfl
  | unknown => rfl

/-- What is merged in does not set a count back. -/
theorem mergeSession_mono {t u : Tally} (acc : Tally) (h : t.rank ≤ u.rank) :
    (acc.mergeSession t).rank ≤ (acc.mergeSession u).rank := by
  cases u with
  | unknown =>
    rw [mergeSession_unknown]
    exact le_unknown _
  | unseen =>
    cases t with
    | unseen => exact le_refl _
    | exact m => exact absurd h (not_le.mpr (WithBot.bot_lt_coe _))
    | unknown => exact absurd h (not_le.mpr (WithBot.bot_lt_coe _))
  | exact n =>
    cases t with
    | unknown => exact absurd h (not_le.mpr (WithBot.coe_lt_coe.mpr (WithTop.coe_lt_top _)))
    | unseen =>
      rw [mergeSession_unseen]
      cases acc with
      | unseen => exact bot_le
      | exact acc => exact le_checkedExactSum acc n
      | unknown => exact le_refl _
    | exact m =>
      cases acc with
      | unseen => exact h
      | exact acc => exact checkedExactSum_mono (rank_exact_le.mp h)
      | unknown => exact le_refl _

/-- What a report tells of later counts. -/
theorem exactValue_le {t u : Tally} (h : t.rank ≤ u.rank) (ht : t.exactValue = some m)
    (hu : u.exactValue = some n) : m ≤ n := by
  cases t with
  | exact m' =>
    cases u with
    | exact n' =>
      cases ht
      cases hu
      exact rank_exact_le.mp h
    | unseen => cases hu
    | unknown => cases hu
  | unseen => cases ht
  | unknown => cases ht

/-- A count that was told and is not any more is lost. -/
theorem exactValue_lost {t u v : Tally} (h : t.rank ≤ u.rank) (h' : u.rank ≤ v.rank)
    (ht : t.exactValue = some m) (hu : u.exactValue = none) : v.exactValue = none := by
  cases t with
  | exact m' =>
    cases u with
    | exact n' => cases hu
    | unseen => exact absurd h (not_le.mpr (WithBot.bot_lt_coe _))
    | unknown =>
      cases v with
      | exact n' => exact absurd h' (not_le.mpr (WithBot.coe_lt_coe.mpr (WithTop.coe_lt_top _)))
      | unseen => rfl
      | unknown => rfl
  | unseen => cases ht
  | unknown => cases ht

end Tally

/-- Counts that are told do not go down, and one that is not told any more is not told again. -/
def NonDecreasing (reports : List (Option UInt64)) : Prop :=
  (∀ (i j : Nat) (m n : UInt64), i < j → reports[i]? = some (some m) → reports[j]? = some (some n) → m ≤ n) ∧
    ∀ (i j k : Nat) (m : UInt64), i < j → j < k → reports[i]? = some (some m) → reports[j]? = some none →
      ∀ report, reports[k]? = some report → report = none

/-- Reports of counts that do not go back. -/
theorem nonDecreasing_of_pairwise {counts : List Tally}
    (h : counts.Pairwise fun t u => t.rank ≤ u.rank) :
    NonDecreasing (counts.map Tally.exactValue) := by
  have hle : ∀ (i j : Nat) (t u : Tally), i < j → counts[i]? = some t → counts[j]? = some u → t.rank ≤ u.rank := by
    intro i j t u hij ht hu
    obtain ⟨hi, rfl⟩ := List.getElem?_eq_some_iff.mp ht
    obtain ⟨hj, rfl⟩ := List.getElem?_eq_some_iff.mp hu
    exact List.pairwise_iff_getElem.mp h i j hi hj hij
  refine ⟨?_, ?_⟩
  · intro i j m n hij hm hn
    rw [List.getElem?_map] at hm hn
    obtain ⟨t, ht, hm⟩ := Option.map_eq_some_iff.mp hm
    obtain ⟨u, hu, hn⟩ := Option.map_eq_some_iff.mp hn
    exact Tally.exactValue_le (hle i j t u hij ht hu) hm hn
  · intro i j k m hij hjk hm hn report hk
    rw [List.getElem?_map] at hm hn hk
    obtain ⟨t, ht, hm⟩ := Option.map_eq_some_iff.mp hm
    obtain ⟨u, hu, hn⟩ := Option.map_eq_some_iff.mp hn
    obtain ⟨v, hv, rfl⟩ := Option.map_eq_some_iff.mp hk
    exact Tally.exactValue_lost (hle i j t u hij ht hu) (hle j k u v hjk hu hv) hm hn

namespace SessionUsageBaseline

/-- The counts of input and output do not go back. -/
def Le (u v : SessionUsageBaseline) : Prop :=
  u.inputTokens.rank ≤ v.inputTokens.rank ∧ u.outputTokens.rank ≤ v.outputTokens.rank

theorem Le.refl (u : SessionUsageBaseline) : Le u u :=
  ⟨le_refl _, le_refl _⟩

theorem Le.trans {u v w : SessionUsageBaseline} (h : Le u v) (h' : Le v w) : Le u w :=
  ⟨h.1.trans h'.1, h.2.trans h'.2⟩

@[simp]
theorem mergeSession_unseen (u : SessionUsageBaseline) : u.mergeSession unseen = u := by
  rw [mergeSession, unseen]
  simp only [Tally.mergeSession_unseen]

theorem mergeSession_mono {u v : SessionUsageBaseline} (acc : SessionUsageBaseline) (h : Le u v) :
    Le (acc.mergeSession u) (acc.mergeSession v) :=
  ⟨Tally.mergeSession_mono _ h.1, Tally.mergeSession_mono _ h.2⟩

end SessionUsageBaseline

/-- The usage of turns, merged in their order. -/
def totalUsage (usages : List SessionUsageBaseline) : SessionUsageBaseline :=
  usages.foldl SessionUsageBaseline.mergeSession .unseen

theorem totalUsage_snoc (usages : List SessionUsageBaseline) (u : SessionUsageBaseline) :
    totalUsage (usages ++ [u]) = (totalUsage usages).mergeSession u := by
  rw [totalUsage, List.foldl_append]
  rfl

/-- What a prompt is to the usage of its session. -/
structure Account where
  stage : Stage
  usage : SessionUsageBaseline
  baseline : SessionUsageBaseline

/-- The usage that has been merged into the session. -/
def Account.merged (a : Account) : SessionUsageBaseline :=
  match a.stage with
  | .running => .unseen
  | .released => .unseen
  | .merged _ => a.usage
  | .finished => a.usage

structure Ledger where
  accounts : List Account
  accumulated : SessionUsageBaseline
  busy : Bool
  wire : List UsageUpdate

def Task.account (task : Task) : Account :=
  ⟨task.stage, task.turn.usage, task.turn.usageBaseline⟩

def System.ledger (s : System) : Ledger :=
  ⟨s.tasks.map Task.account, s.session.accumulated, s.session.busy, s.wire⟩

namespace Ledger

/-- The usage of all turns, as far as they are. -/
def total (l : Ledger) : SessionUsageBaseline :=
  totalUsage (l.accounts.map Account.usage)

/-- An update that tells the counts. -/
def Tells (update : UsageUpdate) (usage : SessionUsageBaseline) : Prop :=
  update.accumulatedInputTokens = usage.inputTokens.exactValue ∧
    update.accumulatedOutputTokens = usage.outputTokens.exactValue

/-- What was reported has not gone back, nor beyond what is used. -/
def Reported (wire : List UsageUpdate) (usage : SessionUsageBaseline) : Prop :=
  ∃ counts, List.Forall₂ Tells wire counts ∧ counts.Pairwise SessionUsageBaseline.Le ∧
    ∀ u ∈ counts, SessionUsageBaseline.Le u usage

theorem Reported.mono (h : Reported updates u) (hle : SessionUsageBaseline.Le u v) :
    Reported updates v := by
  obtain ⟨counts, htells, hpair, hcounts⟩ := h
  exact ⟨counts, htells, hpair, fun w hw => (hcounts w hw).trans hle⟩

theorem Reported.snoc (h : Reported updates u) (htells : Tells update u) :
    Reported (updates ++ [update]) u := by
  obtain ⟨counts, hwire, hpair, hcounts⟩ := h
  refine ⟨counts ++ [u], List.rel_append hwire (.cons htells .nil), ?_, ?_⟩
  · apply List.pairwise_append.mpr
    refine ⟨hpair, List.pairwise_singleton _ _, ?_⟩
    intro v hv w hw
    rw [List.mem_singleton] at hw
    rw [hw]
    exact hcounts v hv
  · intro v hv
    rcases List.mem_append.mp hv with hv | hv
    · exact hcounts v hv
    · rw [List.mem_singleton] at hv
      rw [hv]
      exact .refl u

/-- The last turn is the only one whose usage is not yet merged, and what was reported has not
gone beyond what was used. -/
structure Sound (l : Ledger) : Prop where
  seen : ∀ a ∈ l.accounts, a.usage.seen = false → a.usage = .unseen
  running : ∀ k a, l.accounts[k]? = some a → a.stage = .running →
    k + 1 = l.accounts.length ∧ l.busy = true
  released : ∀ k a, l.accounts[k]? = some a → a.stage = .released → a.usage.seen = true →
    k + 1 = l.accounts.length
  accumulated : l.accumulated = totalUsage (l.accounts.map Account.merged)
  baseline : ∀ k a, l.accounts[k]? = some a →
    a.baseline = totalUsage ((l.accounts.take k).map Account.usage)
  unsent : ∀ a ∈ l.accounts, ∀ update, a.stage = .merged update → Tells update l.total
  reported : Reported l.wire l.total

variable {l : Ledger} {a : Account} {k : Nat}

theorem Sound.init : Sound ⟨[], .unseen, false, []⟩ where
  seen _ h := by cases h
  running _ _ h := by cases h
  released _ _ h := by cases h
  accumulated := rfl
  baseline _ _ h := by cases h
  unsent _ h := by cases h
  reported := ⟨[], .nil, .nil, fun _ h => by cases h⟩

/-- The usage of a turn that is through is merged, where it has any. -/
theorem Sound.merged_eq (h : Sound l) (hmem : a ∈ l.accounts) (hrunning : a.stage ≠ .running)
    (hreleased : a.stage = .released → a.usage.seen = false) : a.merged = a.usage := by
  rw [Account.merged]
  cases hstage : a.stage with
  | running => exact absurd hstage hrunning
  | released => exact (h.seen a hmem (hreleased hstage)).symm
  | merged update => rfl
  | finished => rfl

/-- While nothing waits for its merge, the session has the usage of all turns. -/
theorem Sound.accumulated_eq (h : Sound l) (hbusy : l.busy = false)
    (hreleased : ∀ a ∈ l.accounts, a.stage = .released → a.usage.seen = false) :
    l.accumulated = l.total := by
  rw [h.accumulated, total]
  congr 1
  apply List.map_congr_left
  intro a ha
  apply h.merged_eq ha _ (hreleased a ha)
  intro hstage
  obtain ⟨k, hk⟩ := List.mem_iff_getElem?.mp ha
  have hbusy' := (h.running k a hk hstage).2
  rw [hbusy] at hbusy'
  cases hbusy'

/-- A prompt is accepted while no turn has usage that is not merged. -/
theorem Sound.accept (h : Sound l) (hbusy : l.busy = false)
    (hreleased : ∀ a ∈ l.accounts, a.stage = .released → a.usage.seen = false) :
    Sound ⟨l.accounts ++ [⟨.running, .unseen, l.accumulated⟩], l.accumulated, true, l.wire⟩ := by
  have htotal : total ⟨l.accounts ++ [⟨.running, .unseen, l.accumulated⟩], l.accumulated, true,
      l.wire⟩ = l.total := by
    rw [total, List.map_append, List.map_singleton, totalUsage_snoc,
      SessionUsageBaseline.mergeSession_unseen, total]
  constructor
  case seen =>
    intro a ha hseen
    rcases List.mem_append.mp ha with ha | ha
    · exact h.seen a ha hseen
    · rw [List.mem_singleton] at ha
      rw [ha]
  case running =>
    intro k a ha hstage
    rcases ListAt.getElem?_snoc ha with ha | ⟨rfl, rfl⟩
    · have hbusy' := (h.running k a ha hstage).2
      rw [hbusy] at hbusy'
      cases hbusy'
    · exact ⟨by rw [List.length_append, List.length_singleton], rfl⟩
  case released =>
    intro k a ha hstage hseen
    rcases ListAt.getElem?_snoc ha with ha | ⟨rfl, rfl⟩
    · rw [hreleased a (List.mem_of_getElem? ha) hstage] at hseen
      cases hseen
    · cases hstage
  case accumulated =>
    rw [List.map_append, List.map_singleton, totalUsage_snoc, ← h.accumulated]
    exact (SessionUsageBaseline.mergeSession_unseen _).symm
  case baseline =>
    intro k a ha
    rcases ListAt.getElem?_snoc ha with ha | ⟨rfl, rfl⟩
    · have hk := (List.getElem?_eq_some_iff.mp ha).1
      dsimp only
      rw [List.take_append_of_le_length hk.le]
      exact h.baseline k a ha
    · dsimp only
      rw [List.take_left, h.accumulated_eq hbusy hreleased, total]
  case unsent =>
    intro a ha update hstage
    rw [htotal]
    rcases List.mem_append.mp ha with ha | ha
    · exact h.unsent a ha update hstage
    · rw [List.mem_singleton] at ha
      rw [ha] at hstage
      cases hstage
  case reported =>
    rw [htotal]
    exact h.reported

/-- An update of what is used goes out. -/
theorem Sound.sent (h : Sound l) (htells : Tells update l.total) :
    Sound { l with wire := l.wire ++ [update] } :=
  { h with reported := h.reported.snoc htells }

/-- A turn goes on to its next stage. -/
theorem Sound.restage (h : Sound l) (hk : l.accounts[k]? = some a)
    (hmerged : ({ a with stage } : Account).merged = a.merged) (hstage : stage ≠ .running)
    (hreleased : stage = .released → k + 1 = l.accounts.length)
    (hunsent : ∀ update, stage ≠ .merged update)
    (hbusy : ∀ j b, j ≠ k → l.accounts[j]? = some b → b.stage = .running → held = true) :
    Sound { l with accounts := l.accounts.set k { a with stage }, busy := held } := by
  have husage : (l.accounts.set k { a with stage }).map Account.usage =
      l.accounts.map Account.usage :=
    ListAt.map_set hk rfl
  have htotal : total { l with accounts := l.accounts.set k { a with stage }, busy := held } =
      l.total :=
    congrArg totalUsage husage
  have hmem := List.mem_of_getElem? hk
  constructor
  case seen =>
    intro b hb hseen
    rcases List.mem_or_eq_of_mem_set hb with hb | rfl
    · exact h.seen b hb hseen
    · exact h.seen a hmem hseen
  case running =>
    intro j b hb hrunning
    rcases ListAt.getElem?_set hb with ⟨rfl, rfl⟩ | ⟨hj, hb⟩
    · exact absurd hrunning hstage
    · refine ⟨?_, hbusy j b hj hb hrunning⟩
      rw [List.length_set]
      exact (h.running j b hb hrunning).1
  case released =>
    intro j b hb hstage' hseen
    rw [List.length_set]
    rcases ListAt.getElem?_set hb with ⟨rfl, rfl⟩ | ⟨hj, hb⟩
    · exact hreleased hstage'
    · exact h.released j b hb hstage' hseen
  case accumulated =>
    dsimp only
    rw [ListAt.map_set hk hmerged]
    exact h.accumulated
  case baseline =>
    intro j b hb
    dsimp only
    rw [List.map_take, husage, ← List.map_take]
    rcases ListAt.getElem?_set hb with ⟨rfl, rfl⟩ | ⟨hj, hb⟩
    · exact h.baseline _ a hk
    · exact h.baseline j b hb
  case unsent =>
    intro b hb update hstage'
    rw [htotal]
    rcases List.mem_or_eq_of_mem_set hb with hb | rfl
    · exact h.unsent b hb update hstage'
    · exact absurd hstage' (hunsent update)
  case reported =>
    rw [htotal]
    exact h.reported

/-- The turn that is running is the last. -/
theorem Sound.last (h : Sound l) (hk : l.accounts[k]? = some a)
    (hlast : k + 1 = l.accounts.length) : ∃ before, l.accounts = before ++ [a] ∧
      k = before.length ∧ a.baseline = totalUsage (before.map Account.usage) := by
  obtain ⟨hlt, ha⟩ := List.getElem?_eq_some_iff.mp hk
  have hsplit := List.take_append_getElem hlt
  rw [ha, hlast, List.take_length] at hsplit
  refine ⟨l.accounts.take k, hsplit.symm, ?_, h.baseline k a hk⟩
  rw [List.length_take, min_eq_left hlt.le]

/-- The running turn has used more, and says so. -/
theorem Sound.used (h : Sound l) (hk : l.accounts[k]? = some a) (hstage : a.stage = .running)
    (hseen : usage.seen = true) (hle : SessionUsageBaseline.Le a.usage usage)
    (hnone : ∀ b ∈ l.accounts, ∀ update, b.stage ≠ .merged update)
    (htells : Tells update (a.baseline.mergeSession usage)) :
    Sound { l with
      accounts := l.accounts.set k { a with usage }, wire := l.wire ++ [update] } := by
  obtain ⟨before, haccounts, hlen, hbaseline⟩ := h.last hk (h.running k a hk hstage).1
  have hset : l.accounts.set k { a with usage } = before ++ [{ a with usage }] := by
    rw [haccounts, hlen, List.set_append_right _ _ (le_refl _), Nat.sub_self]
    rfl
  have hold : l.total = a.baseline.mergeSession a.usage := by
    rw [total, haccounts, List.map_append, List.map_singleton, totalUsage_snoc, hbaseline]
  have hnew : total { l with accounts := l.accounts.set k { a with usage } } =
      a.baseline.mergeSession usage := by
    rw [total, hset, List.map_append, List.map_singleton, totalUsage_snoc, hbaseline]
  apply Sound.sent (l := { l with accounts := l.accounts.set k { a with usage } }) _ (by rwa [hnew])
  constructor
  case seen =>
    intro b hb hseen'
    rcases List.mem_or_eq_of_mem_set hb with hb | rfl
    · exact h.seen b hb hseen'
    · rw [hseen] at hseen'
      cases hseen'
  case running =>
    intro j b hb hrunning
    rw [List.length_set]
    rcases ListAt.getElem?_set hb with ⟨rfl, rfl⟩ | ⟨hj, hb⟩
    · exact h.running _ a hk hstage
    · exact h.running j b hb hrunning
  case released =>
    intro j b hb hstage' hseen'
    rw [List.length_set]
    rcases ListAt.getElem?_set hb with ⟨rfl, rfl⟩ | ⟨hj, hb⟩
    · rw [hstage] at hstage'
      cases hstage'
    · exact h.released j b hb hstage' hseen'
  case accumulated =>
    dsimp only
    rw [ListAt.map_set (f := Account.merged) hk (by rw [Account.merged, Account.merged, hstage])]
    exact h.accumulated
  case baseline =>
    intro j b hb
    have hj := (List.getElem?_eq_some_iff.mp hb).1
    rw [List.length_set, ← (h.running k a hk hstage).1] at hj
    dsimp only
    rw [List.take_set_of_le (Nat.le_of_lt_succ hj)]
    rcases ListAt.getElem?_set hb with ⟨rfl, rfl⟩ | ⟨_, hb⟩
    · exact h.baseline _ a hk
    · exact h.baseline j b hb
  case unsent =>
    intro b hb update' hstage'
    rcases List.mem_or_eq_of_mem_set hb with hb | rfl
    · exact absurd hstage' (hnone b hb update')
    · rw [hstage] at hstage'
      cases hstage'
  case reported =>
    rw [hnew]
    apply h.reported.mono
    rw [hold]
    exact SessionUsageBaseline.mergeSession_mono _ hle

/-- What a turn starts from is what the session has until the turn's own usage is merged. -/
theorem Sound.accumulated_before (h : Sound l) (hk : l.accounts[k]? = some a)
    (hstage : a.stage = .released) (hseen : a.usage.seen = true) :
    l.accumulated = a.baseline := by
  obtain ⟨before, haccounts, hlen, hbaseline⟩ := h.last hk (h.released k a hk hstage hseen)
  have hunmerged : a.merged = .unseen := by rw [Account.merged, hstage]
  have hmerged : before.map Account.merged = before.map Account.usage := by
    apply List.map_congr_left
    intro b hb
    obtain ⟨j, hj⟩ := List.mem_iff_getElem?.mp hb
    have hlt := (List.getElem?_eq_some_iff.mp hj).1
    have hget : l.accounts[j]? = some b := by
      rw [haccounts, List.getElem?_append_left hlt, hj]
    have hnotLast : j + 1 ≠ l.accounts.length := by
      rw [haccounts, List.length_append, List.length_singleton]
      omega
    apply h.merged_eq (List.mem_of_getElem? hget)
    · intro hrunning
      exact hnotLast (h.running j b hget hrunning).1
    · intro hreleased
      by_contra hb'
      exact hnotLast (h.released j b hget hreleased (by simpa using hb'))
  rw [h.accumulated, haccounts, List.map_append, List.map_singleton, totalUsage_snoc, hunmerged,
    SessionUsageBaseline.mergeSession_unseen, hmerged, hbaseline]

/-- A turn's usage is merged into the session. -/
theorem Sound.merge (h : Sound l) (hk : l.accounts[k]? = some a) (hstage : a.stage = .released)
    (hseen : a.usage.seen = true) (htells : Tells update (l.accumulated.mergeSession a.usage)) :
    Sound { l with
      accounts := l.accounts.set k { a with stage := .merged update }
      accumulated := l.accumulated.mergeSession a.usage } := by
  have hlast := h.released k a hk hstage hseen
  have hbefore := h.accumulated_before hk hstage hseen
  obtain ⟨before, haccounts, hlen, hbaseline⟩ := h.last hk hlast
  have husage : (l.accounts.set k { a with stage := .merged update }).map Account.usage =
      l.accounts.map Account.usage :=
    ListAt.map_set hk rfl
  have hset : l.accounts.set k { a with stage := .merged update } =
      before ++ [{ a with stage := .merged update }] := by
    rw [haccounts, hlen, List.set_append_right _ _ (le_refl _), Nat.sub_self]
    rfl
  have htotal : l.total = l.accumulated.mergeSession a.usage := by
    rw [total, haccounts, List.map_append, List.map_singleton, totalUsage_snoc, hbefore, hbaseline]
  have hnew : total { l with
      accounts := l.accounts.set k { a with stage := .merged update }
      accumulated := l.accumulated.mergeSession a.usage } = l.total :=
    congrArg totalUsage husage
  have hmem := List.mem_of_getElem? hk
  constructor
  case seen =>
    intro b hb hseen'
    rcases List.mem_or_eq_of_mem_set hb with hb | rfl
    · exact h.seen b hb hseen'
    · exact h.seen a hmem hseen'
  case running =>
    intro j b hb hrunning
    rw [List.length_set]
    rcases ListAt.getElem?_set hb with ⟨rfl, rfl⟩ | ⟨hj, hb⟩
    · cases hrunning
    · exact h.running j b hb hrunning
  case released =>
    intro j b hb hreleased hseen'
    rw [List.length_set]
    rcases ListAt.getElem?_set hb with ⟨rfl, rfl⟩ | ⟨hj, hb⟩
    · cases hreleased
    · exact h.released j b hb hreleased hseen'
  case accumulated =>
    have hunmerged : a.merged = .unseen := by rw [Account.merged, hstage]
    have haccumulated := h.accumulated
    rw [haccounts, List.map_append, List.map_singleton, totalUsage_snoc, hunmerged,
      SessionUsageBaseline.mergeSession_unseen] at haccumulated
    dsimp only
    rw [hset, List.map_append, List.map_singleton, totalUsage_snoc, ← haccumulated]
    rfl
  case baseline =>
    intro j b hb
    dsimp only
    rw [List.map_take, husage, ← List.map_take]
    rcases ListAt.getElem?_set hb with ⟨rfl, rfl⟩ | ⟨hj, hb⟩
    · exact h.baseline _ a hk
    · exact h.baseline j b hb
  case unsent =>
    intro b hb update' hstage'
    rw [hnew]
    rcases List.mem_or_eq_of_mem_set hb with hb | rfl
    · exact h.unsent b hb update' hstage'
    · cases hstage'
      rw [htotal]
      exact htells
  case reported =>
    rw [hnew]
    exact h.reported

/-- Reports that tell counts which do not go back. -/
theorem nonDecreasing_of_tells {counts : List SessionUsageBaseline} {report : UsageUpdate → Option UInt64}
    {tally : SessionUsageBaseline → Tally}
    (htells : List.Forall₂ (fun update u => report update = (tally u).exactValue) updates counts)
    (hpair : counts.Pairwise fun u v => (tally u).rank ≤ (tally v).rank) :
    NonDecreasing (updates.map report) := by
  have hreports : updates.map report = (counts.map tally).map Tally.exactValue := by
    rw [List.map_map, ← List.forall₂_eq_eq_eq, List.forall₂_map_left_iff,
      List.forall₂_map_right_iff]
    exact htells
  rw [hreports]
  exact nonDecreasing_of_pairwise (List.pairwise_map.mpr hpair)

/-- What was reported did not go back. -/
theorem Sound.nonDecreasing (h : Sound l) :
    NonDecreasing (l.wire.map UsageUpdate.accumulatedInputTokens) ∧
      NonDecreasing (l.wire.map UsageUpdate.accumulatedOutputTokens) := by
  obtain ⟨counts, htells, hpair, _⟩ := h.reported
  constructor
  · exact nonDecreasing_of_tells (htells.imp fun _ _ h => h.1) (hpair.imp And.left)
  · exact nonDecreasing_of_tells (htells.imp fun _ _ h => h.2) (hpair.imp And.right)

end Ledger

end Buzz.Agent
