import Buzz.Lib.Run
import Buzz.Push.LeaseSteps

namespace Buzz.Push
set_option autoImplicit true
open Replaceable (Head)

/-- A call and what it answered. -/
inductive LeaseEntry where
  | accept (c : LeaseCall) (now : Nat) (result : Except DbError AcceptLeaseOutcome)
  | disable (a : Address) (generation : Int) (result : Bool)

/-- The calls of one community, each alone under its locks. -/
inductive LeaseStep (maxActiveLeases : Int) (s : Store) : LeaseEntry → Store → Prop where
  | accept (h : s.acceptLeaseEvent c maxActiveLeases now = (s', result)) :
      LeaseStep maxActiveLeases s (.accept c now result) s'
  | disable (h : s.disableEndpointGeneration a generation = (s', result)) :
      LeaseStep maxActiveLeases s (.disable a generation result) s'

def LeaseEntry.submitted : LeaseEntry → Option LeaseCall
  | .accept c _ _ => some c
  | .disable _ _ _ => none

def LeaseEntry.acceptedAt (a : Address) : LeaseEntry → Option LeaseCall
  | .accept c _ (.ok .accepted) => if c.address = a then some c else none
  | _ => none

/-- The accepted events of an address, in order. -/
def acceptedAt (a : Address) (entries : List LeaseEntry) : List LeaseCall :=
  entries.filterMap (·.acceptedAt a)

/-- No two events have one id. -/
def DistinctSources (entries : List LeaseEntry) : Prop :=
  ∀ c ∈ entries.filterMap LeaseEntry.submitted, ∀ c' ∈ entries.filterMap LeaseEntry.submitted,
    c.event.id = c'.event.id → c = c'

/-- Later in both orders. -/
def LeaseCall.Before (c c' : LeaseCall) : Prop :=
  c.version.head.rank < c'.version.head.rank ∧ c.version.generation < c'.version.generation

theorem EventRow.isLeaseOf_iff {row : EventRow} {a : Address} :
    row.isLeaseOf a = true ↔ row.kind = KIND_PUSH_LEASE ∧ row.pubkey = a.author ∧
      row.dTag = some a.installationId ∧ row.deletedAt = none := by
  rw [EventRow.isLeaseOf, Bool.and_eq_true, Bool.and_eq_true, Bool.and_eq_true,
    decide_eq_true_iff, decide_eq_true_iff, decide_eq_true_iff, Option.isNone_iff_eq_none,
    and_assoc, and_assoc]

theorem EventRow.isLeaseOf_unique {row : EventRow} {a b : Address} (ha : row.isLeaseOf a = true)
    (hb : row.isLeaseOf b = true) : a = b := by
  obtain ⟨_, hauthor, hinstallation, _⟩ := isLeaseOf_iff.mp ha
  obtain ⟨_, hauthor', hinstallation', _⟩ := isLeaseOf_iff.mp hb
  cases a
  cases b
  cases hauthor.symm.trans hauthor'
  cases hinstallation.symm.trans hinstallation'
  rfl

theorem LeaseCall.isLeaseOf_eventRow (c : LeaseCall) (a : Address) (now : Nat) :
    (c.eventRow now).isLeaseOf a = decide (a = c.address) := by
  have hself : (c.eventRow now).isLeaseOf c.address = true :=
    EventRow.isLeaseOf_iff.mpr ⟨rfl, rfl, rfl, rfl⟩
  by_cases ha : a = c.address
  · subst ha
    rw [hself, decide_eq_true rfl]
  · rw [decide_eq_false ha, ← Bool.not_eq_true]
    intro h
    exact ha (EventRow.isLeaseOf_unique h hself)

/-- Of the live lease events only those of the address are gone. -/
theorem Store.filter_retireEvents (s : Store) (a b : Address) (now : Nat) :
    (s.retireEvents b now).filter (EventRow.isLeaseOf a) =
      if a = b then [] else s.events.filter (EventRow.isLeaseOf a) := by
  rw [retireEvents]
  induction s.events with
  | nil =>
    split
    · rfl
    · rfl
  | cons row rows ih =>
    rw [List.map_cons, List.filter_cons, ih]
    by_cases hb : row.isLeaseOf b = true
    · have hretired : EventRow.isLeaseOf a { row with deletedAt := some now } = false := by
        rw [EventRow.isLeaseOf, Option.isNone_some, Bool.and_false]
      rw [if_pos hb, hretired, if_neg Bool.false_ne_true]
      split
      · rfl
      · rename_i hab
        rw [List.filter_cons_of_neg]
        intro ha
        exact hab (EventRow.isLeaseOf_unique ha hb)
    · rw [if_neg hb]
      split
      · rename_i ha
        split
        · rename_i hab
          subst hab
          exact absurd ha hb
        · rw [List.filter_cons_of_pos ha]
      · rename_i ha
        split
        · rfl
        · rw [List.filter_cons_of_neg ha]

def Store.activeLeases (author : PublicKey) (s : Store) : Nat :=
  s.leases.entries.countP fun e => e.1.author = author && e.2.active

/-- What the rows say of the calls so far. -/
structure Store.Kept (maxActiveLeases : Int) (entries : List LeaseEntry) (s : Store) : Prop where
  effective : ∀ a, (s.leases.lookup a).map LeaseRow.effective =
    (acceptedAt a entries).getLast?.map LeaseCall.lease
  ordered : ∀ a, (acceptedAt a entries).Pairwise LeaseCall.Before
  live : ∀ a c, (acceptedAt a entries).getLast? = some c →
    ∃ now, s.events.filter (EventRow.isLeaseOf a) = [c.eventRow now]
  quota : ∀ author, s.activeLeases author ≤ maxActiveLeases.toNat
  endpoint : ∀ a b row row', s.leases.lookup a = some row → s.leases.lookup b = some row' →
    b ≠ a → row.active = true → row'.active = true → b.author = a.author →
    row'.appProfile = row.appProfile → row'.endpointHash ≠ row.endpointHash
  outdated : ∀ c now result, .accept c now result ∈ entries →
    result = .ok .staleEvent ∨ result = .ok .staleGeneration → s.Outdated c

theorem mem_submitted {entries : List LeaseEntry} (h : .accept c now result ∈ entries) :
    c ∈ entries.filterMap LeaseEntry.submitted :=
  List.mem_filterMap.mpr ⟨_, h, rfl⟩

theorem DistinctSources.of_snoc (h : DistinctSources (entries ++ [entry])) :
    DistinctSources entries := by
  intro c hc c' hc'
  apply h
  · rw [List.filterMap_append]
    exact List.mem_append_left _ hc
  · rw [List.filterMap_append]
    exact List.mem_append_left _ hc'

theorem acceptedAt_snoc_none (h : entry.acceptedAt a = none) :
    acceptedAt a (entries ++ [entry]) = acceptedAt a entries := by
  rw [acceptedAt, List.filterMap_append, List.filterMap_cons_none h, List.filterMap_nil,
    List.append_nil]
  rfl

theorem acceptedAt_snoc_some (h : entry.acceptedAt a = some c) :
    acceptedAt a (entries ++ [entry]) = acceptedAt a entries ++ [c] := by
  rw [acceptedAt, List.filterMap_append, List.filterMap_cons_some h, List.filterMap_nil]
  rfl

theorem mem_acceptedAt {entries : List LeaseEntry} :
    c ∈ acceptedAt a entries ↔ c.address = a ∧ ∃ now, .accept c now (.ok .accepted) ∈ entries := by
  rw [acceptedAt, List.mem_filterMap]
  constructor
  · rintro ⟨entry, hentry, haccepted⟩
    rw [LeaseEntry.acceptedAt.eq_def] at haccepted
    split at haccepted
    · split at haccepted
      · rename_i haddress
        cases haccepted
        exact ⟨haddress, _, hentry⟩
      · cases haccepted
    · cases haccepted
  · rintro ⟨haddress, now, hentry⟩
    exact ⟨_, hentry, if_pos haddress⟩

theorem LeaseEntry.acceptedAt_of_ne {a : Address} (h : result ≠ .ok .accepted) :
    (LeaseEntry.accept c now result).acceptedAt a = none := by
  rw [LeaseEntry.acceptedAt]
  rintro c' now' ⟨⟩
  exact absurd rfl h

namespace Store.Kept

variable {s s' : Store} {c : LeaseCall}

/-- The row of an address is from its last accepted event. -/
theorem last_accepted (h : s.Kept maxActiveLeases entries) (hrow : s.leases.lookup a = some row) :
    ∃ c, (acceptedAt a entries).getLast? = some c ∧ row.effective = c.lease := by
  have heq := h.effective a
  rw [hrow, Option.map_some] at heq
  obtain ⟨c, hc, hlease⟩ := Option.map_eq_some_iff.mp heq.symm
  exact ⟨c, hc, hlease.symm⟩

theorem accepted_before (h : s.Kept maxActiveLeases entries)
    (hlast : (acceptedAt a entries).getLast? = some c) (hmem : c' ∈ acceptedAt a entries) :
    c' = c ∨ c'.Before c := by
  obtain ⟨front, hfront⟩ := List.getLast?_eq_some_iff.mp hlast
  have hordered := h.ordered a
  rw [hfront] at hordered hmem
  rcases List.mem_append.mp hmem with hmem | hmem
  · exact .inr ((List.pairwise_append.mp hordered).2.2 c' hmem c List.mem_cons_self)
  · exact .inl (List.mem_singleton.mp hmem)

theorem init (maxActiveLeases : Int) (events : List EventRow) :
    Kept maxActiveLeases [] (.init events) where
  effective _ := rfl
  ordered _ := .nil
  live _ _ h := by cases h
  quota _ := Nat.zero_le _
  endpoint _ _ _ _ h := by cases h
  outdated _ _ _ h := by cases h

/-- A refused event. -/
theorem refuse (h : s.Kept maxActiveLeases entries) (hresult : result ≠ .ok .accepted)
    (hrefusal : ∀ outcome, result = .ok outcome → s.Refusal c outcome)
    (hids : DistinctSources (entries ++ [.accept c now result])) :
    s.Kept maxActiveLeases (entries ++ [.accept c now result]) := by
  have hsame : ∀ a, acceptedAt a (entries ++ [.accept c now result]) = acceptedAt a entries :=
    fun a => acceptedAt_snoc_none (LeaseEntry.acceptedAt_of_ne hresult)
  refine ⟨?_, ?_, ?_, h.quota, h.endpoint, ?_⟩
  · intro a
    rw [hsame]
    exact h.effective a
  · intro a
    rw [hsame]
    exact h.ordered a
  · intro a
    rw [hsame]
    exact h.live a
  · intro c' now' result' hmem hstale
    rcases List.mem_append.mp hmem with hmem | hmem
    · exact h.outdated c' now' result' hmem hstale
    · cases List.mem_singleton.mp hmem
      have hcase : s.Current c ∨ s.Outdated c := by
        rcases hstale with hstale | hstale
        · exact (hrefusal _ hstale).2 (.inl rfl)
        · exact (hrefusal _ hstale).2 (.inr rfl)
      rcases hcase with ⟨row, hrow, hid⟩ | hcase
      · obtain ⟨last, hlast, heffective⟩ := h.last_accepted hrow
        have hversion : row.version = last.version := congrArg Lease.version heffective
        have heq : last = c := by
          obtain ⟨_, now', hlast⟩ := mem_acceptedAt.mp (List.mem_of_getLast? hlast)
          apply hids last (mem_submitted (List.mem_append_left _ hlast)) c
          · exact mem_submitted (List.mem_append_right _ hmem)
          · rw [← last.sourced, ← c.sourced, ← hid, hversion]
        subst heq
        refine ⟨row, hrow, .inl ?_⟩
        rw [hversion]
      · exact hcase

/-- The live lease events of the other addresses are not touched. -/
theorem filter_events (h : Accepts c maxActiveLeases now s s') (a : Address) :
    s'.events.filter (EventRow.isLeaseOf a) =
      if a = c.address then [c.eventRow now] else s.events.filter (EventRow.isLeaseOf a) := by
  have hnew := c.isLeaseOf_eventRow a now
  have hold := filter_retireEvents s a c.address now
  rw [h.events, List.filter_append, hold]
  split
  · rename_i ha
    rw [List.filter_cons_of_pos (by rw [hnew, decide_eq_true ha]), List.filter_nil,
      List.nil_append]
  · rename_i ha
    rw [List.filter_cons_of_neg (by rw [hnew, decide_eq_false ha]; exact Bool.false_ne_true),
      List.filter_nil, List.append_nil]

/-- The other active leases of the author, by installation and by address. -/
theorem others_iff (c : LeaseCall) (e : Sigma fun _ : Address => LeaseRow)
    (_ : e ∈ s.leases.entries) :
    (e.1.author = c.event.pubkey && e.2.active && e.1.installationId ≠ c.installationId) = true ↔
      ((e.1.author = c.address.author && e.2.active) && e.1 ≠ c.address) = true := by
  simp only [Bool.and_eq_true, decide_eq_true_iff]
  apply and_congr_right
  rintro ⟨hauthor, _⟩
  apply not_congr
  constructor
  · intro h
    obtain ⟨⟨author, installationId⟩, row⟩ := e
    cases hauthor
    cases h
    rfl
  · rintro h
    rw [h]
    rfl

theorem accept (h : s.Kept maxActiveLeases entries) (hacc : Accepts c maxActiveLeases now s s') :
    s'.Kept maxActiveLeases (entries ++ [.accept c now (.ok .accepted)]) := by
  obtain ⟨row, hrow, hs'⟩ := hacc.upserts.row
  have hself : acceptedAt c.address (entries ++ [.accept c now (.ok .accepted)]) =
      acceptedAt c.address entries ++ [c] :=
    acceptedAt_snoc_some (if_pos rfl)
  have hother : ∀ a, a ≠ c.address →
      acceptedAt a (entries ++ [.accept c now (.ok .accepted)]) = acceptedAt a entries :=
    fun a ha => acceptedAt_snoc_none (if_neg ha.symm)
  refine ⟨?effective, ?ordered, ?live, ?quota, ?endpoint, ?outdated⟩
  case effective =>
    intro a
    rw [hs']
    by_cases ha : a = c.address
    · subst ha
      rw [hself, AList.lookup_insert, List.getLast?_concat, Option.map_some, Option.map_some,
        LeaseRow.effective, hrow]
      rfl
    · rw [hother a ha, AList.lookup_insert_ne ha]
      exact h.effective a
  case ordered =>
    intro a
    by_cases ha : a = c.address
    · subst ha
      rw [hself, List.pairwise_append]
      refine ⟨h.ordered _, List.pairwise_singleton _ _, ?_⟩
      intro c' hc' x hx
      cases List.mem_singleton.mp hx
      obtain ⟨last, hlast⟩ : ∃ last, (acceptedAt c.address entries).getLast? = some last :=
        ⟨_, List.getLast?_eq_some_getLast (List.ne_nil_of_mem hc')⟩
      obtain ⟨old, hold, heffective⟩ : ∃ old, s.leases.lookup c.address = some old ∧
          old.effective = last.lease := by
        have heq := h.effective c.address
        rw [hlast, Option.map_some] at heq
        exact Option.map_eq_some_iff.mp heq
      have hversion : old.version = last.version := congrArg Lease.version heffective
      have hbefore : last.Before c := by
        have horder := hacc.order old hold
        rw [hversion] at horder
        exact horder
      rcases h.accepted_before hlast hc' with rfl | hc'
      · exact hbefore
      · exact ⟨hc'.1.trans hbefore.1, hc'.2.trans hbefore.2⟩
    · rw [hother a ha]
      exact h.ordered a
  case live =>
    intro a last hlast
    rw [filter_events hacc]
    split
    · rename_i ha
      subst ha
      rw [hself, List.getLast?_concat] at hlast
      cases hlast
      exact ⟨now, rfl⟩
    · rename_i ha
      rw [hother a ha] at hlast
      exact h.live a last hlast
  case quota =>
    intro author
    rw [activeLeases, hs', Table.countP_insert]
    have hactive : row.active = c.active.isSome := by
      rw [hrow]
      rfl
    dsimp only
    rw [hactive]
    by_cases hnew : (decide (c.address.author = author) && c.active.isSome) = true
    · rw [if_pos hnew]
      rw [Bool.and_eq_true, decide_eq_true_iff] at hnew
      obtain ⟨rfl, hsome⟩ := hnew
      have hquota := hacc.quota hsome
      rw [List.countP_congr (others_iff c)] at hquota
      omega
    · rw [if_neg hnew, Nat.add_zero]
      refine (List.countP_mono_left ?_).trans (h.quota author)
      intro e _ he
      exact (Bool.and_eq_true _ _ ▸ he).1
  case endpoint =>
    intro a b old old' hold hold' hne hactive hactive' hauthor hprofile
    rw [hs'] at hold hold'
    by_cases ha : a = c.address
    · subst ha
      rw [AList.lookup_insert, Option.some.injEq] at hold
      rw [AList.lookup_insert_ne hne] at hold'
      subst hold
      rw [hrow] at hactive hprofile ⊢
      exact hacc.upserts.endpoint hactive b old' hold' hne hactive' hauthor hprofile
    · rw [AList.lookup_insert_ne ha] at hold
      by_cases hb : b = c.address
      · subst hb
        rw [AList.lookup_insert, Option.some.injEq] at hold'
        subst hold'
        rw [hrow] at hactive' hprofile ⊢
        exact (hacc.upserts.endpoint hactive' a old hold hne.symm hactive hauthor.symm
          hprofile.symm).symm
      · rw [AList.lookup_insert_ne hb] at hold'
        exact h.endpoint a b old old' hold hold' hne hactive hactive' hauthor hprofile
  case outdated =>
    intro c' now' result hmem hstale
    rcases List.mem_append.mp hmem with hmem | hmem
    · exact (h.outdated c' now' result hmem hstale).advances hacc.advances
    · cases List.mem_singleton.mp hmem
      rcases hstale with hstale | hstale
      · cases hstale
      · cases hstale

/-- To switch an endpoint off changes nothing that comes from an event. -/
theorem disable (h : s.Kept maxActiveLeases entries)
    (hdisable : s.disableEndpointGeneration a generation = (s', result)) :
    s'.Kept maxActiveLeases (entries ++ [.disable a generation result]) := by
  have hsame : ∀ b, acceptedAt b (entries ++ [.disable a generation result]) =
      acceptedAt b entries := fun b => acceptedAt_snoc_none rfl
  have houtdated : ∀ c now answer, .accept c now answer ∈
      entries ++ [.disable a generation result] →
      answer = .ok .staleEvent ∨ answer = .ok .staleGeneration → s'.Outdated c := by
    intro c now answer hmem hstale
    rcases List.mem_append.mp hmem with hmem | hmem
    · exact (h.outdated c now answer hmem hstale).advances
        (disableEndpointGeneration_advances hdisable)
    · cases List.mem_singleton.mp hmem
  rcases disableEndpointGeneration_cases hdisable with rfl | ⟨row, row', hrow, hrow', rfl⟩
  · exact ⟨(fun b => by rw [hsame]; exact h.effective b), (fun b => by rw [hsame]; exact h.ordered b),
      (fun b => by rw [hsame]; exact h.live b), h.quota, h.endpoint, houtdated⟩
  · have hold : ∀ b new, (s.leases.insert a row').lookup b = some new → ∃ old,
        s.leases.lookup b = some old ∧ new.effective = old.effective := by
      intro b new hnew
      by_cases hb : b = a
      · subst hb
        rw [AList.lookup_insert, Option.some.injEq] at hnew
        subst hnew
        refine ⟨row, hrow, ?_⟩
        rw [LeaseRow.effective, hrow']
        rfl
      · rw [AList.lookup_insert_ne hb] at hnew
        exact ⟨new, hnew, rfl⟩
    refine ⟨?effective, ?ordered, ?live, ?quota, ?endpoint, houtdated⟩
    case effective =>
      intro b
      rw [hsame, ← h.effective b]
      by_cases hb : b = a
      · subst hb
        rw [AList.lookup_insert, hrow, Option.map_some, Option.map_some, LeaseRow.effective, hrow']
        rfl
      · rw [AList.lookup_insert_ne hb]
    case ordered =>
      intro b
      rw [hsame]
      exact h.ordered b
    case live =>
      intro b
      rw [hsame]
      exact h.live b
    case quota =>
      intro author
      have hactive : row'.active = row.active := by
        rw [hrow']
      have hcount : (s.leases.insert a row').entries.countP
          (fun e => e.1.author = author && e.2.active) = s.activeLeases author := by
        rw [activeLeases, (Table.perm_insert_lookup hrow).countP_eq, AList.entries_insert,
          AList.entries_insert, List.countP_cons, List.countP_cons, hactive]
      exact hcount.trans_le (h.quota author)
    case endpoint =>
      intro b b' new new' hnew hnew' hne hactive hactive' hauthor hprofile
      obtain ⟨old, hold₁, heq⟩ := hold b new hnew
      obtain ⟨old', hold₂, heq'⟩ := hold b' new' hnew'
      obtain ⟨_, hactive₁, hprofile₁, hhash₁⟩ := LeaseRow.columns_of_effective heq
      obtain ⟨_, hactive₂, hprofile₂, hhash₂⟩ := LeaseRow.columns_of_effective heq'
      rw [hhash₁, hhash₂]
      rw [hactive₁] at hactive
      rw [hactive₂] at hactive'
      rw [hprofile₁, hprofile₂] at hprofile
      exact h.endpoint b b' old old' hold₁ hold₂ hne hactive hactive' hauthor hprofile

theorem step (h : s.Kept maxActiveLeases entries) (hstep : LeaseStep maxActiveLeases s entry s')
    (hids : DistinctSources (entries ++ [entry])) :
    s'.Kept maxActiveLeases (entries ++ [entry]) := by
  cases hstep with
  | accept haccept =>
    rcases acceptLeaseEvent_cases haccept with ⟨rfl, hacc⟩ | ⟨hresult, rfl, hrefusal⟩
    · exact h.accept hacc
    · exact h.refuse hresult hrefusal hids
  | disable hdisable => exact h.disable hdisable

end Store.Kept

theorem kept_of_run (h : Run (LeaseStep maxActiveLeases) (.init events) entries s)
    (hids : DistinctSources entries) : s.Kept maxActiveLeases entries := by
  induction h with
  | nil => exact .init maxActiveLeases events
  | snoc _ hstep ih => exact (ih hids.of_snoc).step hstep hids

/-- What acceptance promises, after any calls. -/
structure Store.Contract (maxActiveLeases : Int) (entries : List LeaseEntry) (s : Store) : Prop where
  advance : ∀ a, (acceptedAt a entries).Pairwise LeaseCall.Before
  stale : ∀ c now result, .accept c now result ∈ entries →
    result = .ok .staleEvent ∨ result = .ok .staleGeneration →
    ∀ later, (s.acceptLeaseEvent c maxActiveLeases later).2 ≠ .ok .accepted
  replayed : ∀ a, ∀ accepted ∈ acceptedAt a entries, ∀ c, c.address = a →
    c.version.head.rank ≤ accepted.version.head.rank ∨
      c.version.generation ≤ accepted.version.generation →
    ∀ later, (s.acceptLeaseEvent c maxActiveLeases later).2 ≠ .ok .accepted
  revoked : ∀ a, ∀ revocation ∈ acceptedAt a entries, revocation.active = none →
    ∀ row, s.leases.lookup a = some row → row.active = true →
    ∃ c ∈ acceptedAt a entries, c.active.isSome = true ∧ revocation.Before c
  effective : ∀ a, (s.leases.lookup a).map LeaseRow.effective =
    (acceptedAt a entries).getLast?.map LeaseCall.lease
  live : ∀ a c, (acceptedAt a entries).getLast? = some c →
    ∃ now, s.events.filter (EventRow.isLeaseOf a) = [c.eventRow now]
  unchanged : ∀ c now, (s.acceptLeaseEvent c maxActiveLeases now).2 ≠ .ok .accepted →
    (s.acceptLeaseEvent c maxActiveLeases now).1 = s
  quota : ∀ author now, (s.leases.entries.countP fun e => e.1.author = author && e.2.active &&
    epochSecs now < e.2.version.expiresAt) ≤ maxActiveLeases.toNat
  endpoint : ∀ a b row row', s.leases.lookup a = some row → s.leases.lookup b = some row' →
    b ≠ a → b.author = a.author → row.active = true → row'.active = true →
    ¬ (row'.appProfile = row.appProfile ∧ row'.endpointHash = row.endpointHash)

namespace Store.Kept

variable {s : Store}

/-- What was accepted is behind the row of its address, or is its event. -/
theorem accepted_le_row (h : s.Kept maxActiveLeases entries) (hmem : c ∈ acceptedAt a entries) :
    ∃ row, s.leases.lookup a = some row ∧ c.version.head.rank ≤ row.version.head.rank ∧
      c.version.generation ≤ row.version.generation := by
  obtain ⟨last, hlast⟩ : ∃ last, (acceptedAt a entries).getLast? = some last :=
    ⟨_, List.getLast?_eq_some_getLast (List.ne_nil_of_mem hmem)⟩
  have heq := h.effective a
  rw [hlast, Option.map_some] at heq
  obtain ⟨row, hrow, heffective⟩ := Option.map_eq_some_iff.mp heq
  have hversion : row.version = last.version := congrArg Lease.version heffective
  refine ⟨row, hrow, ?_⟩
  rw [hversion]
  rcases h.accepted_before hlast hmem with rfl | hbefore
  · exact ⟨le_refl _, le_refl _⟩
  · exact ⟨hbefore.1.le, hbefore.2.le⟩

theorem outdated_of_accepted (h : s.Kept maxActiveLeases entries)
    (hmem : accepted ∈ acceptedAt a entries) (ha : c.address = a)
    (hle : c.version.head.rank ≤ accepted.version.head.rank ∨
      c.version.generation ≤ accepted.version.generation) : s.Outdated c := by
  obtain ⟨row, hrow, hrank, hgeneration⟩ := h.accepted_le_row hmem
  subst ha
  refine ⟨row, hrow, ?_⟩
  rcases hle with hle | hle
  · exact .inl (hle.trans hrank)
  · exact .inr (hle.trans hgeneration)

theorem active_after_revocation (h : s.Kept maxActiveLeases entries)
    (hmem : revocation ∈ acceptedAt a entries) (hrevoked : revocation.active = none)
    (hrow : s.leases.lookup a = some row) (hactive : row.active = true) :
    ∃ c ∈ acceptedAt a entries, c.active.isSome = true ∧ revocation.Before c := by
  obtain ⟨last, hlast, heffective⟩ := h.last_accepted hrow
  have hsome : row.active = last.active.isSome := congrArg Lease.active heffective
  rw [hactive] at hsome
  rcases h.accepted_before hlast hmem with rfl | hbefore
  · rw [hrevoked] at hsome
    cases hsome
  · exact ⟨last, List.mem_of_getLast? hlast, hsome.symm, hbefore⟩

end Store.Kept

/-- Every run keeps the contract of the leases. -/
theorem lease_acceptance_contract (h : Run (LeaseStep maxActiveLeases) (.init events) entries s)
    (hids : DistinctSources entries) : s.Contract maxActiveLeases entries := by
  have hkept := kept_of_run h hids
  refine ⟨hkept.ordered, ?stale, ?replayed, ?revoked, hkept.effective, hkept.live, ?unchanged,
    ?quota, ?endpoint⟩
  case stale =>
    intro c now result hmem hstale
    exact (hkept.outdated c now result hmem hstale).not_accepted maxActiveLeases
  case replayed =>
    intro a accepted hmem c ha hle
    exact (hkept.outdated_of_accepted hmem ha hle).not_accepted maxActiveLeases
  case revoked =>
    intro a revocation hmem hrevoked row hrow hactive
    exact hkept.active_after_revocation hmem hrevoked hrow hactive
  case unchanged =>
    intro c now hne
    rcases Store.acceptLeaseEvent_cases
      (Prod.mk.eta (p := s.acceptLeaseEvent c maxActiveLeases now)).symm with ⟨h, _⟩ | ⟨_, h, _⟩
    · exact absurd h hne
    · exact h
  case quota =>
    intro author now
    refine (List.countP_mono_left ?_).trans (hkept.quota author)
    intro e _ he
    exact (Bool.and_eq_true _ _ ▸ he).1
  case endpoint =>
    intro a b row row' hrow hrow' hne hauthor hactive hactive' hsame
    exact hkept.endpoint a b row row' hrow hrow' hne hactive hactive' hauthor hsame.1 hsame.2

def firstLease : LeaseCall where
  event := ⟨HexId.ofNat 64 1, HexId.ofNat 64 2, 100, 30350, []⟩
  installationId := "phone"
  version := ⟨HexId.ofNat 64 1, 100, 1, 5000⟩
  active := some ⟨"buzz-ios-production", List.replicate 32 7, "grant", "default", .array []⟩
  sourced := rfl

theorem lease_acceptance_contract_first : ∃ s : Store,
    s.Contract 16 [.accept firstLease 0 (.ok .accepted)] := by
  have hrun : ∃ s, Run (LeaseStep 16) (.init []) [.accept firstLease 0 (.ok .accepted)] s :=
    ⟨_, Run.nil.snoc (.accept (Prod.ext rfl (by rfl)))⟩
  obtain ⟨s, hrun⟩ := hrun
  refine ⟨s, lease_acceptance_contract hrun ?_⟩
  intro c hc c' hc' _
  exact (List.mem_singleton.mp hc).trans (List.mem_singleton.mp hc').symm

end Buzz.Push
