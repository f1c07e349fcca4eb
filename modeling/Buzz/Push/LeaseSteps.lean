import Buzz.Lib.Run
import Buzz.Push.Lease

namespace Buzz.Push
set_option autoImplicit true
open Replaceable (Head)

/-- To win is to be of greater rank. -/
theorem winsEvent_iff (v current : LeaseVersion) :
    v.winsEvent current = true ↔ current.head.rank < v.head.rank := by
  rw [LeaseVersion.winsEvent, Head.rank, Head.rank, Prod.Lex.toLex_lt_toLex, Bool.or_eq_true,
    decide_eq_true_iff, Bool.and_eq_true, decide_eq_true_iff, decide_eq_true_iff,
    OrderDual.toDual_lt_toDual]
  constructor
  · rintro (h | ⟨h, hid⟩)
    · exact .inl h
    · exact .inr ⟨h.symm, hid⟩
  · rintro (h | ⟨h, hid⟩)
    · exact .inl h
    · exact .inr ⟨h.symm, hid⟩

theorem LeaseRow.ofLease_eq_some {l : Lease} {row : LeaseRow} (h : LeaseRow.ofLease l = some row) :
    row.toLease = l := by
  rw [LeaseRow.ofLease] at h
  split at h
  · cases h
    rfl
  · cases h

/-- An active row has an application profile and an endpoint grant. -/
theorem LeaseRow.active_columns (row : LeaseRow) (h : row.active = true) :
    row.appProfile.isSome = true ∧ row.endpointGrant.isSome = true := by
  have hcheck := row.checked
  rw [Lease.check, h] at hcheck
  simp only [Bool.and_eq_true, Bool.or_eq_true, Bool.not_true, Bool.false_and,
    Bool.false_eq_true, or_false, true_and] at hcheck
  exact ⟨hcheck.2.1.1.1.1, hcheck.2.1.1.2⟩

/-- A lease that was active has columns that no inactive lease may have. -/
theorem deactivate_eq_none (row : LeaseRow) (h : row.active = true) :
    Store.deactivate row = none := by
  rw [Store.deactivate, LeaseRow.ofLease, dif_neg]
  intro hcheck
  have hprofile := (row.active_columns h).1
  rw [Lease.check] at hcheck
  simp only [Bool.and_eq_true, Bool.or_eq_true, Bool.false_eq_true, false_and, false_or,
    Option.isNone_iff_eq_none] at hcheck
  rw [hcheck.2.1.1.1.1.2] at hprofile
  cases hprofile

namespace Store

variable {s s' : Store} {c : LeaseCall}

theorem expireLeases_ok (h : s.expireLeases author now = .ok s') : s' = s := by
  rw [expireLeases] at h
  split at h
  · cases h
  · rename_i hany
    cases h
    have hnone : ∀ a row, s.leases.lookup a = some row → expiredLease author now a row = false := by
      intro a row hrow
      have hrow' := Table.any_eq_false_iff.mp (Bool.eq_false_of_not_eq_true hany) a row hrow
      by_cases hactive : row.active = true
      · rw [deactivate_eq_none row hactive] at hrow'
        simpa using hrow'
      · rw [expiredLease, Bool.eq_false_of_not_eq_true hactive, Bool.and_false, Bool.false_and]
    rw [Table.mapVals_eq_self]
    intro a row hrow
    rw [if_neg]
    rw [hnone a row hrow]
    exact Bool.false_ne_true

/-- What the insert of a lease row asks for and does. -/
structure Upserts (a : Address) (l : Lease) (t t' : Table Address LeaseRow) : Prop where
  row : ∃ row : LeaseRow, row.toLease = l ∧ t' = t.insert a row
  endpoint : l.active = true → ∀ b row, t.lookup b = some row → b ≠ a →
    row.active = true → b.author = a.author → row.appProfile = l.appProfile →
    row.endpointHash ≠ l.endpointHash

theorem upsertLease_ok (h : s.upsertLease a l = .ok s') :
    Upserts a l s.leases s'.leases ∧ s'.events = s.events := by
  rw [upsertLease] at h
  split at h
  · cases h
  · rename_i row hrow
    split at h
    · cases h
    · split at h
      · cases h
      · split at h
        · cases h
        · rename_i hendpoint
          cases h
          refine ⟨⟨⟨row, LeaseRow.ofLease_eq_some hrow, rfl⟩, ?_⟩, rfl⟩
          intro hactive b other hother hne hotheractive hauthor hprofile hhash
          rw [hactive, Bool.true_and] at hendpoint
          have hfalse := Table.any_eq_false_iff.mp (Bool.eq_false_of_not_eq_true hendpoint) b other
            hother
          simp only [hotheractive, hauthor, hprofile, hhash, hne, ne_eq, not_false_eq_true,
            decide_true, Bool.and_true, Bool.true_eq_false] at hfalse

/-- What an accepted event asks for and does. -/
structure Accepts (c : LeaseCall) (maxActiveLeases : Int) (now : Nat) (s s' : Store) : Prop where
  source : ∀ a row, s.leases.lookup a = some row →
    row.version.sourceEventId ≠ c.version.sourceEventId
  order : ∀ row, s.leases.lookup c.address = some row →
    row.version.head.rank < c.version.head.rank ∧ row.version.generation < c.version.generation
  quota : c.active.isSome = true → (s.leases.entries.countP fun e =>
    e.1.author = c.event.pubkey && e.2.active && e.1.installationId ≠ c.installationId : Nat) <
      maxActiveLeases
  upserts : Upserts c.address c.lease s.leases s'.leases
  events : s'.events = s.retireEvents c.address now ++ [c.eventRow now]

theorem checkSource_ok (h : s.checkSource c = .ok u) :
    ∀ a row, s.leases.lookup a = some row →
      row.version.sourceEventId ≠ c.version.sourceEventId := by
  rw [checkSource] at h
  split at h
  · rename_i hfind
    intro a row hrow heq
    have hne := List.find?_eq_none.mp hfind ⟨a, row⟩ (AList.mem_lookup_iff.mp hrow)
    exact hne (decide_eq_true heq)
  · split at h
    · cases h
    · cases h

theorem checkOrder_ok (h : s.checkOrder c = .ok u) :
    ∀ row, s.leases.lookup c.address = some row →
      row.version.head.rank < c.version.head.rank ∧
        row.version.generation < c.version.generation := by
  intro row hrow
  rw [checkOrder, hrow] at h
  dsimp only at h
  split at h
  · cases h
  · rename_i hwins
    split at h
    · cases h
    · rename_i hgeneration
      rw [Bool.not_eq_true', Bool.not_eq_false] at hwins
      exact ⟨(winsEvent_iff _ _).mp hwins, not_le.mp hgeneration⟩

theorem checkAuthor_ok (h : s.checkAuthor c maxActiveLeases = .ok u)
    (hactive : c.active.isSome = true) :
    (s.leases.entries.countP fun e =>
      e.1.author = c.event.pubkey && e.2.active && e.1.installationId ≠ c.installationId : Nat) <
        maxActiveLeases := by
  rw [checkAuthor] at h
  split at h
  · rename_i hnone
    rw [hnone] at hactive
    cases hactive
  · split at h
    · cases h
    · rename_i hquota
      exact not_le.mp hquota

theorem acceptTransaction_ok (h : s.acceptTransaction c maxActiveLeases now = .ok s') :
    Accepts c maxActiveLeases now s s' := by
  rw [acceptTransaction] at h
  obtain ⟨_, hsource, h⟩ := ok_of_bind h
  obtain ⟨_, horder, h⟩ := ok_of_bind h
  obtain ⟨t, hexpire, h⟩ := ok_of_bind h
  cases expireLeases_ok hexpire
  obtain ⟨_, hauthor, h⟩ := ok_of_bind h
  obtain ⟨t, hevent, h⟩ := ok_of_bind h
  obtain ⟨t', hrow, h⟩ := ok_of_bind h
  have hretired : t = { s with events := s.retireEvents c.address now ++ [c.eventRow now] } := by
    rw [replaceEvent] at hevent
    split at hevent
    · cases hevent
    · split at hevent
      · cases hevent
      · cases hevent
        rfl
  have hupserts : Upserts c.address c.lease t.leases t'.leases ∧ t'.events = t.events := by
    rw [replaceLeaseRow] at hrow
    split at hrow
    · rename_i hupsert
      cases hrow
      exact upsertLease_ok hupsert
    · cases hrow
  have hs' : s'.leases = t'.leases ∧ s'.events = t'.events := by
    cases h
    split
    · exact ⟨rfl, rfl⟩
    · exact ⟨rfl, rfl⟩
  rw [hretired] at hupserts
  rw [← hs'.1, ← hs'.2] at hupserts
  exact ⟨checkSource_ok hsource, checkOrder_ok horder, checkAuthor_ok hauthor, hupserts.1,
    hupserts.2⟩

/-- The row of its address is as late as the event, in one of the two orders. -/
def Outdated (c : LeaseCall) (s : Store) : Prop :=
  ∃ row, s.leases.lookup c.address = some row ∧
    (c.version.head.rank ≤ row.version.head.rank ∨ c.version.generation ≤ row.version.generation)

/-- The row of its address is from the event itself. -/
def Current (c : LeaseCall) (s : Store) : Prop :=
  ∃ row, s.leases.lookup c.address = some row ∧
    row.version.sourceEventId = c.version.sourceEventId

/-- What a refusal says about the row of the address. -/
def Refusal (c : LeaseCall) (s : Store) (outcome : AcceptLeaseOutcome) : Prop :=
  outcome ≠ .accepted ∧
    (outcome = .staleEvent ∨ outcome = .staleGeneration → s.Current c ∨ s.Outdated c)

theorem refusal_of_fresh (h : outcome = .endpointAlreadyLeased ∨ outcome = .leaseQuotaExceeded ∨
    outcome = .sourceEventCollision ∨ outcome = .constraintViolation) : s.Refusal c outcome := by
  rcases h with rfl | rfl | rfl | rfl
  all_goals exact ⟨by decide, fun h => absurd h (by decide)⟩

theorem checkSource_error (h : s.checkSource c = .error (.refused outcome)) :
    s.Refusal c outcome := by
  rw [checkSource] at h
  split at h
  · cases h
  · rename_i e hfind
    have hid := List.find?_some hfind
    split at h
    · cases h
      exact refusal_of_fresh (.inr (.inr (.inl rfl)))
    · rename_i haddress
      cases h
      rw [not_not] at haddress
      refine ⟨by decide, fun _ => .inl ⟨e.2, ?_, of_decide_eq_true hid⟩⟩
      rw [← haddress]
      exact AList.mem_lookup_iff.mpr (List.mem_of_find?_eq_some hfind)

theorem checkOrder_error (h : s.checkOrder c = .error (.refused outcome)) :
    s.Refusal c outcome := by
  rw [checkOrder] at h
  split at h
  · cases h
  · rename_i current hcurrent
    split at h
    · rename_i hwins
      cases h
      rw [Bool.not_eq_true', ← Bool.not_eq_true, winsEvent_iff, not_lt] at hwins
      exact ⟨by decide, fun _ => .inr ⟨current, hcurrent, .inl hwins⟩⟩
    · split at h
      · rename_i hgeneration
        cases h
        exact ⟨by decide, fun _ => .inr ⟨current, hcurrent, .inr hgeneration⟩⟩
      · cases h

theorem checkAuthor_error (h : s.checkAuthor c maxActiveLeases = .error (.refused outcome)) :
    outcome = .endpointAlreadyLeased ∨ outcome = .leaseQuotaExceeded := by
  rw [checkAuthor] at h
  split at h
  · cases h
  · split at h
    · cases h
      exact .inr rfl
    · split at h
      · cases h
        exact .inl rfl
      · cases h

theorem replaceEvent_error (h : s.replaceEvent c now = .error (.refused outcome)) :
    outcome = .constraintViolation := by
  rw [replaceEvent] at h
  split at h
  · cases h
  · split at h
    · cases h
      rfl
    · cases h

theorem replaceLeaseRow_error (h : s.replaceLeaseRow c = .error (.refused outcome)) :
    outcome = .endpointAlreadyLeased ∨ outcome = .sourceEventCollision ∨
      outcome = .constraintViolation := by
  rw [replaceLeaseRow] at h
  split at h
  · cases h
  · rename_i violation hviolation
    cases h
    cases violation with
    | check => exact .inr (.inr rfl)
    | eventsPrimaryKey => exact .inr (.inr rfl)
    | wakesPrimaryKey => exact .inr (.inr rfl)
    | leasesSourceEvent => exact .inr (.inl rfl)
    | leasesEndpoint => exact .inl rfl

theorem acceptTransaction_refused
    (h : s.acceptTransaction c maxActiveLeases now = .error (.refused outcome)) :
    s.Refusal c outcome := by
  rw [acceptTransaction] at h
  rcases error_of_bind h with h | ⟨_, _, h⟩
  · exact checkSource_error h
  rcases error_of_bind h with h | ⟨_, _, h⟩
  · exact checkOrder_error h
  rcases error_of_bind h with h | ⟨t, hexpire, h⟩
  · rw [expireLeases] at h
    split at h
    · cases h
    · cases h
  rcases error_of_bind h with h | ⟨_, _, h⟩
  · rcases checkAuthor_error h with h | h
    · exact refusal_of_fresh (.inl h)
    · exact refusal_of_fresh (.inr (.inl h))
  rcases error_of_bind h with h | ⟨_, _, h⟩
  · exact refusal_of_fresh (.inr (.inr (.inr (replaceEvent_error h))))
  rcases error_of_bind h with h | ⟨_, _, h⟩
  · rcases replaceLeaseRow_error h with h | h | h
    · exact refusal_of_fresh (.inl h)
    · exact refusal_of_fresh (.inr (.inr (.inl h)))
    · exact refusal_of_fresh (.inr (.inr (.inr h)))
  cases h

/-- What a call does, by its answer. -/
theorem acceptLeaseEvent_cases (h : s.acceptLeaseEvent c maxActiveLeases now = (s', result)) :
    (result = .ok .accepted ∧ Accepts c maxActiveLeases now s s') ∨
      (result ≠ .ok .accepted ∧ s' = s ∧
        ∀ outcome, result = .ok outcome → s.Refusal c outcome) := by
  rw [acceptLeaseEvent] at h
  split at h
  · rename_i htransaction
    cases h
    exact .inl ⟨rfl, acceptTransaction_ok htransaction⟩
  · rename_i htransaction
    cases h
    have hrefusal := acceptTransaction_refused htransaction
    refine .inr ⟨?_, rfl, ?_⟩
    · rintro ⟨⟩
      exact hrefusal.1 rfl
    · rintro o ⟨⟩
      exact hrefusal
  · cases h
    refine .inr ⟨?_, rfl, ?_⟩
    · rintro ⟨⟩
    · rintro o ⟨⟩

theorem Outdated.not_accepted (h : s.Outdated c) (maxActiveLeases : Int) (now : Nat) :
    (s.acceptLeaseEvent c maxActiveLeases now).2 ≠ .ok .accepted := by
  intro haccepted
  obtain ⟨row, hrow, hlate⟩ := h
  rcases acceptLeaseEvent_cases (Prod.mk.eta (p := s.acceptLeaseEvent c maxActiveLeases now)).symm
    with ⟨_, hacc⟩ | ⟨hne, _⟩
  · obtain ⟨hrank, hgeneration⟩ := hacc.order row hrow
    rcases hlate with hlate | hlate
    · exact absurd hrank (not_lt.mpr hlate)
    · exact absurd hgeneration (not_lt.mpr hlate)
  · exact hne haccepted

end Store

/-- What a row has from its event: everything but whether its endpoint is still on. -/
def LeaseRow.effective (row : LeaseRow) : Lease :=
  { row.toLease with endpointEnabled := true }

/-- A row stays, or is followed by one that is later in both orders. -/
def Store.Advances (s s' : Store) : Prop :=
  ∀ a row, s.leases.lookup a = some row → ∃ row', s'.leases.lookup a = some row' ∧
    (row'.effective = row.effective ∨ (row.version.head.rank < row'.version.head.rank ∧
      row.version.generation < row'.version.generation))

theorem LeaseRow.columns_of_effective {row row' : LeaseRow} (h : row'.effective = row.effective) :
    row'.version = row.version ∧ row'.active = row.active ∧ row'.appProfile = row.appProfile ∧
      row'.endpointHash = row.endpointHash := by
  obtain ⟨hversion, hactive, _, hprofile, hhash, _⟩ := Lease.mk.inj h
  exact ⟨hversion, hactive, hprofile, hhash⟩

namespace Store

variable {s s' : Store} {c : LeaseCall}

theorem Advances.of_leases_eq (h : s'.leases = s.leases) : s.Advances s' :=
  fun _ row hrow => ⟨row, h ▸ hrow, .inl rfl⟩

theorem Advances.refl (s : Store) : s.Advances s :=
  .of_leases_eq rfl

theorem advances_insert {row' : LeaseRow} (hs' : s'.leases = s.leases.insert a row')
    (hrow : ∀ row, s.leases.lookup a = some row → row'.effective = row.effective ∨
      (row.version.head.rank < row'.version.head.rank ∧
        row.version.generation < row'.version.generation)) : s.Advances s' := by
  intro b row hb
  rw [hs']
  by_cases hab : b = a
  · subst hab
    exact ⟨row', AList.lookup_insert _, hrow row hb⟩
  · rw [AList.lookup_insert_ne hab]
    exact ⟨row, hb, .inl rfl⟩

theorem Accepts.advances (h : Accepts c maxActiveLeases now s s') : s.Advances s' := by
  obtain ⟨row', hrow', hs'⟩ := h.upserts.row
  apply advances_insert hs'
  intro row hrow
  rw [hrow']
  exact .inr (h.order row hrow)

/-- What switching an endpoint off does, by its answer. -/
theorem disableEndpointGeneration_cases
    (h : s.disableEndpointGeneration a generation = (s', result)) :
    s' = s ∨ ∃ row row' : LeaseRow, s.leases.lookup a = some row ∧
      row'.toLease = { row.toLease with endpointEnabled := false } ∧
      s' = { s with leases := s.leases.insert a row' } := by
  rw [disableEndpointGeneration] at h
  split at h
  · cases h
    exact .inl rfl
  · rename_i row hrow
    split at h
    · cases h
      exact .inr ⟨row, _, hrow, rfl, rfl⟩
    · cases h
      exact .inl rfl

theorem disableEndpointGeneration_advances
    (h : s.disableEndpointGeneration a generation = (s', result)) : s.Advances s' := by
  rcases disableEndpointGeneration_cases h with rfl | ⟨row, row', hrow, hrow', rfl⟩
  · exact .refl _
  · apply advances_insert (s := s) rfl
    intro old hold
    cases hold.symm.trans hrow
    rw [LeaseRow.effective, hrow']
    exact .inl rfl

theorem acceptLeaseEvent_advances
    (h : s.acceptLeaseEvent c maxActiveLeases now = (s', result)) : s.Advances s' := by
  rcases acceptLeaseEvent_cases h with ⟨_, h⟩ | ⟨_, rfl, _⟩
  · exact h.advances
  · exact .refl _

theorem replaceRow_advances (h : s.replaceRow a version active now = (s', result))
    (horder : ∀ row, s.leases.lookup a = some row → row.version.head.rank < version.head.rank ∧
      row.version.generation < version.generation) : s.Advances s' := by
  rw [replaceRow] at h
  split at h
  · rename_i t hupsert
    obtain ⟨row', hrow', ht⟩ := (upsertLease_ok hupsert).1.row
    have hs' : s'.leases = t.leases := by
      cases h
      split
      · rfl
      · rfl
    apply advances_insert (hs'.trans ht)
    intro row hrow
    rw [hrow']
    exact .inr (horder row hrow)
  · cases h
    exact .refl _

theorem replaceLease_advances (h : s.replaceLease a version active now = (s', result)) :
    s.Advances s' := by
  rw [replaceLease] at h
  split at h
  · rename_i hnone
    apply replaceRow_advances h
    intro row hrow
    rw [hnone] at hrow
    cases hrow
  · rename_i current hcurrent
    split at h
    · split at h
      · cases h
        exact .refl _
      · rename_i hwins
        split at h
        · cases h
          exact .refl _
        · rename_i hgeneration
          apply replaceRow_advances h
          intro row hrow
          cases hrow.symm.trans hcurrent
          rw [Bool.not_eq_true', Bool.not_eq_false] at hwins
          exact ⟨(winsEvent_iff _ _).mp hwins, not_le.mp hgeneration⟩
    · cases h
      exact .refl _

/-- What is outdated stays outdated. -/
theorem Outdated.advances (h : s.Outdated c) (hadvances : s.Advances s') : s'.Outdated c := by
  obtain ⟨row, hrow, hlate⟩ := h
  obtain ⟨row', hrow', heffective | ⟨hrank, hgeneration⟩⟩ := hadvances _ row hrow
  · rw [← (LeaseRow.columns_of_effective heffective).1] at hlate
    exact ⟨row', hrow', hlate⟩
  · refine ⟨row', hrow', ?_⟩
    rcases hlate with hlate | hlate
    · exact .inl (hlate.trans hrank.le)
    · exact .inr (hlate.trans hgeneration.le)

end Store

end Buzz.Push
