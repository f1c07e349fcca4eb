import Buzz.Push.LeaseRuns
import Buzz.Push.OutboxSteps

namespace Buzz.Push
set_option autoImplicit true

def WakeEntry.claimant : WakeEntry → Option Uuid
  | .claim claimId _ _ _ => some claimId
  | _ => none

/-- No two claims have one id. -/
def UniqueClaims (entries : List WakeEntry) : Prop :=
  (entries.filterMap WakeEntry.claimant).Nodup

/-- The claims of a job, in order. -/
def claimsOf (id : Uuid) (entries : List WakeEntry) : List (Uuid × Nat) :=
  entries.filterMap (·.claimOf id)

/-- No job yet and no lease, next to any events. -/
def Outbox.init (events : List EventRow) : Outbox :=
  ⟨.init events, []⟩

/-- The wake was enqueued in the run while the row was that of its address and eligible. -/
def EnqueuedUnder (start : Outbox) (entries : List WakeEntry) (w : Wake) (row : LeaseRow) : Prop :=
  ∃ before requests now result after o o', entries =
      before ++ .enqueue requests now result :: after ∧
    Run WakeStep start before o ∧ WakeStep o (.enqueue requests now result) o' ∧
    (∀ job ∈ o.jobs, job.id ≠ w.id) ∧ (∃ job ∈ o'.jobs, job.toWake = w) ∧
    o.store.leases.lookup w.address = some row ∧ row.eligible now = true

/-- The later row is from the same event, or of a later generation. -/
def LeaseRow.Follows (row row' : LeaseRow) : Prop :=
  row'.effective = row.effective ∨ row.version.generation < row'.version.generation

/-- What the jobs say of the calls so far. -/
structure Outbox.Kept (start : Outbox) (entries : List WakeEntry) (o : Outbox) : Prop where
  ids : (o.jobs.map fun job => job.id).Nodup
  keys : (o.jobs.map fun job => job.key).Nodup
  held : ∀ job ∈ o.jobs, job.state = .sending → ∃ claimId leaseUntil,
    job.claimId = some claimId ∧ job.leaseUntil = some leaseUntil ∧
      (claimsOf job.id entries).getLast? = some (claimId, leaseUntil)
  origin : ∀ job ∈ o.jobs, ∃ row row', EnqueuedUnder start entries job.toWake row ∧
    row.version.generation = job.leaseGeneration ∧ row.endpointHash = some job.endpointHash ∧
    o.store.leases.lookup job.address = some row' ∧ row.Follows row'

theorem claimsOf_snoc_none {id : Uuid} (h : WakeEntry.claimOf id entry = none) :
    claimsOf id (entries ++ [entry]) = claimsOf id entries := by
  rw [claimsOf, List.filterMap_append, List.filterMap_cons_none h, List.filterMap_nil,
    List.append_nil]
  rfl

theorem claimsOf_snoc_some {id : Uuid} (h : WakeEntry.claimOf id entry = some claim) :
    claimsOf id (entries ++ [entry]) = claimsOf id entries ++ [claim] := by
  rw [claimsOf, List.filterMap_append, List.filterMap_cons_some h, List.filterMap_nil]
  rfl

theorem EnqueuedUnder.snoc (h : EnqueuedUnder start entries w row) (entry : WakeEntry) :
    EnqueuedUnder start (entries ++ [entry]) w row := by
  obtain ⟨before, requests, now, result, after, o, o', rfl, h⟩ := h
  refine ⟨before, requests, now, result, after ++ [entry], o, o', ?_, h⟩
  rw [List.append_assoc, List.cons_append]

theorem LeaseRow.Follows.advances {o o' : Outbox} {a : Address} {row row' : LeaseRow}
    (h : row.Follows row') (hrow' : o.store.leases.lookup a = some row')
    (hadvances : o.store.Advances o'.store) :
    ∃ next, o'.store.leases.lookup a = some next ∧ row.Follows next := by
  obtain ⟨next, hnext, hcase⟩ := hadvances a row' hrow'
  refine ⟨next, hnext, ?_⟩
  rcases hcase with hcase | ⟨_, hcase⟩
  · rcases h with h | h
    · exact .inl (hcase.trans h)
    · rw [← (columns_of_effective hcase).1] at h
      exact .inr h
  · rcases h with h | h
    · rw [(columns_of_effective h).1] at hcase
      exact .inr hcase
    · exact .inr (h.trans hcase)

namespace Outbox.Kept

variable {start o o' : Outbox} {entries : List WakeEntry} {entry : WakeEntry} {job job' : WakeJob}

theorem init (events : List EventRow) : Kept (.init events) [] (.init events) where
  ids := .nil
  keys := .nil
  held _ h := by cases h
  origin _ h := by cases h

/-- Where a job is from does not change with its state, nor with a later lease. -/
theorem origin_step (h : Kept start entries o) (hadvances : o.store.Advances o'.store)
    (hjob : job ∈ o.jobs) (hwake : job'.toWake = job.toWake) (entry : WakeEntry) :
    ∃ row row', EnqueuedUnder start (entries ++ [entry]) job'.toWake row ∧
      row.version.generation = job'.leaseGeneration ∧ row.endpointHash = some job'.endpointHash ∧
      o'.store.leases.lookup job'.address = some row' ∧ row.Follows row' := by
  obtain ⟨row, row', hunder, hgeneration, hhash, hrow', hfollows⟩ := h.origin job hjob
  obtain ⟨next, hnext, hfollows⟩ := hfollows.advances hrow' hadvances
  rw [hwake]
  exact ⟨row, next, hunder.snoc entry, hgeneration, hhash, hnext, hfollows⟩

theorem move (h : Kept start entries o) (hadvances : o.store.Advances o'.store)
    {f : WakeJob → WakeJob} (hjobs : o'.jobs = o.jobs.map f)
    (hmoves : ∀ job ∈ o.jobs, Moves entry job (f job)) :
    Kept start (entries ++ [entry]) o' := by
  have hwakes : o'.jobs.map (fun job => job.toWake) = o.jobs.map fun job => job.toWake := by
    rw [hjobs, List.map_map]
    apply List.map_congr_left
    intro job hjob
    exact (hmoves job hjob).toWake_eq
  refine ⟨?ids, ?keys, ?held, ?origin⟩
  case ids =>
    have hids := congrArg (List.map Wake.id) hwakes
    rw [List.map_map, List.map_map] at hids
    exact hids ▸ h.ids
  case keys =>
    have hkeys := congrArg (List.map Wake.key) hwakes
    rw [List.map_map, List.map_map] at hkeys
    exact hkeys ▸ h.keys
  case held =>
    intro job' hjob' hsending
    rw [hjobs] at hjob'
    obtain ⟨job, hjob, rfl⟩ := List.mem_map.mp hjob'
    have hmove := hmoves job hjob
    generalize f job = moved at hmove hsending
    cases hmove with
    | same hclaim =>
      rw [claimsOf_snoc_none hclaim]
      exact h.held job hjob hsending
    | claimed hclaim =>
      refine ⟨_, _, rfl, rfl, ?_⟩
      exact (congrArg List.getLast? (claimsOf_snoc_some hclaim)).trans List.getLast?_concat
    | released _ _ _ hreleased => exact absurd hsending hreleased
  case origin =>
    intro job' hjob'
    rw [hjobs] at hjob'
    obtain ⟨job, hjob, rfl⟩ := List.mem_map.mp hjob'
    exact h.origin_step hadvances hjob (hmoves job hjob).toWake_eq entry

theorem enqueue (h : Kept start entries o) (hrun : Run WakeStep start entries o)
    (hstep : WakeStep o (.enqueue requests now result) o') (hstore : o'.store = o.store)
    (hinserts : Inserts proposals o.jobs o'.jobs) (hproposals : ∀ job ∈ proposals, Enqueued o now job) :
    Kept start (entries ++ [.enqueue requests now result]) o' := by
  obtain ⟨added, hjobs, hadded⟩ := hinserts.added
  have hids := hinserts.ids h.ids
  refine ⟨hids, hinserts.keys h.keys, ?held, ?origin⟩
  case held =>
    intro job hjob hsending
    rw [claimsOf_snoc_none rfl]
    rw [hjobs] at hjob
    rcases List.mem_append.mp hjob with hjob | hjob
    · exact h.held job hjob hsending
    · have hpending := (hproposals job (hadded job hjob)).state
      rw [hsending] at hpending
      cases hpending
  case origin =>
    intro job hjob
    have hmem := hjob
    rw [hjobs] at hjob
    rcases List.mem_append.mp hjob with hjob | hjob
    · exact h.origin_step (.of_leases_eq (congrArg Store.leases hstore)) hjob rfl _
    · obtain ⟨row, hrow, heligible, hgeneration, hhash⟩ := (hproposals job (hadded job hjob)).lease
      refine ⟨row, row, ?_, hgeneration, hhash, ?_, .inl rfl⟩
      · refine ⟨entries, requests, now, result, [], o, o', rfl, hrun, hstep, ?_, ?_, hrow, heligible⟩
        · intro old hold
          rw [hjobs, List.map_append, List.nodup_append] at hids
          exact hids.2.2 _ (List.mem_map_of_mem hold) _ (List.mem_map_of_mem hjob)
        · exact ⟨job, hmem, rfl⟩
      · rw [hstore]
        exact hrow

theorem step (h : Kept start entries o) (hrun : Run WakeStep start entries o)
    (hstep : WakeStep o entry o') : Kept start (entries ++ [entry]) o' := by
  have heffect := hstep.effect h.ids
  rcases heffect.jobs with ⟨f, hjobs, hmoves⟩ |
    ⟨requests, now, result, proposals, rfl, hstore, hinserts, hproposals⟩
  · exact h.move heffect.advances hjobs hmoves
  · exact h.enqueue hrun hstep hstore hinserts hproposals

theorem of_run (hrun : Run WakeStep (.init events) entries o) :
    Kept (.init events) entries o := by
  have hboth : Run WakeStep (.init events) entries o ∧ Kept (.init events) entries o := by
    induction hrun with
    | nil => exact ⟨.nil, .init events⟩
    | snoc _ hstep ih => exact ⟨ih.1.snoc hstep, ih.2.step ih.1 hstep⟩
  exact hboth.2

/-- A job that is done stays as it is, and no call claims it. -/
theorem terminal_step (h : Kept start entries o) (hstep : WakeStep o entry o')
    (hjob : job ∈ o.jobs) (hterminal : job.state = .delivered ∨ job.state = .failed) :
    job ∈ o'.jobs ∧ entry.claimOf job.id = none := by
  rcases (hstep.effect h.ids).jobs with ⟨f, hjobs, hmoves⟩ |
    ⟨requests, now, result, proposals, rfl, _, hinserts, _⟩
  · have hmove := hmoves job hjob
    have hmem : f job ∈ o'.jobs := by
      rw [hjobs]
      exact List.mem_map_of_mem hjob
    generalize f job = moved at hmove hmem
    cases hmove with
    | same hclaim => exact ⟨hmem, hclaim⟩
    | claimed _ hstate =>
      rcases hterminal with hterminal | hterminal <;> rcases hstate with hstate | hstate <;>
        cases hterminal.symm.trans hstate
    | released _ hstate =>
      rcases hterminal with hterminal | hterminal <;> cases hterminal.symm.trans hstate
  · obtain ⟨added, hjobs, _⟩ := hinserts.added
    rw [hjobs]
    exact ⟨List.mem_append_left _ hjob, rfl⟩

theorem terminal_run (hrun : Run WakeStep (.init events) entries o) (hjob : job ∈ o.jobs)
    (hterminal : job.state = .delivered ∨ job.state = .failed) (hmore : Run WakeStep o more o') :
    job ∈ o'.jobs ∧ claimsOf job.id more = [] := by
  induction hmore with
  | nil => exact ⟨hjob, rfl⟩
  | snoc hbefore hstep ih =>
    obtain ⟨hmem, hclaims⟩ := ih
    obtain ⟨hmem', hclaim⟩ := (of_run (hrun.append hbefore)).terminal_step hstep hmem hterminal
    rw [claimsOf_snoc_none hclaim]
    exact ⟨hmem', hclaims⟩

end Outbox.Kept

/-- What a wake is sent for. -/
structure Delivery (start : Outbox) (entries : List WakeEntry) (o : Outbox) (id claimId : Uuid)
    (now : Nat) (wake : ClaimedWake) : Prop where
  latest : ∃ leaseUntil, (claimsOf id entries).getLast? = some (claimId, leaseUntil) ∧
    now ≤ leaseUntil
  lease : ∃ job ∈ o.jobs, job.id = id ∧ wake.address = job.address ∧ wake.eventId = job.eventId ∧
    ∃ row, o.store.leases.lookup job.address = some row ∧ row.active = true ∧
      row.endpointEnabled = true ∧ epochSecs now < row.version.expiresAt ∧
      row.version.generation = job.leaseGeneration ∧ row.endpointHash = some job.endpointHash ∧
      row.endpointGrant = some wake.endpointGrant ∧
      ∃ first, EnqueuedUnder start entries job.toWake first ∧ row.effective = first.effective
  event : ∃ event ∈ o.store.events, event.id = wake.eventId ∧ event.deletedAt = none

/-- The calls of a worker that holds a claim no more. -/
def Outbox.Refuses (o : Outbox) (id claimId : Uuid) : Prop :=
  o.completeWake id claimId = (o, false) ∧
    (∀ nextAttemptAt, o.retryWake id claimId nextAttemptAt = (o, false)) ∧
    o.failWake id claimId = (o, false)

/-- What the outbox promises, after any calls. -/
structure Outbox.Contract (start : Outbox) (entries : List WakeEntry) (o : Outbox) : Prop where
  deliver : ∀ id claimId now wake, o.revalidateWakeForSend id claimId now = .deliver wake →
    Delivery start entries o id claimId now wake
  fenced : ∀ id claimId leaseUntil earlier later,
    claimsOf id entries = earlier ++ (claimId, leaseUntil) :: later → later ≠ [] →
      o.Refuses id claimId
  terminal : ∀ job ∈ o.jobs, job.state = .delivered ∨ job.state = .failed →
    ∀ more o', Run WakeStep o more o' → job ∈ o'.jobs ∧ claimsOf job.id more = []
  unique : (o.jobs.map fun job => job.key).Nodup

theorem WakeJob.heldBy_iff {job : WakeJob} {id claimId : Uuid} : job.heldBy id claimId = true ↔
    job.id = id ∧ job.claimId = some claimId ∧ job.state = .sending := by
  rw [heldBy, Bool.and_eq_true, Bool.and_eq_true, decide_eq_true_iff, decide_eq_true_iff,
    decide_eq_true_iff, and_assoc]

namespace Outbox

variable {start o : Outbox} {entries : List WakeEntry}

theorem settle_of_not_held {id claimId : Uuid} (f : WakeJob → WakeJob)
    (h : ∀ job ∈ o.jobs, job.heldBy id claimId = false) : o.settle id claimId f = (o, false) := by
  have hjobs : (o.jobs.map fun job => if job.heldBy id claimId then f job else job) = o.jobs := by
    have hsame : ∀ job ∈ o.jobs, (if job.heldBy id claimId then f job else job) = job := by
      intro job hjob
      rw [h job hjob, if_neg Bool.false_ne_true]
    exact (List.map_congr_left hsame).trans (List.map_id' _)
  have hcount : o.jobs.countP (·.heldBy id claimId) = 0 := by
    rw [List.countP_eq_zero]
    intro job hjob
    rw [h job hjob]
    exact Bool.false_ne_true
  rw [settle, hjobs, hcount]
  rfl

theorem map_claimsOf_sublist (id : Uuid) (entries : List WakeEntry) :
    ((claimsOf id entries).map Prod.fst).Sublist (entries.filterMap WakeEntry.claimant) := by
  induction entries with
  | nil => exact .slnil
  | cons entry entries ih =>
    rw [claimsOf] at ih ⊢
    cases entry with
    | claim claimId leaseUntil now wakes =>
      rw [List.filterMap_cons, List.filterMap_cons, WakeEntry.claimOf, WakeEntry.claimant]
      split
      · exact .cons _ ih
      · rename_i heq
        split at heq
        · cases heq
          exact .cons_cons _ ih
        · cases heq
    | _ => exact ih

/-- A claim id of an earlier claim of a job is not that of its last. -/
theorem Kept.refuses {id claimId : Uuid} (h : Kept start entries o) (hunique : UniqueClaims entries)
    (hclaims : claimsOf id entries = earlier ++ (claimId, leaseUntil) :: later)
    (hlater : later ≠ []) : o.Refuses id claimId := by
  have hnodup := (map_claimsOf_sublist id entries).nodup hunique
  have hheld : ∀ job ∈ o.jobs, job.heldBy id claimId = false := by
    intro job hjob
    rw [← Bool.not_eq_true, WakeJob.heldBy_iff]
    rintro ⟨rfl, hclaim, hsending⟩
    obtain ⟨own, until', hown, _, hlast⟩ := h.held job hjob hsending
    rw [hclaim, Option.some.injEq] at hown
    subst hown
    rw [hclaims, List.getLast?_append_of_ne_nil _ (List.cons_ne_nil _ _),
      List.getLast?_cons_of_ne_nil hlater] at hlast
    rw [hclaims, List.map_append, List.map_cons, List.nodup_append] at hnodup
    have hmem : claimId ∈ later.map Prod.fst :=
      List.mem_map.mpr ⟨_, List.mem_of_getLast? hlast, rfl⟩
    exact (List.nodup_cons.mp hnodup.2.1).1 hmem
  exact ⟨settle_of_not_held _ hheld, fun _ => settle_of_not_held _ hheld,
    settle_of_not_held _ hheld⟩

theorem Kept.delivery {id : Uuid} (h : Kept start entries o)
    (hdeliver : o.revalidateWakeForSend id claimId now = .deliver wake) :
    Delivery start entries o id claimId now wake := by
  rw [revalidateWakeForSend] at hdeliver
  split at hdeliver
  · cases hdeliver
  · rename_i job hfind
    have hjob := List.mem_of_find?_eq_some hfind
    have hconditions := List.find?_some hfind
    simp only [Bool.and_eq_true, WakeJob.heldBy_iff, decide_eq_true_eq] at hconditions
    obtain ⟨⟨⟨hid, hclaim, hsending⟩, huntil⟩, _⟩ := hconditions
    split at hdeliver
    · rename_i row event events hlease hevents
      obtain ⟨hrow, hgeneration, hhash, heligible⟩ := leaseFor_eq_some hlease
      rw [LeaseRow.eligible, Bool.and_eq_true, Bool.and_eq_true, decide_eq_true_iff] at heligible
      obtain ⟨⟨hactive, henabled⟩, hunexpired⟩ := heligible
      obtain ⟨grant, hgrant⟩ := Option.isSome_iff_exists.mp (row.active_columns hactive).2
      rw [WakeJob.claimedWake, hclaim, hgrant] at hdeliver
      cases hdeliver
      obtain ⟨own, until', hown, hownuntil, hlast⟩ := h.held job hjob hsending
      rw [hclaim, Option.some.injEq] at hown
      subst hown
      rw [hownuntil, Option.any_some, decide_eq_true_iff] at huntil
      obtain ⟨first, row', hunder, hfirst, _, hrow', hfollows⟩ := h.origin job hjob
      cases hrow.symm.trans hrow'
      have heffective : row.effective = first.effective := by
        rcases hfollows with hfollows | hfollows
        · exact hfollows
        · rw [hfirst, hgeneration] at hfollows
          exact absurd hfollows (lt_irrefl _)
      have hevent : event ∈ o.store.liveEvents job.eventId := by
        rw [hevents]
        exact List.mem_cons_self
      obtain ⟨hmem, hlive⟩ := List.mem_filter.mp hevent
      rw [Bool.and_eq_true, decide_eq_true_iff, Option.isNone_iff_eq_none] at hlive
      exact ⟨⟨until', hid ▸ hlast, huntil⟩, ⟨job, hjob, hid, rfl, rfl, row, hrow, hactive, henabled,
        hunexpired, hgeneration, hhash, hgrant, first, hunder, heffective⟩, ⟨event, hmem, hlive⟩⟩
    · cases hdeliver

end Outbox

/-- Every run keeps the contract of the outbox. -/
theorem wake_outbox_contract (hrun : Run WakeStep (.init events) entries o)
    (hunique : UniqueClaims entries) : Outbox.Contract (.init events) entries o := by
  have hkept := Outbox.Kept.of_run hrun
  refine ⟨?deliver, ?fenced, ?terminal, hkept.keys⟩
  case deliver =>
    intro id claimId now wake hdeliver
    exact hkept.delivery hdeliver
  case fenced =>
    intro id claimId leaseUntil earlier later hclaims hlater
    exact hkept.refuses hunique hclaims hlater
  case terminal =>
    intro job hjob hterminal more o' hmore
    exact Outbox.Kept.terminal_run hrun hjob hterminal hmore

def firstEvent : EventRow where
  id := HexId.ofNat 64 3
  pubkey := HexId.ofNat 64 4
  createdAt := 90
  kind := 9
  receivedAt := 0
  channelId := none
  dTag := none
  deletedAt := none

def firstRequest : WakeRequest where
  address := firstLease.address
  leaseGeneration := 1
  eventId := firstEvent.id
  wakeClass := "default"
  expiresAt := 60

/-- A lease, a message and its wake, claimed and about to be sent. -/
theorem wake_outbox_contract_claimed : ∃ entries o wake,
    o.revalidateWakeForSend (HexId.ofNat 32 5) (HexId.ofNat 32 6) 0 = .deliver wake ∧
      Outbox.Contract (.init []) entries o := by
  have hrun : ∃ entries o wake, Run WakeStep (.init []) entries o ∧
      entries.filterMap WakeEntry.claimant = [HexId.ofNat 32 6] ∧
      o.revalidateWakeForSend (HexId.ofNat 32 5) (HexId.ofNat 32 6) 0 = .deliver wake := by
    refine ⟨_, _, _, (((Run.nil.snoc (@WakeStep.accept _ firstLease 16 0 _ _ rfl)).snoc
      (@WakeStep.insertEvent _ firstEvent)).snoc
      (@WakeStep.enqueue _ [firstRequest] (fun _ => HexId.ofNat 32 5) 0 _ _ rfl)).snoc
      (@WakeStep.claim _ (fun _ => false) 1 (HexId.ofNat 32 6) 10 0 _ _ rfl), rfl, rfl⟩
  obtain ⟨entries, o, wake, hrun, hclaimants, hdeliver⟩ := hrun
  refine ⟨entries, o, wake, hdeliver, wake_outbox_contract hrun ?_⟩
  rw [UniqueClaims, hclaimants]
  exact List.nodup_singleton _

end Buzz.Push
