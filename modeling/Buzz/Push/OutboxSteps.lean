import Buzz.Push.LeaseSteps
import Buzz.Push.Outbox

namespace Buzz.Push
set_option autoImplicit true

/-- A call and what it answered. Events come and go next to the calls. -/
inductive WakeEntry where
  | accept (c : LeaseCall) (maxActiveLeases : Int) (now : Nat)
      (result : Except DbError AcceptLeaseOutcome)
  | replace (a : Address) (version : LeaseVersion) (active : Option ActiveLease) (now : Nat)
      (result : Except DbError ReplaceLeaseOutcome)
  | disable (a : Address) (generation : Int) (result : Bool)
  | insertEvent (row : EventRow)
  | deleteEvent (id : EventId) (now : Nat)
  | enqueue (requests : List WakeRequest) (now : Nat)
      (result : Except DbError (List EnqueueWakeOutcome))
  | claim (claimId : Uuid) (leaseUntil now : Nat) (wakes : List ClaimedWake)
  | revalidate (id claimId : Uuid) (now : Nat) (result : RevalidateWakeOutcome)
  | complete (id claimId : Uuid) (result : Bool)
  | retry (id claimId : Uuid) (nextAttemptAt : Nat) (result : Bool)
  | fail (id claimId : Uuid) (result : Bool)

/-- The calls of any number of workers, each at any time of the clock. -/
inductive WakeStep (o : Outbox) : WakeEntry → Outbox → Prop where
  | accept (h : o.store.acceptLeaseEvent c maxActiveLeases now = (store, result)) :
      WakeStep o (.accept c maxActiveLeases now result) { o with store := store }
  | replace (h : o.store.replaceLease a version active now = (store, result)) :
      WakeStep o (.replace a version active now result) { o with store := store }
  | disable (h : o.store.disableEndpointGeneration a generation = (store, result)) :
      WakeStep o (.disable a generation result) { o with store := store }
  | insertEvent : WakeStep o (.insertEvent row)
      { o with store := { o.store with events := o.store.events ++ [row] } }
  | deleteEvent (id : EventId) (now : Nat) :
      WakeStep o (.deleteEvent id now) { o with store := o.store.softDelete id now }
  | enqueue (h : o.enqueueWakes requests genRandomUuid now = (o', result)) :
      WakeStep o (.enqueue requests now result) o'
  | claim (h : o.claimDueWakes locked limit claimId leaseUntil now = (o', wakes)) :
      WakeStep o (.claim claimId leaseUntil now wakes) o'
  | revalidate {id : Uuid} (h : o.revalidateWakeForSend id claimId now = result) :
      WakeStep o (.revalidate id claimId now result) o
  | complete {id : Uuid} (h : o.completeWake id claimId = (o', result)) :
      WakeStep o (.complete id claimId result) o'
  | retry {id : Uuid} (h : o.retryWake id claimId nextAttemptAt = (o', result)) :
      WakeStep o (.retry id claimId nextAttemptAt result) o'
  | fail {id : Uuid} (h : o.failWake id claimId = (o', result)) :
      WakeStep o (.fail id claimId result) o'

/-- The claim of a job that an entry is. -/
def WakeEntry.claimOf (id : Uuid) : WakeEntry → Option (Uuid × Nat)
  | .claim claimId leaseUntil _ wakes =>
    if wakes.any fun wake => wake.id = id then some (claimId, leaseUntil) else none
  | _ => none

/-- What an entry does to a job that is there. -/
inductive Moves (entry : WakeEntry) : WakeJob → WakeJob → Prop where
  | same (h : entry.claimOf job.id = none) : Moves entry job job
  | claimed (h : entry.claimOf job.id = some (claimId, leaseUntil))
      (hstate : job.state = .pending ∨ job.state = .sending) :
      Moves entry job (job.claim claimId leaseUntil)
  | released (h : entry.claimOf job.id = none) (hstate : job.state = .sending)
      (hwake : job'.toWake = job.toWake) (hreleased : job'.state ≠ .sending) :
      Moves entry job job'

theorem Moves.toWake_eq (h : Moves entry job job') : job'.toWake = job.toWake := by
  cases h with
  | same => rfl
  | claimed => rfl
  | released _ _ hwake _ => exact hwake

theorem resolve_eq_some {s : Store} {hash : List UInt8} (h : WakeRequest.resolve now s r = some hash) :
    ∃ row, s.leases.lookup r.address = some row ∧ row.eligible now = true ∧
      row.version.generation = r.leaseGeneration ∧ row.endpointHash = some hash := by
  obtain ⟨row, hrow, hhash⟩ := Option.bind_eq_some_iff.mp h
  obtain ⟨hlookup, hfilter⟩ := Option.filter_eq_some_iff.mp hrow
  rw [Bool.and_eq_true, decide_eq_true_iff] at hfilter
  exact ⟨row, hlookup, hfilter.1, hfilter.2, hhash⟩

theorem leaseFor_eq_some {s : Store} (h : s.leaseFor w now = some row) :
    s.leases.lookup w.address = some row ∧ row.version.generation = w.leaseGeneration ∧
      row.endpointHash = some w.endpointHash ∧ row.eligible now = true := by
  obtain ⟨hlookup, hfilter⟩ := Option.filter_eq_some_iff.mp h
  rw [Bool.and_eq_true, Bool.and_eq_true, decide_eq_true_iff, decide_eq_true_iff] at hfilter
  exact ⟨hlookup, hfilter.1.1, hfilter.1.2, hfilter.2⟩

/-- One row of an insert. -/
theorem insertWake_ok (h : insertWake jobs job = .ok jobs') :
    (jobs' = jobs ∧ ∃ old ∈ jobs, old.key = job.key) ∨
      (jobs' = jobs ++ [job] ∧ (∀ old ∈ jobs, old.key ≠ job.key) ∧
        ∀ old ∈ jobs, old.id ≠ job.id) := by
  rw [insertWake] at h
  split at h
  · cases h
  · split at h
    · rename_i hkey
      cases h
      obtain ⟨old, hold, hsame⟩ := List.any_eq_true.mp hkey
      exact .inl ⟨rfl, old, hold, of_decide_eq_true hsame⟩
    · rename_i hkey
      split at h
      · cases h
      · rename_i hid
        cases h
        refine .inr ⟨rfl, ?_, ?_⟩
        · intro old hold hsame
          exact hkey (List.any_eq_true.mpr ⟨old, hold, decide_eq_true hsame⟩)
        · intro old hold hsame
          exact hid (List.any_eq_true.mpr ⟨old, hold, decide_eq_true hsame⟩)

/-- What a batch adds has keys and ids of its own, and no key of it is missing. -/
structure Inserts (proposals jobs jobs' : List WakeJob) : Prop where
  added : ∃ added, jobs' = jobs ++ added ∧ ∀ job ∈ added, job ∈ proposals
  present : ∀ job ∈ proposals, ∃ own ∈ jobs', own.key = job.key
  keys : (jobs.map fun job => job.key).Nodup → (jobs'.map fun job => job.key).Nodup
  ids : (jobs.map fun job => job.id).Nodup → (jobs'.map fun job => job.id).Nodup

theorem nodup_map_snoc {f : α → β} {l : List α} (h : (l.map f).Nodup) (ha : ∀ b ∈ l, f b ≠ f a) :
    ((l ++ [a]).map f).Nodup := by
  rw [List.map_append, List.map_singleton, List.nodup_append]
  refine ⟨h, List.nodup_singleton _, ?_⟩
  intro x hx y hy
  obtain ⟨b, hb, rfl⟩ := List.mem_map.mp hx
  rw [List.mem_singleton.mp hy]
  exact ha b hb

theorem foldlM_insertWake (h : proposals.foldlM insertWake jobs = .ok jobs') :
    Inserts proposals jobs jobs' := by
  induction proposals generalizing jobs with
  | nil =>
    cases h
    exact ⟨⟨[], (List.append_nil _).symm, (fun _ h => by cases h)⟩, (fun _ h => by cases h), id, id⟩
  | cons job proposals ih =>
    rw [List.foldlM_cons] at h
    obtain ⟨next, hnext, h⟩ := ok_of_bind h
    obtain ⟨⟨added, rfl, hadded⟩, hpresent, hkeys, hids⟩ := ih h
    rcases insertWake_ok hnext with ⟨rfl, old, hold, hkey⟩ | ⟨rfl, hkey, hid⟩
    · refine ⟨⟨added, rfl, fun j hj => List.mem_cons_of_mem _ (hadded j hj)⟩, ?_, hkeys, hids⟩
      intro j hj
      rcases List.mem_cons.mp hj with rfl | hj
      · exact ⟨old, List.mem_append_left _ hold, hkey⟩
      · exact hpresent j hj
    · refine ⟨⟨job :: added, List.append_assoc .., ?_⟩, ?_, ?_, ?_⟩
      · intro j hj
        rcases List.mem_cons.mp hj with rfl | hj
        · exact List.mem_cons_self
        · exact List.mem_cons_of_mem _ (hadded j hj)
      · intro j hj
        rcases List.mem_cons.mp hj with rfl | hj
        · exact ⟨j, by simp, rfl⟩
        · exact hpresent j hj
      · intro hnodup
        exact hkeys (nodup_map_snoc hnodup hkey)
      · intro hnodup
        exact hids (nodup_map_snoc hnodup hid)

/-- What a batch may insert: pending jobs, each for a lease that is current and eligible. -/
structure Enqueued (o : Outbox) (now : Nat) (job : WakeJob) : Prop where
  state : job.state = .pending
  lease : ∃ row, o.store.leases.lookup job.address = some row ∧ row.eligible now = true ∧
    row.version.generation = job.leaseGeneration ∧ row.endpointHash = some job.endpointHash

/-- What a call does, to the leases and to the jobs. -/
structure Effect (entry : WakeEntry) (o o' : Outbox) : Prop where
  advances : o.store.Advances o'.store
  jobs : (∃ f, o'.jobs = o.jobs.map f ∧ ∀ job ∈ o.jobs, Moves entry job (f job)) ∨
    ∃ requests now result proposals, entry = .enqueue requests now result ∧ o'.store = o.store ∧
      Inserts proposals o.jobs o'.jobs ∧ ∀ job ∈ proposals, Enqueued o now job

namespace Outbox

variable {o o' : Outbox} {job job' : WakeJob}

theorem mem_proposed (h : job ∈ o.proposed requests genRandomUuid now) :
    ∃ r ∈ requests, ∃ hash id, r.resolve now o.store = some hash ∧ job = r.job id now hash := by
  obtain ⟨⟨r, k⟩, hr, hjob⟩ := List.mem_filterMap.mp h
  obtain ⟨hash, hresolve, rfl⟩ := Option.map_eq_some_iff.mp hjob
  exact ⟨r, List.fst_mem_of_mem_zipIdx hr, hash, _, hresolve, rfl⟩

theorem enqueued_of_mem_proposed (h : job ∈ o.proposed requests genRandomUuid now) :
    Enqueued o now job := by
  obtain ⟨r, _, hash, id, hresolve, rfl⟩ := mem_proposed h
  exact ⟨rfl, resolve_eq_some hresolve⟩

theorem enqueueWakes_cases (h : o.enqueueWakes requests genRandomUuid now = (o', result)) :
    (o' = o ∧ ∃ violation, result = .error (.database violation)) ∨
      (o'.store = o.store ∧ Inserts (o.proposed requests genRandomUuid now) o.jobs o'.jobs ∧
        result = enqueueOutcomes o'.jobs (o'.jobs.drop o.jobs.length)
          (requests.map (·.key now o.store)) []) := by
  rw [enqueueWakes] at h
  split at h
  · rename_i violation _
    cases h
    exact .inl ⟨rfl, violation, rfl⟩
  · rename_i jobs hjobs
    cases h
    exact .inr ⟨rfl, foldlM_insertWake hjobs, rfl⟩

/-- A candidate is a claimable job. -/
theorem mem_candidates {c : WakeJob × EventRow} (h : c ∈ o.candidates locked limit now) :
    c.1 ∈ o.jobs ∧ o.claimable now c.1 = true := by
  have hc := (List.mem_filter.mp (List.mem_of_mem_take h)).1
  obtain ⟨job, hjob, hevent⟩ := List.mem_flatMap.mp hc
  obtain ⟨event, _, rfl⟩ := List.mem_map.mp hevent
  exact List.mem_filter.mp ((List.mem_insertionSort _).mp hjob)

theorem claimable_iff : o.claimable now job = true ↔ epochSecs now < job.expiresAt ∧
    job.nextAttemptAt ≤ now ∧ (job.state = .pending ∨ (job.state = .sending ∧
      job.leaseUntil.any (· < now) = true)) ∧ (o.store.leaseFor job.toWake now).isSome = true := by
  rw [claimable, Bool.and_eq_true, Bool.and_eq_true, Bool.and_eq_true, Bool.or_eq_true,
    Bool.and_eq_true, decide_eq_true_iff, decide_eq_true_iff, decide_eq_true_iff,
    decide_eq_true_iff, and_assoc, and_assoc]

theorem eq_of_id (hids : (o.jobs.map fun job => job.id).Nodup) (hjob : job ∈ o.jobs)
    (hjob' : job' ∈ o.jobs) (h : job.id = job'.id) : job = job' :=
  List.inj_on_of_nodup_map hids hjob hjob' h

/-- A claimed job is among the answers. -/
theorem claimedWake_isSome (hrow : o.store.leaseFor job.toWake now = some row)
    (channelId : Option Uuid) (claimId : Uuid) (leaseUntil : Nat) :
    ∃ wake, (job.claim claimId leaseUntil).claimedWake channelId row = some wake ∧
      wake.id = job.id := by
  have heligible := (leaseFor_eq_some hrow).2.2.2
  rw [LeaseRow.eligible, Bool.and_eq_true, Bool.and_eq_true] at heligible
  obtain ⟨grant, hgrant⟩ := Option.isSome_iff_exists.mp (row.active_columns heligible.1.1).2
  rw [WakeJob.claimedWake, WakeJob.claim, hgrant]
  exact ⟨_, rfl, rfl⟩

theorem claimedWake_id (h : job.claimedWake channelId row = some wake) : wake.id = job.id := by
  rw [WakeJob.claimedWake] at h
  split at h
  · cases h
    rfl
  · cases h

theorem claimDueWakes_moves (hids : (o.jobs.map fun job => job.id).Nodup)
    (h : o.claimDueWakes locked limit claimId leaseUntil now = (o', wakes)) :
    o'.store = o.store ∧ ∃ f, o'.jobs = o.jobs.map f ∧
      ∀ job ∈ o.jobs, Moves (.claim claimId leaseUntil now wakes) job (f job) := by
  rw [claimDueWakes] at h
  obtain ⟨ho', hwakes⟩ := Prod.mk.inj h
  subst ho'
  refine ⟨rfl, _, rfl, ?_⟩
  intro job hjob
  split
  · rename_i hany
    obtain ⟨c, hc, hid⟩ := List.any_eq_true.mp hany
    obtain ⟨hcjob, hclaimable⟩ := mem_candidates hc
    rw [eq_of_id hids hcjob hjob (of_decide_eq_true hid)] at hclaimable
    obtain ⟨_, _, hstate, hlease⟩ := claimable_iff.mp hclaimable
    apply Moves.claimed
    · rw [WakeEntry.claimOf, if_pos]
      obtain ⟨c', hc'⟩ : ∃ c', (o.candidates locked limit now).find?
          (fun c => c.1.id = job.id) = some c' := by
        apply Option.isSome_iff_exists.mp
        rw [List.find?_isSome]
        exact ⟨c, hc, hid⟩
      obtain ⟨row, hrow⟩ := Option.isSome_iff_exists.mp hlease
      obtain ⟨wake, hwake, hwakeid⟩ := claimedWake_isSome hrow c'.2.channelId claimId leaseUntil
      rw [List.any_eq_true, ← hwakes]
      refine ⟨wake, List.mem_filterMap.mpr ⟨job, hjob, ?_⟩, decide_eq_true hwakeid⟩
      rw [hc', Option.bind_some, hrow, Option.bind_some, hwake]
    · rcases hstate with hstate | hstate
      · exact .inl hstate
      · exact .inr hstate.1
  · rename_i hany
    apply Moves.same
    rw [WakeEntry.claimOf, if_neg]
    intro hwake
    obtain ⟨wake, hwake, hid⟩ := List.any_eq_true.mp hwake
    rw [← hwakes] at hwake
    obtain ⟨own, _, hanswer⟩ := List.mem_filterMap.mp hwake
    obtain ⟨c, hc, hanswer⟩ := Option.bind_eq_some_iff.mp hanswer
    obtain ⟨row, _, hanswer⟩ := Option.bind_eq_some_iff.mp hanswer
    have hownid := claimedWake_id hanswer
    rw [WakeJob.claim] at hownid
    apply hany
    rw [List.any_eq_true]
    refine ⟨c, List.mem_of_find?_eq_some hc, ?_⟩
    have hcid := List.find?_some hc
    simp only [decide_eq_true_eq] at hcid
    rw [decide_eq_true_iff, hcid, ← hownid]
    exact of_decide_eq_true hid

theorem settle_moves {id : Uuid} (h : o.settle id claimId f = (o', result))
    (hf : ∀ job : WakeJob, (f job).toWake = job.toWake ∧ (f job).state ≠ .sending)
    (hentry : ∀ id, entry.claimOf id = none) : o'.store = o.store ∧
      ∃ g, o'.jobs = o.jobs.map g ∧ ∀ job ∈ o.jobs, Moves entry job (g job) := by
  rw [settle] at h
  obtain ⟨ho', _⟩ := Prod.mk.inj h
  subst ho'
  refine ⟨rfl, _, rfl, ?_⟩
  intro job _
  split
  · rename_i hheld
    rw [WakeJob.heldBy, Bool.and_eq_true, decide_eq_true_iff] at hheld
    exact .released (hentry _) hheld.2 (hf job).1 (hf job).2
  · exact .same (hentry _)

end Outbox

theorem effect_of_moves {o o' : Outbox} (h : o'.store = o.store ∧ ∃ f, o'.jobs = o.jobs.map f ∧
    ∀ job ∈ o.jobs, Moves entry job (f job)) : Effect entry o o' :=
  ⟨.of_leases_eq (congrArg Store.leases h.1), .inl h.2⟩

theorem effect_of_store {o : Outbox} (h : o.store.Advances store)
    (hentry : ∀ id, entry.claimOf id = none) : Effect entry o { o with store := store } :=
  ⟨h, .inl ⟨fun job => job, (List.map_id' _).symm, fun _ _ => .same (hentry _)⟩⟩

theorem WakeStep.effect {o o' : Outbox} (h : WakeStep o entry o')
    (hids : (o.jobs.map fun job => job.id).Nodup) : Effect entry o o' := by
  cases h with
  | accept h => exact effect_of_store (Store.acceptLeaseEvent_advances h) fun _ => rfl
  | replace h => exact effect_of_store (Store.replaceLease_advances h) fun _ => rfl
  | disable h => exact effect_of_store (Store.disableEndpointGeneration_advances h) fun _ => rfl
  | insertEvent => exact effect_of_store (.of_leases_eq rfl) fun _ => rfl
  | deleteEvent => exact effect_of_store (.of_leases_eq rfl) fun _ => rfl
  | enqueue h =>
    rcases Outbox.enqueueWakes_cases h with ⟨rfl, _⟩ | ⟨hstore, hinserts, _⟩
    · exact effect_of_store (.refl _) fun _ => rfl
    · exact ⟨.of_leases_eq (congrArg Store.leases hstore),
        .inr ⟨_, _, _, _, rfl, hstore, hinserts, fun _ => Outbox.enqueued_of_mem_proposed⟩⟩
  | claim h => exact effect_of_moves (Outbox.claimDueWakes_moves hids h)
  | revalidate => exact effect_of_store (.refl _) fun _ => rfl
  | complete h =>
    apply effect_of_moves
    exact Outbox.settle_moves h (fun _ => ⟨rfl, by rintro ⟨⟩⟩) fun _ => rfl
  | retry h =>
    apply effect_of_moves
    exact Outbox.settle_moves h (fun _ => ⟨rfl, by rintro ⟨⟩⟩) fun _ => rfl
  | fail h =>
    apply effect_of_moves
    exact Outbox.settle_moves h (fun _ => ⟨rfl, by rintro ⟨⟩⟩) fun _ => rfl

end Buzz.Push
