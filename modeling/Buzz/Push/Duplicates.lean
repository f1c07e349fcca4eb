import Buzz.Push.OutboxRuns

namespace Buzz.Push
set_option autoImplicit true

/-- Not delivered and not failed. -/
def WakeState.waiting (s : WakeState) : Prop :=
  s = .pending ∨ s = .sending

/-- Each job answered as a duplicate is done, or passes the lease join as the leases are. -/
def NothingSwallowed (outcomes : List EnqueueWakeOutcome) (now : Nat) (o : Outbox) : Prop :=
  ∀ (k : Nat) id, outcomes[k]? = some (.duplicate id) → ∀ job ∈ o.jobs, job.id = id →
    job.state = .delivered ∨ job.state = .failed ∨ (o.store.leaseFor job.toWake now).isSome = true

/-- What waits for the event and the endpoint of a request is of the request's own generation, or of
an installation whose lease is as it was when the wake was enqueued, and eligible. -/
def NoLeftover (requests : List WakeRequest) (now : Nat) (o : Outbox) : Prop :=
  ∀ r ∈ requests, ∀ row, o.store.leases.lookup r.address = some row → row.eligible now = true →
    row.version.generation = r.leaseGeneration →
    ∀ job ∈ o.jobs, job.state.waiting → job.eventId = r.eventId →
      row.endpointHash = some job.endpointHash →
      if job.address = r.address then job.leaseGeneration = r.leaseGeneration
      else ∃ own, o.store.leases.lookup job.address = some own ∧ own.eligible now = true ∧
        own.version.generation = job.leaseGeneration ∧ own.endpointHash = some job.endpointHash

theorem resolve_of_eligible {s : Store} {row : LeaseRow} {r : WakeRequest} {hash : List UInt8}
    (hrow : s.leases.lookup r.address = some row) (heligible : row.eligible now = true)
    (hgeneration : row.version.generation = r.leaseGeneration)
    (hhash : row.endpointHash = some hash) : r.resolve now s = some hash := by
  rw [WakeRequest.resolve, hrow, Option.filter_some, heligible, hgeneration, decide_eq_true rfl,
    Bool.true_and, if_pos rfl, Option.bind_some, hhash]

theorem leaseFor_of_eligible {s : Store} {row : LeaseRow} {w : Wake}
    (hrow : s.leases.lookup w.address = some row) (heligible : row.eligible now = true)
    (hgeneration : row.version.generation = w.leaseGeneration)
    (hhash : row.endpointHash = some w.endpointHash) : s.leaseFor w now = some row := by
  rw [Store.leaseFor, hrow, Option.filter_some, heligible, hgeneration, hhash, decide_eq_true rfl,
    decide_eq_true rfl, Bool.and_self, Bool.and_self, if_pos rfl]

section Outcomes

variable {jobs inserted : List WakeJob} {keys : List (Option (List UInt8 × EventId))}
  {reported : List (List UInt8 × EventId)} {outcomes : List EnqueueWakeOutcome}

/-- What is answered for the first request, and for the rest. -/
theorem enqueueOutcomes_cons (h : enqueueOutcomes jobs inserted (key :: keys) reported =
    .ok outcomes) : ∃ first rest reported', outcomes = first :: rest ∧
      enqueueOutcomes jobs inserted keys reported' = .ok rest ∧
      ((key = none ∧ first = .inactiveLease) ∨ ∃ k job, key = some k ∧
        jobs.find? (fun job => job.key = k) = some job ∧
        (first = .duplicate job.id ∨ (first = .enqueued job.id ∧
          inserted.any (fun job => job.key = k) = true))) := by
  cases key with
  | none =>
    rw [enqueueOutcomes] at h
    obtain ⟨rest, hrest, rfl⟩ := ok_of_map h
    exact ⟨_, rest, reported, rfl, hrest, .inl ⟨rfl, rfl⟩⟩
  | some key =>
    rw [enqueueOutcomes] at h
    split at h
    · cases h
    · rename_i job hjob
      split at h
      · rename_i hinserted
        obtain ⟨rest, hrest, rfl⟩ := ok_of_map h
        rw [Bool.and_eq_true] at hinserted
        exact ⟨_, rest, _, rfl, hrest, .inr ⟨key, job, rfl, hjob, .inr ⟨rfl, hinserted.1⟩⟩⟩
      · obtain ⟨rest, hrest, rfl⟩ := ok_of_map h
        exact ⟨_, rest, _, rfl, hrest, .inr ⟨key, job, rfl, hjob, .inl rfl⟩⟩

/-- A duplicate is the job of the key of its request. -/
theorem duplicate_key {k : Nat} {id : Uuid}
    (h : enqueueOutcomes jobs inserted keys reported = .ok outcomes)
    (hk : outcomes[k]? = some (.duplicate id)) :
    ∃ key job, keys[k]? = some (some key) ∧ jobs.find? (fun job => job.key = key) = some job ∧
      job.id = id := by
  induction keys generalizing reported outcomes k with
  | nil =>
    cases h
    cases hk
  | cons key keys ih =>
    obtain ⟨first, rest, reported', rfl, hrest, hfirst⟩ := enqueueOutcomes_cons h
    cases k with
    | zero =>
      rw [List.getElem?_cons_zero, Option.some.injEq] at hk
      subst hk
      rcases hfirst with ⟨_, hfirst⟩ | ⟨own, job, rfl, hjob, hfirst | ⟨hfirst, _⟩⟩
      · cases hfirst
      · cases hfirst
        exact ⟨own, job, rfl, hjob, rfl⟩
      · cases hfirst
    | succ k => exact ih hrest hk

/-- Where a key was not inserted, its job is the answer. -/
theorem duplicate_of_old {k : Nat} {own : List UInt8 × EventId} {job : WakeJob}
    (h : enqueueOutcomes jobs inserted keys reported = .ok outcomes)
    (hk : keys[k]? = some (some own)) (hold : inserted.any (fun job => job.key = own) = false)
    (hjob : jobs.find? (fun job => job.key = own) = some job) :
    outcomes[k]? = some (.duplicate job.id) := by
  induction keys generalizing reported outcomes k with
  | nil => cases hk
  | cons key keys ih =>
    obtain ⟨first, rest, reported', rfl, hrest, hfirst⟩ := enqueueOutcomes_cons h
    cases k with
    | zero =>
      rw [List.getElem?_cons_zero, Option.some.injEq] at hk
      subst hk
      rcases hfirst with ⟨hnone, _⟩ | ⟨own', job', heq, hjob', hfirst | ⟨_, hinserted⟩⟩
      · cases hnone
      · cases heq
        cases hjob.symm.trans hjob'
        rw [hfirst]
        rfl
      · cases heq
        rw [hold] at hinserted
        cases hinserted
    | succ k =>
      rw [List.getElem?_cons_succ] at hk ⊢
      exact ih hrest hk

end Outcomes

theorem find?_key {jobs : List WakeJob} {job : WakeJob}
    (hkeys : (jobs.map fun job => job.key).Nodup) (hjob : job ∈ jobs) :
    jobs.find? (fun old => old.key = job.key) = some job := by
  obtain ⟨found, hfound⟩ : ∃ found, jobs.find? (fun old => old.key = job.key) = some found := by
    apply Option.isSome_iff_exists.mp
    rw [List.find?_isSome]
    exact ⟨job, hjob, decide_eq_true rfl⟩
  have hkey := List.find?_some hfound
  simp only [decide_eq_true_eq] at hkey
  rw [hfound, List.inj_on_of_nodup_map hkeys (List.mem_of_find?_eq_some hfound) hjob hkey]

/-- Without a leftover, a job that is there already can be delivered or is done. -/
theorem NoLeftover.old_job {o : Outbox} {job : WakeJob} (h : NoLeftover requests now o)
    (hr : r ∈ requests) (hkey : r.key now o.store = some job.key) (hjob : job ∈ o.jobs) :
    job.state = .delivered ∨ job.state = .failed ∨
      (o.store.leaseFor job.toWake now).isSome = true := by
  obtain ⟨hash, hresolve, hsame⟩ := Option.map_eq_some_iff.mp hkey
  obtain ⟨row, hrow, heligible, hgeneration, hhash⟩ := resolve_eq_some hresolve
  obtain ⟨rfl, hevent⟩ := Prod.mk.inj hsame
  have hlease : job.state.waiting → (o.store.leaseFor job.toWake now).isSome = true := by
    intro hwaiting
    have hown := h r hr row hrow heligible hgeneration job hjob hwaiting hevent.symm hhash
    split at hown
    · rename_i haddress
      rw [← haddress] at hrow
      rw [leaseFor_of_eligible hrow heligible (hgeneration.trans hown.symm) hhash]
      rfl
    · obtain ⟨own, hlookup, howneligible, howngeneration, hownhash⟩ := hown
      rw [leaseFor_of_eligible hlookup howneligible howngeneration hownhash]
      rfl
  cases hstate : job.state with
  | pending => exact .inr (.inr (hlease (.inl hstate)))
  | sending => exact .inr (.inr (hlease (.inr hstate)))
  | delivered => exact .inl rfl
  | failed => exact .inr (.inl rfl)

/-- A batch answers with no wake swallowed, exactly where it meets no leftover. -/
theorem duplicate_never_swallows_iff (hrun : Run WakeStep (.init events) entries o)
    (henqueue : o.enqueueWakes requests genRandomUuid now = (o', .ok outcomes)) :
    NothingSwallowed outcomes now o' ↔ NoLeftover requests now o := by
  have hkept := Outbox.Kept.of_run hrun
  rcases Outbox.enqueueWakes_cases henqueue with ⟨_, _, hresult⟩ | ⟨hstore, hinserts, houtcomes⟩
  · cases hresult
  obtain ⟨added, hjobs, hadded⟩ := hinserts.added
  have hids := hinserts.ids hkept.ids
  have hkeys := hinserts.keys hkept.keys
  rw [hjobs, List.drop_left] at houtcomes
  rw [← hjobs] at houtcomes
  constructor
  · intro h r hr row hrow heligible hgeneration job hjob hwaiting hevent hhash
    obtain ⟨k, hk⟩ := List.mem_iff_getElem?.mp hr
    have hmem : job ∈ o'.jobs := by
      rw [hjobs]
      exact List.mem_append_left _ hjob
    have hkey : r.key now o.store = some job.key := by
      rw [WakeRequest.key, resolve_of_eligible hrow heligible hgeneration hhash, Option.map_some,
        ← hevent]
      rfl
    have hold : added.any (fun own => own.key = job.key) = false := by
      rw [List.any_eq_false]
      intro own hown heq
      rw [hjobs, List.map_append, List.nodup_append] at hkeys
      exact hkeys.2.2 _ (List.mem_map_of_mem hjob) _ (List.mem_map_of_mem hown)
        (of_decide_eq_true heq).symm
    have hduplicate := duplicate_of_old houtcomes.symm
      (by rw [List.getElem?_map, hk, Option.map_some, hkey]) hold (find?_key hkeys hmem)
    have hlease : (o'.store.leaseFor job.toWake now).isSome = true := by
      rcases h k job.id hduplicate job hmem rfl with hdone | hdone | hlease
      · rcases hwaiting with hwaiting | hwaiting <;> cases hdone.symm.trans hwaiting
      · rcases hwaiting with hwaiting | hwaiting <;> cases hdone.symm.trans hwaiting
      · exact hlease
    obtain ⟨own, hown⟩ := Option.isSome_iff_exists.mp hlease
    rw [hstore] at hown
    obtain ⟨hlookup, hown, hownhash, howneligible⟩ := leaseFor_eq_some hown
    split
    · rename_i haddress
      rw [haddress, hrow, Option.some.injEq] at hlookup
      rw [← hown, ← hlookup, hgeneration]
    · exact ⟨own, hlookup, howneligible, hown, hownhash⟩
  · intro h k id hk job hjob hid
    obtain ⟨key, found, hkey, hfound, hfoundid⟩ := duplicate_key houtcomes.symm hk
    cases Outbox.eq_of_id hids (List.mem_of_find?_eq_some hfound) hjob (hfoundid.trans hid.symm)
    have hjobkey := List.find?_some hfound
    simp only [decide_eq_true_eq] at hjobkey
    rw [hstore]
    rw [hjobs] at hjob
    rcases List.mem_append.mp hjob with hjob | hjob
    · rw [List.getElem?_map] at hkey
      obtain ⟨r, hr, hrkey⟩ := Option.map_eq_some_iff.mp hkey
      rw [← hjobkey] at hrkey
      exact h.old_job (List.mem_of_getElem? hr) hrkey hjob
    · obtain ⟨row, hrow, heligible, hgeneration, hhash⟩ :=
        (Outbox.enqueued_of_mem_proposed (hadded job hjob)).lease
      rw [leaseFor_of_eligible hrow heligible hgeneration hhash]
      exact .inr (.inr rfl)

theorem duplicate_never_swallows_iff_first : ∃ entries o o' outcomes,
    Run WakeStep (.init []) entries o ∧
      o.enqueueWakes [firstRequest] (fun _ => HexId.ofNat 32 5) 0 = (o', .ok outcomes) ∧
      NothingSwallowed outcomes 0 o' := by
  have hrun : ∃ entries o o' outcomes, Run WakeStep (.init []) entries o ∧ o.jobs = [] ∧
      o.enqueueWakes [firstRequest] (fun _ => HexId.ofNat 32 5) 0 = (o', .ok outcomes) :=
    ⟨_, _, _, _, (Run.nil.snoc (@WakeStep.accept _ firstLease 16 0 _ _ rfl)).snoc
      (@WakeStep.insertEvent _ firstEvent), rfl, rfl⟩
  obtain ⟨entries, o, o', outcomes, hrun, hjobs, henqueue⟩ := hrun
  refine ⟨entries, o, o', outcomes, hrun, henqueue,
    (duplicate_never_swallows_iff hrun henqueue).mpr ?_⟩
  intro r _ row _ _ _ job hjob
  rw [hjobs] at hjob
  cases hjob

/-- The next generation of the first lease, with the same endpoint. -/
def rotatedLease : LeaseCall where
  event := ⟨HexId.ofNat 64 7, HexId.ofNat 64 2, 101, 30350, []⟩
  installationId := "phone"
  version := ⟨HexId.ofNat 64 7, 101, 2, 5000⟩
  active := some ⟨"buzz-ios-production", List.replicate 32 7, "grant", "default", .array []⟩
  sourced := rfl

/-- The job of the first generation still waits when the second asks for the same event. -/
theorem duplicate_swallows_rotated : ∃ entries o o' outcomes,
    Run WakeStep (.init []) entries o ∧
      o.enqueueWakes [{ firstRequest with leaseGeneration := 2 }] (fun _ => HexId.ofNat 32 8) 0 =
        (o', .ok outcomes) ∧ ¬ NothingSwallowed outcomes 0 o' := by
  have hrun : ∃ entries o o' outcomes job, Run WakeStep (.init []) entries o ∧
      o.enqueueWakes [{ firstRequest with leaseGeneration := 2 }] (fun _ => HexId.ofNat 32 8) 0 =
        (o', .ok outcomes) ∧ outcomes = [.duplicate (HexId.ofNat 32 5)] ∧ o'.jobs = [job] ∧
      job.id = HexId.ofNat 32 5 ∧ job.state = .pending ∧
      (o'.store.leaseFor job.toWake 0).isSome = false :=
    ⟨_, _, _, _, _, (((Run.nil.snoc (@WakeStep.accept _ firstLease 16 0 _ _ rfl)).snoc
      (@WakeStep.insertEvent _ firstEvent)).snoc
      (@WakeStep.enqueue _ [firstRequest] (fun _ => HexId.ofNat 32 5) 0 _ _ rfl)).snoc
      (@WakeStep.accept _ rotatedLease 16 0 _ _ rfl), rfl, rfl, rfl, rfl, rfl, rfl⟩
  obtain ⟨entries, o, o', outcomes, job, hrun, henqueue, rfl, hjobs, hid, hstate, hlease⟩ := hrun
  refine ⟨entries, o, o', _, hrun, henqueue, fun h => ?_⟩
  have hmem : job ∈ o'.jobs := by
    rw [hjobs]
    exact List.mem_cons_self
  rcases h 0 _ rfl job hmem hid with hdone | hdone | hsome
  · cases hstate.symm.trans hdone
  · cases hstate.symm.trans hdone
  · rw [hlease] at hsome
    cases hsome

end Buzz.Push
