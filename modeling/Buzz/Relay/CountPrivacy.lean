import Buzz.Db.EventFrame
import Buzz.Relay.Count

namespace Buzz
set_option autoImplicit true

/-- The channels that one filter asks for. -/
def requestedChannels (f : Filter) : List Uuid :=
  (extractChannelIdsFromFilters [f]).getD []

theorem extractChannelIdsFromFilters_singleton (f : Filter) :
    extractChannelIdsFromFilters [f] =
      f.hValues.map fun values => (values.filterMap Uuid.parse).foldl pushNew [] := by
  rw [extractChannelIdsFromFilters, extractChannelIdsLoop]
  cases f.hValues with
  | none => rfl
  | some values => rfl

namespace CountContext
variable {ctx : CountContext}

def Cached (ctx : CountContext) (chId : Uuid) : Prop :=
  ∃ ids, ctx.access.accessibleChannelIdsCached ctx.community ctx.reader = .ok ids ∧ chId ∈ ids

/-- The reader may read the channel: the token covers it and the reader is a member, by the
cache or by the database. -/
def CanAccess (ctx : CountContext) (chId : Uuid) : Prop :=
  tokenAllows ctx.tokenChannelIds chId = true ∧
    (ctx.Cached chId ∨ ctx.access.isMember ctx.community chId ctx.reader = .ok true)

/-- Asking for the channel does not run into a database error. -/
def LookupAnswers (ctx : CountContext) (chId : Uuid) : Prop :=
  tokenAllows ctx.tokenChannelIds chId = true → ¬ctx.Cached chId →
    ∃ member, ctx.access.isMember ctx.community chId ctx.reader = .ok member

/-- What holds of the accessible vector all along a request. -/
structure AccessOk (ctx : CountContext) (accessible : List Uuid) : Prop where
  sound : ∀ chId ∈ accessible, ctx.CanAccess chId
  cached : ∀ chId, tokenAllows ctx.tokenChannelIds chId = true → ctx.Cached chId →
    chId ∈ accessible

theorem CanAccess.lookupAnswers (h : ctx.CanAccess chId) : ctx.LookupAnswers chId := by
  intro _ hnc
  rcases h.2 with hc | hm
  · exact absurd hc hnc
  · exact ⟨true, hm⟩

theorem accessOk_retain
    (h : ctx.access.accessibleChannelIdsCached ctx.community ctx.reader = .ok ids) :
    ctx.AccessOk (retainTokenChannels ctx.tokenChannelIds ids) := by
  have hmem (chId : Uuid) : chId ∈ retainTokenChannels ctx.tokenChannelIds ids ↔
      tokenAllows ctx.tokenChannelIds chId = true ∧ chId ∈ ids := by
    cases ctx.tokenChannelIds <;> simp [retainTokenChannels, tokenAllows, and_comm]
  refine ⟨?_, ?_⟩
  · intro chId hin
    obtain ⟨htok, hids⟩ := (hmem chId).mp hin
    exact ⟨htok, .inl ⟨ids, h, hids⟩⟩
  · rintro chId htok ⟨ids', h', hids⟩
    rw [h] at h'
    cases h'
    exact (hmem chId).mpr ⟨htok, hids⟩

theorem AccessOk.push (h : ctx.AccessOk accessible) (ha : ctx.CanAccess chId) :
    ctx.AccessOk (accessible ++ [chId]) := by
  refine ⟨?_, ?_⟩
  · intro c hc
    rcases List.mem_append.mp hc with hc | hc
    · exact h.sound c hc
    · cases List.mem_singleton.mp hc
      exact ha
  · intro c htok hc
    exact List.mem_append_left _ (h.cached c htok hc)

/-- What asking for one channel does: the lookup fails, or the vector stays sound and holds
the channel if it can be accessed. -/
theorem repairAccess_cons (h : ctx.AccessOk accessible) (chId : Uuid) (requested : List Uuid) :
    (¬ctx.LookupAnswers chId ∧ ∃ e, ctx.repairAccess accessible (chId :: requested) = .error e) ∨
      (ctx.LookupAnswers chId ∧ ∃ mid,
        ctx.repairAccess accessible (chId :: requested) = ctx.repairAccess mid requested ∧
        ctx.AccessOk mid ∧ (∀ c ∈ accessible, c ∈ mid) ∧ (ctx.CanAccess chId → chId ∈ mid)) := by
  rw [repairAccess]
  by_cases hin : accessible.contains chId = true
  · have hmem : chId ∈ accessible := by simpa using hin
    rw [if_pos hin]
    exact .inr ⟨(h.sound chId hmem).lookupAnswers, accessible, rfl, h, fun _ hc => hc,
      fun _ => hmem⟩
  · rw [if_neg hin]
    by_cases htok : tokenAllows ctx.tokenChannelIds chId = true
    · rw [if_pos htok]
      have hnc : ¬ctx.Cached chId := by
        intro hc
        exact hin (by simpa using h.cached chId htok hc)
      cases hm : ctx.access.isMember ctx.community chId ctx.reader with
      | error e =>
        refine .inl ⟨?_, e, rfl⟩
        intro hans
        obtain ⟨member, hm'⟩ := hans htok hnc
        rw [hm] at hm'
        cases hm'
      | ok member =>
        refine .inr ⟨fun _ _ => ⟨member, hm⟩, _, rfl, ?_⟩
        cases member with
        | true =>
          rw [resolveRequestLocalAccess_member hin]
          exact ⟨h.push ⟨htok, .inr hm⟩, fun c hc => List.mem_append_left _ hc,
            fun _ => List.mem_append_right _ (List.mem_singleton.mpr rfl)⟩
        | false =>
          rw [resolveRequestLocalAccess_nonmember]
          refine ⟨h, fun _ hc => hc, ?_⟩
          rintro ⟨_, hc | hm'⟩
          · exact absurd hc hnc
          · rw [hm] at hm'
            cases hm'
    · rw [if_neg htok, resolveRequestLocalAccess_denied]
      exact .inr ⟨fun ht => absurd ht htok, accessible, rfl, h, fun _ hc => hc,
        fun ha => absurd ha.1 htok⟩

theorem repairAccess_ok (h : ctx.AccessOk accessible)
    (hr : ctx.repairAccess accessible requested = .ok accessible') :
    ctx.AccessOk accessible' ∧ (∀ c ∈ accessible, c ∈ accessible') ∧
      ∀ c ∈ requested, ctx.LookupAnswers c ∧ (ctx.CanAccess c → c ∈ accessible') := by
  induction requested generalizing accessible with
  | nil =>
    cases hr
    exact ⟨h, fun _ hc => hc, by simp⟩
  | cons chId requested ih =>
    rcases repairAccess_cons h chId requested with
      ⟨_, e, he⟩ | ⟨hans, mid, he, hmid, hsub, hin⟩
    · rw [he] at hr
      cases hr
    · rw [he] at hr
      obtain ⟨hok, hsub', hall⟩ := ih hmid hr
      refine ⟨hok, fun c hc => hsub' c (hsub c hc), ?_⟩
      intro c hc
      rcases List.mem_cons.mp hc with rfl | hc
      · exact ⟨hans, fun ha => hsub' c (hin ha)⟩
      · exact hall c hc

/-- Where every lookup answers, the repair does not fail. -/
theorem repairAccess_total (h : ctx.AccessOk accessible)
    (hans : ∀ c ∈ requested, ctx.LookupAnswers c) :
    ∃ accessible', ctx.repairAccess accessible requested = .ok accessible' := by
  induction requested generalizing accessible with
  | nil => exact ⟨accessible, rfl⟩
  | cons chId requested ih =>
    rcases repairAccess_cons h chId requested with ⟨hno, _⟩ | ⟨_, mid, he, hmid, _⟩
    · exact absurd (hans chId List.mem_cons_self) hno
    · rw [he]
      exact ih hmid fun c hc => hans c (List.mem_cons_of_mem _ hc)

/-- A query that can only return rows of accessible channels or of none. -/
def Scoped (ctx : CountContext) (q : EventQuery) : Prop :=
  (∃ chId, q.channelId = some chId ∧ ctx.CanAccess chId) ∨
    ∃ chIds, q.channelIds = some chIds ∧ ∀ chId ∈ chIds, ctx.CanAccess chId

/-- A row in a channel that the reader cannot access. -/
def Hidden (ctx : CountContext) (row : EventRow) : Prop :=
  ∃ chId, row.channelId = some chId ∧ ¬ctx.CanAccess chId

theorem Scoped.channelClause (h : ctx.Scoped q) (hrow : ctx.Hidden row) :
    q.channelClause row = false := by
  obtain ⟨chId, hch, hno⟩ := hrow
  rw [EventQuery.channelClause]
  rcases h with ⟨c, hc, ha⟩ | ⟨cs, hcs, ha⟩
  · have hne : chId ≠ c := by
      rintro rfl
      exact hno ha
    simp [hc, hch, hne]
  · have hnin : chId ∉ cs := fun hin => hno (ha chId hin)
    cases cs with
    | nil => simp [hcs, hch]
    | cons c cs =>
      have hany : ((c :: cs).any fun ch => row.channelId == some ch) = false := by
        rw [List.any_eq_false]
        intro c' hc'
        rw [hch, beq_iff_eq, Option.some.injEq]
        rintro rfl
        exact hnin hc'
      rw [hcs]
      dsimp only
      rw [hany, hch]
      simp

/-- Two stores differ only in rows of inaccessible channels. -/
def DifferHidden (ctx : CountContext) (s₁ s₂ : EventStore) : Prop :=
  ∃ common extra₁ extra₂, s₁.rows.Perm (common ++ extra₁) ∧ s₂.rows.Perm (common ++ extra₂) ∧
    (∀ row ∈ extra₁, ctx.Hidden row) ∧ ∀ row ∈ extra₂, ctx.Hidden row

theorem DifferHidden.filter (h : ctx.DifferHidden s₁ s₂) {p : EventRow → Bool}
    (hp : ∀ row, ctx.Hidden row → p row = false) :
    (s₁.rows.filter p).Perm (s₂.rows.filter p) := by
  obtain ⟨common, extra₁, extra₂, h₁, h₂, hx₁, hx₂⟩ := h
  have hf₁ := EventStore.filter_append_of_not p h₁ fun row hrow => hp row (hx₁ row hrow)
  have hf₂ := EventStore.filter_append_of_not p h₂ fun row hrow => hp row (hx₂ row hrow)
  exact hf₁.trans hf₂.symm

theorem execute_congr (h : ctx.DifferHidden s₁ s₂) (hs : ctx.Scoped call.query) :
    ctx.execute s₁ f call = ctx.execute s₂ f call := by
  cases call with
  | countEvents q =>
    have hp : ∀ row, ctx.Hidden row → q.countClause row = false := by
      intro row hrow
      have hc : q.channelClause row = false := Scoped.channelClause hs hrow
      simp [EventQuery.countClause, hc]
    have hl := ((h.filter hp).flatMap_right q.joinMentions).length_eq
    simp only [execute, EventStore.countEvents, hl]
  | queryEvents q =>
    have hp : ∀ row, ctx.Hidden row → q.queryClause row = false := by
      intro row hrow
      have hc : q.channelClause row = false := Scoped.channelClause hs hrow
      simp [EventQuery.queryClause, hc]
    have hc : (s₁.candidates q).Perm (s₂.candidates q) :=
      (h.filter hp).flatMap_right q.joinMentions
    simp only [execute, EventStore.queryEvents_congr hc]

theorem withSharedGate_scope (f : Filter) (q : EventQuery) :
    (ctx.withSharedGate f q).channelIds = q.channelIds ∧
      (ctx.withSharedGate f q).channelId = q.channelId := by
  rw [withSharedGate]
  split <;> exact ⟨rfl, rfl⟩

/-- The query of a filter as its `#h` values shape it. A single requested channel leaves the
scope to `channel_id`, as `build_event_query_from_filter` has set it. -/
theorem filterQuery_scope
    (hq : ctx.filterQuery accessible f (extractChannelIdsFromFilters [f]) = some q) :
    (∃ chIds, q.channelIds = some chIds ∧ ∀ chId ∈ chIds, chId ∈ accessible) ∨
      ∃ chId, extractChannelIdsFromFilters [f] = some [chId] ∧ chId ∈ accessible ∧
        q.channelId = extractChannelIdFromFilter f ∧ q.channelIds = none := by
  cases hreq : extractChannelIdsFromFilters [f] with
  | none =>
    rw [hreq] at hq
    cases hq
    exact .inl ⟨accessible, (withSharedGate_scope f _).1, fun _ hc => hc⟩
  | some requested =>
    rw [hreq, filterQuery] at hq
    dsimp only at hq
    split at hq
    · cases hq
    · rename_i first others hauth
      have hfirst : first ∈ requested.filter accessible.contains := by
        rw [hauth]
        exact List.mem_cons_self
      obtain ⟨hin, hacc⟩ := List.mem_filter.mp hfirst
      cases hq
      by_cases hlen : requested.length = 1
      · obtain ⟨chId, rfl⟩ := List.length_eq_one_iff.mp hlen
        cases List.mem_singleton.mp hin
        refine .inr ⟨first, rfl, by simpa using hacc, ?_, ?_⟩
        · rw [(withSharedGate_scope f _).2]
          rfl
        · rw [(withSharedGate_scope f _).1]
          rfl
      · left
        rw [(withSharedGate_scope f _).1, if_neg hlen, applyChannelScopeToQuery]
        cases hv : f.hValues with
        | none => exact ⟨accessible, rfl, fun _ hc => hc⟩
        | some values =>
          refine ⟨_, rfl, ?_⟩
          intro chId hc
          simpa using (List.mem_filter.mp hc).2

theorem filterQuery_plain (hq : ctx.filterQuery accessible f requested = some q) : q.Plain := by
  have hgate {q : EventQuery} (h : q.Plain) : (ctx.withSharedGate f q).Plain := by
    rw [withSharedGate]
    split
    · exact ⟨h.beforeId, h.globalOnly, h.offset⟩
    · exact h
  cases requested with
  | none =>
    cases hq
    exact hgate ⟨rfl, rfl, rfl⟩
  | some requested =>
    rw [filterQuery] at hq
    dsimp only at hq
    split at hq
    · cases hq
    · cases hq
      exact hgate ((filterToQueryParams_plain _ _ _).applyChannelScope f _ accessible)

@[simp]
theorem handOver_channelId : (ctx.handOver f requested q).query.channelId = q.channelId := by
  rw [handOver]
  split
  · split <;> rfl
  · rfl

@[simp]
theorem handOver_channelIds : (ctx.handOver f requested q).query.channelIds = q.channelIds := by
  rw [handOver]
  split
  · split <;> rfl
  · rfl

theorem scoped_handOver : ctx.Scoped (ctx.handOver f requested q).query ↔ ctx.Scoped q := by
  rw [Scoped, handOver_channelId, handOver_channelIds, Scoped]

/-- On an empty store every call answers zero. -/
theorem execute_empty (hq : ctx.filterQuery accessible f requested = some q) :
    ctx.execute .empty f (ctx.handOver f requested q) = .ok 0 := by
  have hp := filterQuery_plain hq
  rw [handOver]
  split
  · rw [execute, EventStore.countEvents_empty]
  · have hp' : (applyCountFallbackLimit q).Plain :=
      ⟨hp.beforeId, hp.globalOnly, hp.offset⟩
    have hl : 0 ≤ EventStore.limitVal (applyCountFallbackLimit q) := by
      simp [EventStore.limitVal, applyCountFallbackLimit, COUNT_FALLBACK_CANDIDATE_LIMIT]
    rw [execute, EventStore.queryEvents_empty hp' hl]
    rfl

/-- No accessible channel is asked for under several `#h` values that name no other channel:
several spellings of it, or values beside it that are no identifiers. Filters after a failed
membership lookup are not reached. -/
def CollapseFree (ctx : CountContext) (filters : List Filter) : Prop :=
  ∀ before f after chId, filters = before ++ f :: after →
    (∀ g ∈ before, ∀ c ∈ requestedChannels g, ctx.LookupAnswers c) →
    extractChannelIdsFromFilters [f] = some [chId] → ctx.CanAccess chId →
    ∃ value, f.hValues = some [value]

theorem CollapseFree.tail (h : ctx.CollapseFree (f :: filters))
    (hans : ∀ c ∈ requestedChannels f, ctx.LookupAnswers c) : ctx.CollapseFree filters := by
  intro before g after chId he hbefore
  apply h (f :: before) g after chId (by rw [he, List.cons_append])
  exact List.forall_mem_cons.mpr ⟨hans, hbefore⟩

theorem parse_of_single (hv : f.hValues = some [value])
    (hreq : extractChannelIdsFromFilters [f] = some [chId]) :
    extractChannelIdFromFilter f = some chId := by
  rw [extractChannelIdsFromFilters_singleton, hv] at hreq
  rw [extractChannelIdFromFilter, hv]
  dsimp only
  cases hp : Uuid.parse value with
  | none => simp [hp] at hreq
  | some id =>
    simp only [Option.map_some, List.filterMap_cons, hp, List.filterMap_nil, List.foldl_cons,
      pushNew, List.not_mem_nil, ↓reduceIte, List.nil_append, List.foldl_nil,
      Option.some.injEq, List.cons.injEq, and_true] at hreq
    rw [hreq]

/-- The query of a filter whose one channel, if any, stands alone in `#h` is scoped. -/
theorem filterQuery_scoped (hacc : ctx.AccessOk accessible)
    (hq : ctx.filterQuery accessible f (extractChannelIdsFromFilters [f]) = some q)
    (hone : ∀ chId, extractChannelIdsFromFilters [f] = some [chId] → ctx.CanAccess chId →
      ∃ value, f.hValues = some [value]) : ctx.Scoped q := by
  rcases filterQuery_scope hq with ⟨chIds, hids, hsub⟩ | ⟨chId, hreq, hin, hch, _⟩
  · exact .inr ⟨chIds, hids, fun chId hc => hacc.sound chId (hsub chId hc)⟩
  · have ha := hacc.sound chId hin
    obtain ⟨value, hv⟩ := hone chId hreq ha
    exact .inl ⟨chId, hch.trans (parse_of_single hv hreq), ha⟩

/-- The pairs of filters and requested channels that the loop runs over. -/
def work (filters : List Filter) : List (Filter × Option (List Uuid)) :=
  filters.map fun f => (f, extractChannelIdsFromFilters [f])

/-- What one turn of the loop does: it stops on a failed lookup, skips the filter, or hands a
query over and goes on with its count or stops with its message. -/
theorem countLoop_cons (ctx : CountContext) (store : EventStore) (accessible : List Uuid)
    (total : Nat) (calls : List DbCall) (counts : List Nat) (f : Filter) (filters : List Filter) :
    (∃ e, ctx.repairAccess accessible (requestedChannels f) = .error e ∧
      ctx.countLoop store accessible total calls counts (work (f :: filters)) =
        ⟨.closed ctx.subId "error: database error", calls, counts⟩) ∨
    ∃ accessible', ctx.repairAccess accessible (requestedChannels f) = .ok accessible' ∧
      ((ctx.filterQuery accessible' f (extractChannelIdsFromFilters [f]) = none ∧
        ctx.countLoop store accessible total calls counts (work (f :: filters)) =
          ctx.countLoop store accessible' total calls (counts ++ [0]) (work filters)) ∨
      ∃ q, ctx.filterQuery accessible' f (extractChannelIdsFromFilters [f]) = some q ∧
        ctx.countLoop store accessible total calls counts (work (f :: filters)) =
          match ctx.execute store f (ctx.handOver f (extractChannelIdsFromFilters [f]) q) with
          | .error message =>
            ⟨message, calls ++ [ctx.handOver f (extractChannelIdsFromFilters [f]) q], counts⟩
          | .ok n =>
            ctx.countLoop store accessible' (total + n)
              (calls ++ [ctx.handOver f (extractChannelIdsFromFilters [f]) q]) (counts ++ [n])
              (work filters)) := by
  rw [work, List.map_cons, countLoop]
  cases hr : ctx.repairAccess accessible ((extractChannelIdsFromFilters [f]).getD []) with
  | error e => exact .inl ⟨e, hr, rfl⟩
  | ok accessible' =>
    refine .inr ⟨accessible', hr, ?_⟩
    dsimp only
    cases hq : ctx.filterQuery accessible' f (extractChannelIdsFromFilters [f]) with
    | none => exact .inl ⟨rfl, rfl⟩
    | some q => exact .inr ⟨q, rfl, rfl⟩

theorem countLoop_congr (h : ctx.DifferHidden s₁ s₂) (hacc : ctx.AccessOk accessible)
    (hfree : ctx.CollapseFree filters) :
    ctx.countLoop s₁ accessible total calls counts (work filters) =
      ctx.countLoop s₂ accessible total calls counts (work filters) := by
  induction filters generalizing accessible total calls counts with
  | nil => rfl
  | cons f filters ih =>
    rcases countLoop_cons ctx s₁ accessible total calls counts f filters with
      ⟨e, hr, he⟩ | ⟨accessible', hr, hstep⟩
    · rcases countLoop_cons ctx s₂ accessible total calls counts f filters with
        ⟨_, _, he'⟩ | ⟨_, hr', _⟩
      · rw [he, he']
      · rw [hr] at hr'
        cases hr'
    · rcases countLoop_cons ctx s₂ accessible total calls counts f filters with
        ⟨_, hr', _⟩ | ⟨_, hr', hstep'⟩
      · rw [hr] at hr'
        cases hr'
      · rw [hr] at hr'
        cases hr'
        obtain ⟨hacc', _, hreq⟩ := repairAccess_ok hacc hr
        have hfree' := hfree.tail fun c hc => (hreq c hc).1
        rcases hstep with ⟨hq, he⟩ | ⟨q, hq, he⟩
        · rcases hstep' with ⟨_, he'⟩ | ⟨q', hq', _⟩
          · rw [he, he']
            exact ih hacc' hfree'
          · rw [hq] at hq'
            cases hq'
        · rcases hstep' with ⟨hq', _⟩ | ⟨q', hq', he'⟩
          · rw [hq] at hq'
            cases hq'
          · rw [hq] at hq'
            cases hq'
            have hs := filterQuery_scoped hacc' hq fun chId => hfree [] f filters chId rfl (by simp)
            rw [he, he', execute_congr h (scoped_handOver.mpr hs)]
            split
            · rfl
            · exact ih hacc' hfree'

theorem countLoop_scoped (hacc : ctx.AccessOk accessible) (hfree : ctx.CollapseFree filters)
    (hcalls : ∀ call ∈ calls, ctx.Scoped call.query) :
    ∀ call ∈ (ctx.countLoop store accessible total calls counts (work filters)).calls,
      ctx.Scoped call.query := by
  induction filters generalizing accessible total calls counts with
  | nil => exact hcalls
  | cons f filters ih =>
    rcases countLoop_cons ctx store accessible total calls counts f filters with
      ⟨e, hr, he⟩ | ⟨accessible', hr, hstep⟩
    · rw [he]
      exact hcalls
    · obtain ⟨hacc', _, hreq⟩ := repairAccess_ok hacc hr
      have hfree' := hfree.tail fun c hc => (hreq c hc).1
      rcases hstep with ⟨_, he⟩ | ⟨q, hq, he⟩
      · rw [he]
        exact ih hacc' hfree' hcalls
      · have hs := filterQuery_scoped hacc' hq fun chId => hfree [] f filters chId rfl (by simp)
        have hcalls' : ∀ call ∈ calls ++ [ctx.handOver f (extractChannelIdsFromFilters [f]) q],
            ctx.Scoped call.query := by
          intro call hc
          rcases List.mem_append.mp hc with hc | hc
          · exact hcalls call hc
          · cases List.mem_singleton.mp hc
            exact scoped_handOver.mpr hs
        rw [he]
        split
        · exact hcalls'
        · exact ih hacc' hfree' hcalls'

theorem mem_calls_countLoop (hc : call ∈ calls) :
    call ∈ (ctx.countLoop store accessible total calls counts (work filters)).calls := by
  induction filters generalizing accessible total calls counts with
  | nil => exact hc
  | cons f filters ih =>
    rcases countLoop_cons ctx store accessible total calls counts f filters with
      ⟨e, hr, he⟩ | ⟨accessible', hr, ⟨_, he⟩ | ⟨q, hq, he⟩⟩
    · rw [he]
      exact hc
    · rw [he]
      exact ih hc
    · rw [he]
      split
      · exact List.mem_append_left _ hc
      · exact ih (List.mem_append_left _ hc)

theorem channelId_none_of_many (hmany : ¬∃ value, f.hValues = some [value]) :
    extractChannelIdFromFilter f = none := by
  rw [extractChannelIdFromFilter]
  split
  · rename_i value hv
    exact absurd ⟨value, hv⟩ hmany
  · rfl

/-- Several values that name one accessible channel leave the query without any scope. -/
theorem filterQuery_unscoped
    (hreq : extractChannelIdsFromFilters [f] = some [chId]) (hin : chId ∈ accessible)
    (hmany : ¬∃ value, f.hValues = some [value]) :
    ∃ q, ctx.filterQuery accessible f (extractChannelIdsFromFilters [f]) = some q ∧
      ¬ctx.Scoped q := by
  have hnone := channelId_none_of_many hmany
  have hfil : [chId].filter accessible.contains = [chId] := by simpa using hin
  rw [hreq, filterQuery, hfil]
  refine ⟨_, rfl, ?_⟩
  rintro (⟨c, hc, _⟩ | ⟨cs, hcs, _⟩)
  · rw [(withSharedGate_scope f _).2] at hc
    have he : extractChannelIdFromFilter f = some c := hc
    rw [hnone] at he
    cases he
  · rw [(withSharedGate_scope f _).1] at hcs
    cases hcs

/-- Over an empty store the loop reaches such a filter and hands the query over. -/
theorem countLoop_unscoped (hacc : ctx.AccessOk accessible)
    (hbefore : ∀ g ∈ before, ∀ c ∈ requestedChannels g, ctx.LookupAnswers c)
    (hreq : extractChannelIdsFromFilters [f] = some [chId]) (ha : ctx.CanAccess chId)
    (hmany : ¬∃ value, f.hValues = some [value]) :
    ∃ call ∈ (ctx.countLoop .empty accessible total calls counts
        (work (before ++ f :: after))).calls, ¬ctx.Scoped call.query := by
  induction before generalizing accessible total calls counts with
  | nil =>
    have hans : ∀ c ∈ requestedChannels f, ctx.LookupAnswers c := by
      intro c hc
      rw [requestedChannels, hreq] at hc
      cases List.mem_singleton.mp hc
      exact ha.lookupAnswers
    rw [List.nil_append]
    rcases countLoop_cons ctx .empty accessible total calls counts f after with
      ⟨e, hr, _⟩ | ⟨accessible', hr, hstep⟩
    · obtain ⟨_, hr'⟩ := repairAccess_total hacc hans
      rw [hr] at hr'
      cases hr'
    · have hmem : chId ∈ requestedChannels f := by
        rw [requestedChannels, hreq]
        exact List.mem_cons_self
      have hin := ((repairAccess_ok hacc hr).2.2 chId hmem).2 ha
      obtain ⟨q', hq', hns⟩ := filterQuery_unscoped hreq hin hmany
      rcases hstep with ⟨hq, _⟩ | ⟨q, hq, he⟩
      · rw [hq'] at hq
        cases hq
      · rw [hq'] at hq
        cases hq
        refine ⟨ctx.handOver f (extractChannelIdsFromFilters [f]) q', ?_,
          fun hs => hns (scoped_handOver.mp hs)⟩
        rw [he, execute_empty hq']
        exact mem_calls_countLoop (List.mem_append_right _ (List.mem_singleton.mpr rfl))
  | cons g before ih =>
    obtain ⟨hg, hrest⟩ := List.forall_mem_cons.mp hbefore
    rw [List.cons_append]
    rcases countLoop_cons ctx .empty accessible total calls counts g (before ++ f :: after) with
      ⟨e, hr, _⟩ | ⟨accessible', hr, hstep⟩
    · obtain ⟨_, hr'⟩ := repairAccess_total hacc hg
      rw [hr] at hr'
      cases hr'
    · have hacc' := (repairAccess_ok hacc hr).1
      rcases hstep with ⟨_, he⟩ | ⟨q, hq, he⟩
      · rw [he]
        exact ih hacc' hrest
      · rw [he, execute_empty hq]
        exact ih hacc' hrest

end CountContext

/-- The filters pass the gates of `handle_count` and its limit on explicit channels. -/
structure CountAccepts (filters : List Filter) (reader : PublicKey) : Prop where
  pGated : pGatedFiltersAuthorized filters reader.toHex = true
  engram : engramFiltersAuthorized filters reader.toHex = true
  authorOnly : authorOnlyFiltersAuthorized filters reader.toHex = true
  limited : explicitChannelValueCount filters ≤ MAX_EXPLICIT_CHANNEL_VALUES

def countContext (subId : String) (conn : ConnectionState) (auth : AuthContext)
    (access : ChannelAccess) : CountContext :=
  ⟨subId, auth.pubkey, auth.channelIds, conn.community, access⟩

theorem handleCount_accepted (subId : String) (access : ChannelAccess)
    (hauth : conn.auth = some auth) (hacc : CountAccepts filters auth.pubkey)
    (store : EventStore) :
    handleCount subId filters conn access store =
      match access.accessibleChannelIdsCached conn.community auth.pubkey with
      | .error _ => ⟨.closed subId "error: database error", [], []⟩
      | .ok ids =>
        (countContext subId conn auth access).countLoop store
          (retainTokenChannels auth.channelIds ids) 0 [] [] (CountContext.work filters) := by
  have hlim : ¬MAX_EXPLICIT_CHANNEL_VALUES < explicitChannelValueCount filters :=
    Nat.not_lt.mpr hacc.limited
  simp only [handleCount, hauth, hacc.pGated, hacc.engram, hacc.authorOnly, Bool.not_true,
    Bool.false_eq_true, ↓reduceIte, extractChannelIdsFromFiltersLimited, hlim]
  rfl

/-- COUNT reveals nothing about other channels: rows of channels that the reader cannot access
change no answer, and every query is restricted to channels that the reader can access. -/
def CountPrivate (subId : String) (filters : List Filter) (conn : ConnectionState)
    (auth : AuthContext) (access : ChannelAccess) : Prop :=
  (∀ s₁ s₂, (countContext subId conn auth access).DifferHidden s₁ s₂ →
    (handleCount subId filters conn access s₁).answer =
      (handleCount subId filters conn access s₂).answer) ∧
  ∀ store, ∀ call ∈ (handleCount subId filters conn access store).calls,
    (countContext subId conn auth access).Scoped call.query

/-- COUNT is private exactly when no accessible channel is asked for under several `#h` values
of which only one is distinct as an identifier. -/
theorem countPrivate_iff (hauth : conn.auth = some auth)
    (hacc : CountAccepts filters auth.pubkey) :
    CountPrivate subId filters conn auth access ↔
      ∀ ids, access.accessibleChannelIdsCached conn.community auth.pubkey = .ok ids →
        (countContext subId conn auth access).CollapseFree filters := by
  have hrun := handleCount_accepted subId access hauth hacc
  constructor
  · rintro ⟨_, hscoped⟩ ids hids before f after chId rfl hbefore hreq ha
    have hok : (countContext subId conn auth access).AccessOk
        (retainTokenChannels auth.channelIds ids) := CountContext.accessOk_retain hids
    by_contra hmany
    obtain ⟨call, hcall, hns⟩ := CountContext.countLoop_unscoped hok hbefore hreq ha hmany
    apply hns
    apply hscoped .empty call
    rw [hrun, hids]
    exact hcall
  · intro hfree
    cases hids : access.accessibleChannelIdsCached conn.community auth.pubkey with
    | error e =>
      simp only [hids] at hrun
      refine ⟨?_, ?_⟩
      · intro s₁ s₂ _
        rw [hrun, hrun]
      · intro store
        rw [hrun]
        simp
    | ok ids =>
      have hok : (countContext subId conn auth access).AccessOk
          (retainTokenChannels auth.channelIds ids) := CountContext.accessOk_retain hids
      simp only [hids] at hrun
      refine ⟨?_, ?_⟩
      · intro s₁ s₂ hd
        rw [hrun, hrun, CountContext.countLoop_congr hd hok (hfree ids hids)]
      · intro store
        rw [hrun]
        exact CountContext.countLoop_scoped hok (hfree ids hids) (by simp)

namespace CountExample

def channelA : Uuid := HexId.ofNat 32 10
def channelB : Uuid := HexId.ofNat 32 11
def reader : PublicKey := HexId.ofNat 64 1
def community : CommunityId := ⟨HexId.ofNat 32 1⟩

def auth : AuthContext := ⟨reader, [], none⟩
def conn : ConnectionState := ⟨some auth, community, []⟩

def access : ChannelAccess where
  accessibleChannelIdsCached := fun _ _ => .ok [channelA]
  isMember := fun _ _ _ => .ok false

/-- Kind 9 messages of the channels that the values name. -/
def channelFilter (values : List String) : Filter :=
  { Filter.new with
    kinds := some (.ofList [9])
    genericTags := (∅ : GenericTags).insert .h (.ofList values) }

def lowercaseA : String := "00000000-0000-0000-0000-00000000000a"
def uppercaseA : String := "00000000-0000-0000-0000-00000000000A"

/-- One message in channel B, of which the reader is no member. -/
def hiddenStore : EventStore :=
  ⟨[{ communityId := community, id := HexId.ofNat 64 7, pubkey := HexId.ofNat 64 2,
      createdAt := 1000, kind := 9, tags := [⟨"h", ["00000000-0000-0000-0000-00000000000b"]⟩],
      channelId := some channelB, deleted := false, dTag := none, mentions := [] }],
    List.nodup_singleton _⟩

theorem not_canAccess_channelB : ¬(countContext "c" conn auth access).CanAccess channelB := by
  rintro ⟨_, ⟨ids, hids, hin⟩ | hm⟩
  · cases hids
    revert hin
    decide
  · cases hm

theorem differHidden : (countContext "c" conn auth access).DifferHidden .empty hiddenStore := by
  refine ⟨[], [], hiddenStore.rows, .nil, .refl _, by simp, ?_⟩
  intro row hrow
  cases List.mem_singleton.mp hrow
  exact ⟨channelB, rfl, not_canAccess_channelB⟩

end CountExample

open CountExample in
/-- Two spellings of channel A make COUNT tell whether channel B holds a message. -/
theorem countPrivate_two_spellings :
    CountAccepts [channelFilter [lowercaseA, uppercaseA]] reader ∧
      (countContext "c" conn auth access).DifferHidden .empty hiddenStore ∧
      (handleCount "c" [channelFilter [lowercaseA, uppercaseA]] conn access .empty).answer =
        .count "c" 0 ∧
      (handleCount "c" [channelFilter [lowercaseA, uppercaseA]] conn access hiddenStore).answer =
        .count "c" 1 ∧
      ¬CountPrivate "c" [channelFilter [lowercaseA, uppercaseA]] conn auth access := by
  have h₀ : (handleCount "c" [channelFilter [lowercaseA, uppercaseA]] conn access .empty).answer =
      .count "c" 0 := by decide +kernel
  have h₁ : (handleCount "c" [channelFilter [lowercaseA, uppercaseA]] conn access
      hiddenStore).answer = .count "c" 1 := by decide +kernel
  refine ⟨⟨by decide +kernel, by decide +kernel, by decide +kernel, by decide +kernel⟩,
    differHidden, h₀, h₁, ?_⟩
  rintro ⟨hsame, _⟩
  have he := hsame .empty hiddenStore differHidden
  rw [h₀, h₁] at he
  cases he

open CountExample in
theorem countPrivate_one_spelling :
    CountPrivate "c" [channelFilter [lowercaseA]] conn auth access := by
  have hacc : CountAccepts [channelFilter [lowercaseA]] auth.pubkey :=
    ⟨by decide +kernel, by decide +kernel, by decide +kernel, by decide +kernel⟩
  apply (countPrivate_iff rfl hacc).mpr
  intro ids _ before f after chId he _ _ _
  cases before with
  | nil =>
    cases he
    exact ⟨lowercaseA, by decide +kernel⟩
  | cons g before =>
    have hl := congrArg List.length he
    simp at hl

end Buzz
