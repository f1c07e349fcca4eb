import Buzz.Db.EventFrame
import Buzz.Relay.Historical

namespace Buzz
set_option autoImplicit true

/-- The `pubkey_hex` values of an event's mention rows. -/
def mentionRows (event : Event) : List String :=
  ((event.tags.filterMap fun tag => if tag.kind == "p" then tag.content else none).map
    asciiLower).dedup

theorem mem_mentionRows (htag : tag ∈ event.tags) (hk : tag.kind = "p")
    (hv : tag.content = some v) : asciiLower v ∈ mentionRows event := by
  rw [mentionRows, List.mem_dedup]
  apply List.mem_map_of_mem
  exact List.mem_filterMap.mpr ⟨tag, htag, by rw [hk, hv]; rfl⟩

/-- How a live event lies in the tables. -/
structure WellStored (row : EventRow) (ev : StoredEvent) : Prop where
  live : row.deleted = false
  readable : rowToStoredEvent row = some ev
  mentions : row.mentions = mentionRows ev.event
  dTag : row.dTag = extractDTag ev.event
  oneDTag : (ev.event.tags.filter fun tag => tag.kind == "d").length ≤ 1
  hTags : ∀ v, eventHasTagValue ev.event "h" v = true →
    ∃ ch, Uuid.parse v = some ch ∧ ev.channelId = some ch

theorem rowToStoredEvent_id (h : rowToStoredEvent row = some ev) : ev.event.id = row.id := by
  rw [rowToStoredEvent] at h
  split at h
  · cases h
    rfl
  · cases h

theorem WellStored.event (h : WellStored row ev) :
    ev.event.id = row.id ∧ ev.event.pubkey = row.pubkey ∧ ev.event.kind = row.kind ∧
      ev.event.tags = row.tags ∧ ev.channelId = row.channelId ∧
      (ev.event.createdAt.toNat : Int) = row.createdAt := by
  have hr := h.readable
  rw [rowToStoredEvent] at hr
  split at hr
  · rename_i hrange
    cases hr
    refine ⟨rfl, rfl, rfl, rfl, rfl, ?_⟩
    rw [UInt64.toNat_ofNat_of_lt' (by simp only [UInt64.size]; omega)]
    omega
  · cases hr

theorem scanChannelValues_spec {values : List String}
    (h : scanChannelValues found has values = some (found', has')) :
    (∀ ch, found = some ch → found' = some ch) ∧
      (∀ v ∈ values, ∀ ch, Uuid.parse v = some ch → found' = some ch) ∧
      (has' = true → has = true ∨ values ≠ []) := by
  induction values generalizing found has with
  | nil =>
    cases h
    exact ⟨fun _ h => h, by simp, .inl⟩
  | cons v values ih =>
    rw [scanChannelValues] at h
    cases hp : Uuid.parse v with
    | none =>
      rw [hp] at h
      obtain ⟨hf, hv, _⟩ := ih h
      refine ⟨hf, ?_, fun _ => .inr (List.cons_ne_nil _ _)⟩
      rw [List.forall_mem_cons]
      refine ⟨?_, hv⟩
      intro ch hch
      rw [hp] at hch
      cases hch
    | some id =>
      simp only [hp] at h
      have hnext : scanChannelValues (some id) true values = some (found', has') ∧
          ∀ ch, found = some ch → ch = id := by
        cases found with
        | none => exact ⟨h, by simp⟩
        | some existing =>
          dsimp only at h
          split at h
          · cases h
          · rename_i he
            have he' : existing = id := not_not.mp he
            refine ⟨h, ?_⟩
            rintro ch ⟨⟩
            exact he'
      obtain ⟨hf, hv, _⟩ := ih hnext.1
      refine ⟨?_, ?_, fun _ => .inr (List.cons_ne_nil _ _)⟩
      · intro ch hch
        rw [hnext.2 ch hch]
        exact hf id rfl
      · rw [List.forall_mem_cons]
        refine ⟨?_, hv⟩
        intro ch hch
        rw [hp] at hch
        cases hch
        exact hf id rfl

/-- The channel of all filters is the only one that any of their values names. -/
theorem extractChannelIdFromFiltersLoop_spec
    (h : extractChannelIdFromFiltersLoop found fs = some ch) :
    (∀ c, found = some c → c = ch) ∧
      ∀ f ∈ fs, ∃ values, f.hValues = some values ∧
        ∀ v ∈ values, ∀ c, Uuid.parse v = some c → c = ch := by
  induction fs generalizing found with
  | nil =>
    rw [extractChannelIdFromFiltersLoop] at h
    refine ⟨?_, by simp⟩
    intro c hc
    rw [h] at hc
    cases hc
    rfl
  | cons f fs ih =>
    rw [extractChannelIdFromFiltersLoop] at h
    split at h
    · rename_i found' hscan
      obtain ⟨hkeep, hvals, hhas⟩ := scanChannelValues_spec hscan
      obtain ⟨hc, hfs⟩ := ih h
      refine ⟨fun c hfound => hc c (hkeep c hfound), ?_⟩
      rw [List.forall_mem_cons]
      refine ⟨?_, hfs⟩
      cases hv : f.hValues with
      | none =>
        rw [hv] at hhas
        simp at hhas
      | some values =>
        rw [hv, Option.getD_some] at hvals
        exact ⟨values, rfl, fun v hin c hp => hc c (hvals v hin c hp)⟩
    · cases h

namespace ReqContext
variable {ctx : ReqContext} {store : EventStore} {sent : List Event} {id : EventId}

/-- The channels that phase 1 pushes into the query of a filter. -/
def pushedChannelIds (ctx : ReqContext) (f : Filter) : Option (List Uuid) :=
  if (ctx.perFilterChannel f).isSome then none
  else
    match f.hValues with
    | some values => some ((values.filterMap Uuid.parse).filter ctx.accessible.contains)
    | none => some ctx.accessible

theorem filterParams_eq (ctx : ReqContext) (f : Filter) :
    ctx.filterParams f =
      { filterToQueryParams f (ctx.perFilterChannel f) ctx.community with
        channelIds := ctx.pushedChannelIds f
        channelIdsIncludeGlobal := (ctx.perFilterChannel f).isSome || f.hValues.isNone
        sharedGatedReader :=
          if filterCanMatchSharedGatedKinds f then some ctx.reader else none } := by
  rw [filterParams, applyChannelScopeToQuery, pushedChannelIds]
  cases hc : ctx.perFilterChannel f with
  | some ch =>
    cases filterCanMatchSharedGatedKinds f <;> rfl
  | none =>
    cases f.hValues <;> cases filterCanMatchSharedGatedKinds f <;> rfl

/-- The `WHERE` clause and the join of the filter's query are true of the row. -/
def WhereHolds (ctx : ReqContext) (f : Filter) (row : EventRow) : Prop :=
  (ctx.filterParams f).queryClause row = true ∧ (ctx.filterParams f).joinMentions row ≠ []

theorem exists_hValue {values : List String} (hst : WellStored row ev) (hm : Matches f ev)
    (hv : f.hValues = some values) :
    ∃ v ∈ values, ∃ ch, Uuid.parse v = some ch ∧ row.channelId = some ch := by
  obtain ⟨vs, hl, rfl⟩ := Option.map_eq_some_iff.mp hv
  obtain ⟨_, _, _, _, hch, _⟩ := hst.event
  rcases genericTagMatch_channel (hm.tags .h vs hl) with ⟨v, hin, htag⟩ | ⟨ch, hev, hin⟩
  · obtain ⟨ch, hp, hev⟩ := hst.hTags v htag
    exact ⟨v, hin, ch, hp, hch ▸ hev⟩
  · exact ⟨Uuid.toString ch, hin, ch, Uuid.parse_toString ch, hch ▸ hev⟩

theorem perFilterChannel_sound (hctx : ctx.channelId = extractChannelIdFromFilters filters)
    (hf : f ∈ filters) (hst : WellStored row ev) (hm : Matches f ev)
    (hc : ctx.perFilterChannel f = some ch) : row.channelId = some ch := by
  have hall : ∃ values, f.hValues = some values ∧
      ∀ v ∈ values, ∀ c, Uuid.parse v = some c → c = ch := by
    rw [perFilterChannel, Option.or_eq_some_iff] at hc
    rcases hc with hone | ⟨_, hsub⟩
    · split at hone
      · rename_i v hv
        refine ⟨[v], hv, ?_⟩
        intro w hw c hp
        cases List.mem_singleton.mp hw
        rw [hone] at hp
        cases hp
        rfl
      · cases hone
    · rw [hctx] at hsub
      exact (extractChannelIdFromFiltersLoop_spec hsub).2 f hf
  obtain ⟨values, hv, honly⟩ := hall
  obtain ⟨v, hin, c, hp, hrow⟩ := exists_hValue hst hm hv
  rw [hrow, honly v hin c hp]

theorem channelClause_holds (hctx : ctx.channelId = extractChannelIdFromFilters filters)
    (hf : f ∈ filters) (hst : WellStored row ev) (hm : Matches f ev)
    (hacc : ∀ ch, row.channelId = some ch → ch ∈ ctx.accessible) :
    (ctx.filterParams f).channelClause row = true := by
  rw [filterParams_eq, EventQuery.channelClause, pushedChannelIds]
  cases hc : ctx.perFilterChannel f with
  | some ch =>
    have hrow := perFilterChannel_sound hctx hf hst hm hc
    simp [filterToQueryParams, hrow]
  | none =>
    cases hv : f.hValues with
    | some values =>
      obtain ⟨v, hin, ch, hp, hrow⟩ := exists_hValue hst hm hv
      have hmem : ch ∈ (values.filterMap Uuid.parse).filter ctx.accessible.contains := by
        apply List.mem_filter.mpr
        exact ⟨List.mem_filterMap.mpr ⟨v, hin, hp⟩, by simpa using hacc ch hrow⟩
      cases hl : (values.filterMap Uuid.parse).filter ctx.accessible.contains with
      | nil =>
        rw [hl] at hmem
        cases hmem
      | cons c cs =>
        rw [hl] at hmem
        simp only [filterToQueryParams, EventQuery.forCommunity, hrow, Option.isSome_none, hl,
          Bool.false_eq_true, ↓reduceIte]
        simpa using hmem
    | none =>
      cases hrow : row.channelId with
      | none =>
        cases hl : ctx.accessible <;>
          simp [filterToQueryParams, EventQuery.forCommunity]
      | some ch =>
        have hmem := hacc ch hrow
        cases hl : ctx.accessible with
        | nil =>
          rw [hl] at hmem
          cases hmem
        | cons c cs =>
          rw [hl] at hmem
          simp only [filterToQueryParams, EventQuery.forCommunity, Option.isSome_none]
          simpa using hmem

theorem tagsContain_of_tag (h : tag ∈ tags) (ha : tag.kind = a) (hb : tag.content = some b) :
    tagsContain tags [a, b] = true := by
  rw [tagsContain, List.any_eq_true]
  refine ⟨tag, h, ?_⟩
  have hrest : b ∈ tag.rest := List.mem_of_mem_head? hb
  simp [Tag.asSlice, ha, hrest]

theorem exists_tag_of_value (h : eventHasTagValue event key v = true) :
    ∃ tag ∈ event.tags, tag.kind = key ∧ tag.content = some v := by
  obtain ⟨tag, htag, hk⟩ := List.any_eq_true.mp h
  rw [Bool.and_eq_true, beq_iff_eq, beq_iff_eq] at hk
  exact ⟨tag, htag, hk⟩

theorem keysClause_holds (hst : WellStored row ev) (hm : Matches f ev) :
    (ctx.filterParams f).keysClause row = true := by
  obtain ⟨hid, hpk, hkind, htags, _⟩ := hst.event
  rw [filterParams_eq, EventQuery.keysClause]
  simp only [filterToQueryParams, Bool.and_eq_true]
  refine ⟨⟨⟨⟨?_, ?_⟩, ?_⟩, ?_⟩, ?_⟩
  · cases hk : f.kinds with
    | none => rfl
    | some ks =>
      have hin := hm.kinds ks hk
      rw [hkind] at hin
      simp [hin]
  · split
    · rename_i pk heq
      split at heq
      · rename_i pk' ha
        cases heq
        obtain ⟨as, hfa, hel⟩ := Option.map_eq_some_iff.mp ha
        have hin := hm.authors as hfa
        rw [hel, List.mem_singleton, hpk] at hin
        simp [hin]
      · cases heq
    · rfl
  · split
    · rename_i authors heq
      split at heq
      · rename_i a b l ha
        cases heq
        obtain ⟨as, hfa, hel⟩ := Option.map_eq_some_iff.mp ha
        have hin := hm.authors as hfa
        rw [hel, hpk] at hin
        simpa using hin
      · cases heq
    · rfl
  · split
    · rename_i ids heq
      split at heq
      · rename_i i l hi
        cases heq
        obtain ⟨is, hfi, hel⟩ := Option.map_eq_some_iff.mp hi
        have hin := hm.ids is hfi
        rw [hel, hid] at hin
        simpa using hin
      · cases heq
    · rfl
  · split
    · rename_i eTags heq
      split at heq
      · rename_i v l he
        cases heq
        obtain ⟨vs, hfe, hel⟩ := Option.map_eq_some_iff.mp he
        have hne : SingleLetterTag.e ≠ .h := by decide
        obtain ⟨w, hin, htag⟩ := genericTagMatch_tag (hm.tags .e vs hfe) hne
        obtain ⟨tag, hmem, hkey, hval⟩ := exists_tag_of_value htag
        rw [htags] at hmem
        rw [hel] at hin
        rw [Bool.or_eq_true, List.any_eq_true]
        exact .inr ⟨w, hin, tagsContain_of_tag hmem hkey hval⟩
      · cases heq
    · rfl

theorem sinceClause_holds (hst : WellStored row ev) (hm : Matches f ev) :
    (ctx.filterParams f).sinceClause row = true := by
  obtain ⟨_, _, _, _, _, hts⟩ := hst.event
  rw [filterParams_eq, EventQuery.sinceClause]
  simp only [filterToQueryParams]
  split
  · rename_i s heq
    obtain ⟨t, hft, hdt⟩ := Option.bind_eq_some_iff.mp heq
    have hle : t.toNat ≤ ev.event.createdAt.toNat := hm.since t hft
    rw [DateTime.fromTimestamp] at hdt
    split at hdt
    · cases hdt
      rw [decide_eq_true_eq, asI64]
      split <;> omega
    · cases hdt
  · rfl

theorem findSome_dTag (tags : List Tag) :
    (tags.findSome? fun tag => if tag.kind == "d" then tag.content else none) =
      (tags.filter fun tag => tag.kind == "d").findSome? Tag.content := by
  induction tags with
  | nil => rfl
  | cons tag tags ih =>
    rw [List.findSome?_cons, List.filter_cons]
    cases tag.kind == "d" with
    | true => simp only [↓reduceIte, List.findSome?_cons, ih]
    | false => simpa using ih

/-- The column of an addressable event holds the value of its one `d` tag. -/
theorem dTag_of_value (hst : WellStored row ev)
    (hkind : isParameterizedReplaceable row.kind.toNat = true)
    (hv : eventHasTagValue ev.event "d" v = true) : row.dTag = some v := by
  obtain ⟨_, _, hk, _⟩ := hst.event
  obtain ⟨tag, hmem, hkey, hval⟩ := exists_tag_of_value hv
  have hin : tag ∈ ev.event.tags.filter fun tag => tag.kind == "d" :=
    List.mem_filter.mpr ⟨hmem, beq_iff_eq.mpr hkey⟩
  have hone : (ev.event.tags.filter fun tag => tag.kind == "d") = [tag] := by
    have hpos := List.length_pos_of_mem hin
    obtain ⟨tag', he⟩ := List.length_eq_one_iff.mp (Nat.le_antisymm hst.oneDTag hpos)
    rw [he] at hin ⊢
    rw [List.mem_singleton.mp hin]
  rw [hst.dTag, extractDTag, hk, hkind, findSome_dTag, hone]
  simp [hval]

theorem dTagClause_holds (hst : WellStored row ev) (hm : Matches f ev) :
    (ctx.filterParams f).dTagClause row = true := by
  obtain ⟨_, _, hkind, _⟩ := hst.event
  -- the pushed values are those of `#d`, and only for filters on addressable kinds
  have hpushed (vs : List String) (h : (if kindsAllParameterized (f.kinds.map ValueSet.elems) then
      (f.genericTags.lookup .d).map ValueSet.elems else none) = some vs) :
      ∃ v ∈ vs, row.dTag = some v := by
    split at h
    · rename_i hpar
      obtain ⟨ds, hfd, rfl⟩ := Option.map_eq_some_iff.mp h
      have hne : SingleLetterTag.d ≠ .h := by decide
      obtain ⟨v, hin, htag⟩ := genericTagMatch_tag (hm.tags .d ds hfd) hne
      refine ⟨v, hin, dTag_of_value hst ?_ htag⟩
      cases hk : f.kinds with
      | none =>
        rw [hk] at hpar
        cases hpar
      | some ks =>
        have hmem := hm.kinds ks hk
        rw [hkind] at hmem
        rw [hk, Option.map_some, kindsAllParameterized, Bool.and_eq_true, List.all_eq_true] at hpar
        exact hpar.2 _ hmem
    · cases h
  rw [filterParams_eq, EventQuery.dTagClause]
  simp only [filterToQueryParams]
  revert hpushed
  generalize (if kindsAllParameterized (f.kinds.map ValueSet.elems) then
    (f.genericTags.lookup .d).map ValueSet.elems else none) = dValues
  intro hpushed
  rcases dValues with _ | (_ | ⟨v, _ | ⟨w, vs⟩⟩)
  · rfl
  · rfl
  · obtain ⟨w, hw, hrow⟩ := hpushed _ rfl
    cases List.mem_singleton.mp hw
    simp [hrow]
  · obtain ⟨x, hx, hrow⟩ := hpushed _ rfl
    simpa [hrow] using hx

theorem sharedClause_holds (hst : WellStored row ev)
    (hvis : eventVisibleToReader ev.event ctx.reader = true) :
    (ctx.filterParams f).sharedClause row = true := by
  obtain ⟨_, hpk, hkind, htags, _⟩ := hst.event
  rw [filterParams_eq, EventQuery.sharedClause]
  dsimp only
  split
  · rename_i reader heq
    split at heq
    · cases heq
      have hgate : isUnsharedGatedEvent ev.event ctx.reader = false := by
        rw [eventVisibleToReader] at hvis
        split at hvis
        · cases hvis
        · split at hvis
          · cases hvis
          · rename_i hg
            exact Bool.eq_false_iff.mpr hg
      rw [isUnsharedGatedEvent, isSharedGatedKind, hkind, hpk] at hgate
      cases hsh : SHARED_GATED_KINDS.contains row.kind.toNat with
      | false => rfl
      | true =>
        cases hme : row.pubkey == ctx.reader with
        | true => simp
        | false =>
          rw [hsh, hme] at hgate
          have hshared : eventIsShared ev.event = true := by simpa using hgate
          have hmem := eventIsShared_mem hshared
          rw [htags] at hmem
          rw [tagsContain_of_tag hmem rfl rfl]
          simp
    · cases heq
  · rfl

/-- The cast of `until` to `i64` is negative and still a date. -/
def UntilWraps (f : Filter) : Prop :=
  ∃ u, f.until_ = some u ∧ 2 ^ 64 + DateTime.MIN_SECS ≤ (u.toNat : Int)

theorem pageClause_iff (hst : WellStored row ev) (hm : Matches f ev) :
    (ctx.filterParams f).pageClause row = true ↔ ¬UntilWraps f := by
  obtain ⟨_, _, _, _, _, hts⟩ := hst.event
  rw [filterParams_eq, EventQuery.pageClause, EventQuery.untilClause]
  simp only [filterToQueryParams, EventQuery.forCommunity, UntilWraps]
  cases hu : f.until_ with
  | none => simp
  | some u =>
    have hle : ev.event.createdAt.toNat ≤ u.toNat := hm.until_ u hu
    have hlt : u.toNat < 2 ^ 64 := u.toNat_lt
    simp only [Option.bind_some, Option.some.injEq, exists_eq_left', DateTime.fromTimestamp]
    by_cases hrange : DateTime.MIN_SECS ≤ asI64 u ∧ asI64 u ≤ DateTime.MAX_SECS
    · rw [if_pos hrange]
      simp only [decide_eq_true_eq]
      obtain ⟨hmin, hmax⟩ := hrange
      rw [DateTime.MIN_SECS] at hmin ⊢
      rw [asI64] at hmin ⊢
      split at hmin <;> split <;> omega
    · rw [if_neg hrange]
      simp only [true_iff, not_le]
      rw [DateTime.MIN_SECS, DateTime.MAX_SECS, asI64] at hrange
      rw [DateTime.MIN_SECS]
      split at hrange <;> omega

theorem joinMentions_holds (hst : WellStored row ev) (hm : Matches f ev) :
    (ctx.filterParams f).joinMentions row ≠ [] := by
  rw [filterParams_eq, EventQuery.joinMentions]
  simp only [filterToQueryParams]
  split
  · rename_i p heq
    split at heq
    · rename_i p' hp
      cases heq
      obtain ⟨ps, hfp, hel⟩ := Option.map_eq_some_iff.mp hp
      have hne : SingleLetterTag.p ≠ .h := by decide
      obtain ⟨v, hin, htag⟩ := genericTagMatch_tag (hm.tags .p ps hfp) hne
      rw [hel] at hin
      cases List.mem_singleton.mp hin
      obtain ⟨tag, hmem, hkey, hval⟩ := exists_tag_of_value htag
      have hrow : asciiLower p ∈ row.mentions := by
        rw [hst.mentions]
        exact mem_mentionRows hmem hkey hval
      intro hnil
      rw [List.map_eq_nil_iff, List.filter_eq_nil_iff] at hnil
      exact hnil _ hrow (decide_eq_true rfl)
    · cases heq
  · exact List.cons_ne_nil _ _

/-- The clause is true of a matching row exactly when `until` does not wrap. -/
theorem whereHolds_iff (hctx : ctx.channelId = extractChannelIdFromFilters filters)
    (hf : f ∈ filters) (hst : WellStored row ev) (hcom : row.communityId = ctx.community)
    (hm : Matches f ev) (hacc : ∀ ch, row.channelId = some ch → ch ∈ ctx.accessible)
    (hvis : eventVisibleToReader ev.event ctx.reader = true) :
    ctx.WhereHolds f row ↔ ¬UntilWraps f := by
  have hlive : (ctx.filterParams f).liveClause row = true := by
    rw [filterParams_eq, EventQuery.liveClause, hst.live]
    simp [filterToQueryParams, EventQuery.forCommunity, hcom]
  rw [WhereHolds, EventQuery.queryClause, hlive, channelClause_holds hctx hf hst hm hacc,
    keysClause_holds hst hm, sinceClause_holds hst hm, dTagClause_holds hst hm,
    sharedClause_holds hst hvis]
  simp only [Bool.true_and, Bool.and_true, pageClause_iff hst hm]
  exact and_iff_left (joinMentions_holds hst hm)

theorem filterParams_plain (ctx : ReqContext) (f : Filter) : (ctx.filterParams f).Plain := by
  rw [filterParams_eq]
  exact ⟨rfl, rfl, rfl⟩

theorem matchesNothing_filterParams (ctx : ReqContext) (f : Filter) :
    (ctx.filterParams f).matchesNothing = (f.kinds.map ValueSet.elems == some []) := by
  rw [filterParams_eq]
  exact matchesNothing_filterToQueryParams f (ctx.perFilterChannel f) ctx.community

theorem matchesNothing_of_matches (hm : Matches f ev) :
    (ctx.filterParams f).matchesNothing = false := by
  rw [matchesNothing_filterParams]
  cases hk : f.kinds with
  | none => rfl
  | some ks =>
    have hin := hm.kinds ks hk
    cases hel : ks.elems with
    | nil =>
      rw [hel] at hin
      cases hin
    | cons k l => simp [hel]

theorem mem_candidates_of_whereHolds (hrow : row ∈ store.rows) (hw : ctx.WhereHolds f row) :
    row ∈ store.candidates (ctx.filterParams f) := by
  obtain ⟨row', hj⟩ := List.exists_mem_of_ne_nil _ hw.2
  cases EventStore.mem_joinMentions hj
  exact List.mem_flatMap.mpr ⟨_, List.mem_filter.mpr ⟨hrow, hw.1⟩, hj⟩

/-- A page that is not full holds every row of the clause. -/
theorem mem_queryEvents (hst : WellStored row ev) (hm : Matches f ev) (hrow : row ∈ store.rows)
    (hw : ctx.WhereHolds f row)
    (hroom : ((store.candidates (ctx.filterParams f)).length : Int) <
      EventStore.limitVal (ctx.filterParams f)) :
    ∃ events, store.queryEvents (ctx.filterParams f) = .ok events ∧ ev ∈ events := by
  have hp := ctx.filterParams_plain f
  rw [EventStore.queryEvents, EventStore.queryPage_plain hp, matchesNothing_of_matches hm,
    EventStore.cutPage_plain hp (by omega)]
  refine ⟨_, rfl, ?_⟩
  rw [List.take_of_length_le (by rw [List.length_insertionSort]; omega), List.mem_filterMap]
  refine ⟨row, ?_, hst.readable⟩
  rw [List.mem_insertionSort]
  exact mem_candidates_of_whereHolds hrow hw

theorem mem_deliverLoop (hid : id ∈ sent.map Event.id) :
    id ∈ (ctx.deliverLoop query store sent fs).map Event.id := by
  induction fs generalizing sent with
  | nil => exact hid
  | cons f fs ih =>
    rw [deliverLoop]
    split
    · exact hid
    · apply ih
      rw [foldl_deliver_ids, mem_foldl_pushNew]
      exact .inl hid

/-- When the loop reaches the filter, it delivers the event. -/
def Delivers (ctx : ReqContext) (store : EventStore) (f : Filter) (id : EventId) : Prop :=
  ∀ sent fs, id ∈ (ctx.deliverLoop EventStore.queryEvents store sent (f :: fs)).map Event.id

theorem delivers_of_whereHolds (hst : WellStored row ev) (hmatch : filtersMatch [f] ev = true)
    (hrow : row ∈ store.rows) (hacc : ∀ ch, row.channelId = some ch → ch ∈ ctx.accessible)
    (hvis : eventVisibleToReader ev.event ctx.reader = true) (hw : ctx.WhereHolds f row)
    (hroom : ((store.candidates (ctx.filterParams f)).length : Int) <
      EventStore.limitVal (ctx.filterParams f)) :
    ctx.Delivers store f ev.event.id := by
  have hm := matches_of_filterMatchOne ((filtersMatch_singleton f ev).symm.trans hmatch)
  obtain ⟨events, hq, hmem⟩ := mem_queryEvents hst hm hrow hw hroom
  obtain ⟨_, _, _, _, hch, _⟩ := hst.event
  have haccepts : ctx.accepts f ev = true := by
    rw [accepts, hmatch, hvis, hch]
    cases hc : row.channelId with
    | none => rfl
    | some ch => simpa using hacc ch hc
  intro sent fs
  rw [deliverLoop, hq]
  apply mem_deliverLoop
  rw [foldl_deliver_ids, mem_foldl_pushNew]
  exact .inr (List.mem_map.mpr ⟨ev, List.mem_filter.mpr ⟨hmem, haccepts⟩, rfl⟩)

/-- Pushdown loses no match, and a page that is not full delivers it, exactly when the cast of
`until` does not wrap to a date before 1970. -/
theorem pushdown_complete_iff (hctx : ctx.channelId = extractChannelIdFromFilters filters)
    (hf : f ∈ filters) (hrow : row ∈ store.rows) (hst : WellStored row ev)
    (hcom : row.communityId = ctx.community) (hmatch : filtersMatch [f] ev = true)
    (hacc : ∀ ch, row.channelId = some ch → ch ∈ ctx.accessible)
    (hvis : eventVisibleToReader ev.event ctx.reader = true) :
    (ctx.WhereHolds f row ∧
      (((store.candidates (ctx.filterParams f)).length : Int) <
        EventStore.limitVal (ctx.filterParams f) → ctx.Delivers store f ev.event.id)) ↔
      ¬UntilWraps f := by
  have hm := matches_of_filterMatchOne ((filtersMatch_singleton f ev).symm.trans hmatch)
  rw [← whereHolds_iff hctx hf hst hcom hm hacc hvis]
  refine ⟨And.left, fun hw => ⟨hw, ?_⟩⟩
  exact delivers_of_whereHolds hst hmatch hrow hacc hvis hw

end ReqContext

namespace PushdownExample

/-- One message without a channel. -/
def note : EventRow where
  communityId := ⟨HexId.ofNat 32 1⟩
  id := HexId.ofNat 64 8
  pubkey := HexId.ofNat 64 2
  createdAt := 1000
  kind := 9
  tags := []
  channelId := none
  deleted := false
  dTag := none
  mentions := []

def noteEvent : StoredEvent :=
  ⟨⟨note.id, note.pubkey, 1000, 9, []⟩, none⟩

def noteStore : EventStore :=
  ⟨[note], List.nodup_singleton _⟩

def reqContext : ReqContext :=
  ⟨HexId.ofNat 64 1, note.communityId, none, [HexId.ofNat 32 10]⟩

def untilFilter (untl : UInt64) : Filter :=
  { Filter.new with kinds := some (.ofList [9]), until_ := some untl }

theorem wellStored_note : WellStored note noteEvent :=
  ⟨rfl, by decide +kernel, by decide +kernel, by decide +kernel, by decide +kernel,
    by simp [noteEvent, eventHasTagValue]⟩

end PushdownExample

open PushdownExample in
/-- With the largest `until` the clause asks for rows before 1970 and loses the message. -/
theorem pushdown_loses_until_max :
    note ∈ noteStore.rows ∧ WellStored note noteEvent ∧
      note.communityId = reqContext.community ∧
      filtersMatch [untilFilter (2 ^ 64 - 1)] noteEvent = true ∧
      eventVisibleToReader noteEvent.event reqContext.reader = true ∧
      (reqContext.filterParams (untilFilter (2 ^ 64 - 1))).until_ = some (-1) ∧
      ¬reqContext.WhereHolds (untilFilter (2 ^ 64 - 1)) note ∧
      reqContext.deliverLoop EventStore.queryEvents noteStore [] [untilFilter (2 ^ 64 - 1)] = [] := by
  refine ⟨List.mem_cons_self, wellStored_note, rfl, by decide +kernel, by decide +kernel,
    by decide +kernel, ?_, by decide +kernel⟩
  rintro ⟨hq, _⟩
  revert hq
  decide +kernel

open PushdownExample in
theorem pushdown_complete_until_now :
    reqContext.WhereHolds (untilFilter 2000) note ∧
      reqContext.Delivers noteStore (untilFilter 2000) noteEvent.event.id := by
  have hwrap : ¬ReqContext.UntilWraps (untilFilter 2000) := by
    rintro ⟨u, hu, hle⟩
    cases hu
    revert hle
    decide +kernel
  have hmatch : filtersMatch [untilFilter 2000] noteEvent = true := by decide +kernel
  have hvis : eventVisibleToReader noteEvent.event reqContext.reader = true := by decide +kernel
  have hctx : reqContext.channelId = extractChannelIdFromFilters [untilFilter 2000] := by
    decide +kernel
  have hrow : note ∈ noteStore.rows := List.mem_cons_self
  have hacc : ∀ ch, note.channelId = some ch → ch ∈ reqContext.accessible := by simp [note]
  obtain ⟨hw, hd⟩ := (ReqContext.pushdown_complete_iff hctx List.mem_cons_self hrow
    wellStored_note rfl hmatch hacc hvis).mpr hwrap
  exact ⟨hw, hd (by decide +kernel)⟩

end Buzz
