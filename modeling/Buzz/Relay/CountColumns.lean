import Buzz.Db.EventCount
import Buzz.Relay.CountPrivacy
import Buzz.Relay.Pushdown

namespace Buzz
set_option autoImplicit true

/-- The event whose columns the row holds. -/
def EventRow.event (row : EventRow) : Event :=
  ⟨row.id, row.pubkey, UInt64.ofNat row.createdAt.toNat, row.kind, row.tags⟩

/-- How the row of a live event was written. -/
structure StoredRow (row : EventRow) : Prop where
  date : DateTime.MIN_SECS ≤ row.createdAt ∧ row.createdAt ≤ DateTime.MAX_SECS
  mentions : row.mentions = mentionRows row.event
  dTag : row.dTag = extractDTag row.event
  hTags : ∀ tag ∈ row.tags, tag.kind = "h" →
    ∃ v ch, tag.content = some v ∧ Uuid.parse v = some ch ∧ row.channelId = some ch

/-- What the SQL of a pushed filter asks of a row, apart from its channel. -/
structure PushedColumns (f : Filter) (row : EventRow) : Prop where
  kinds : ∀ ks, f.kinds = some ks → row.kind ∈ ks.elems
  authors : ∀ as, f.authors = some as → as.elems = [] ∨ row.pubkey ∈ as.elems
  ids : ∀ is, f.ids = some is → is.elems = [] ∨ row.id ∈ is.elems
  since : ∀ s, f.since = some s → ∀ t, DateTime.fromTimestamp (asI64 s) = some t → t ≤ row.createdAt
  until_ : ∀ u, f.until_ = some u → ∀ t, DateTime.fromTimestamp (asI64 u) = some t →
    row.createdAt ≤ t
  eTags : ∀ vs, f.genericTags.lookup .e = some vs → vs.elems = [] ∨
    ∃ v ∈ vs.elems, ∃ tag ∈ row.tags, "e" ∈ tag.asSlice ∧ v ∈ tag.asSlice
  dTags : ∀ vs, f.genericTags.lookup .d = some vs → vs.elems = [] ∨
    ∃ v ∈ vs.elems, row.dTag = some v
  pTags : ∀ vs, f.genericTags.lookup .p = some vs → vs.elems = [] ∨
    ∃ v ∈ vs.elems, asciiLower v ∈ row.mentions

theorem StoredRow.mentions_nodup (h : StoredRow row) : row.mentions.Nodup := by
  rw [h.mentions, mentionRows]
  exact List.nodup_dedup _

theorem readsBack_dated {row : EventRow} (test : StoredEvent → Bool)
    (hdate : row.createdAt ≤ DateTime.MAX_SECS) :
    row.readsBack test = true ↔
      0 ≤ row.createdAt ∧ test ⟨row.event, row.channelId⟩ = true := by
  have hlt : row.createdAt < 2 ^ 64 := by
    rw [DateTime.MAX_SECS] at hdate
    omega
  rw [EventRow.readsBack, rowToStoredEvent]
  by_cases h : 0 ≤ row.createdAt
  · rw [if_pos ⟨h, hlt⟩]
    exact (and_iff_right h).symm
  · rw [if_neg (fun hr => h hr.1)]
    simp [h]

/-- What a fully pushable filter says of its tags. -/
theorem pushable_tag (h : filterFullyPushable f = true)
    (hl : f.genericTags.lookup key = some vs) (hh : key ≠ .h) (he : key ≠ .e) :
    vs.elems = [] ∨ (key = .p ∧ vs.elems.length ≤ 1) ∨
      (key = .d ∧ kindsAllParameterized (f.kinds.map ValueSet.elems) = true) := by
  rw [filterFullyPushable, Bool.and_eq_true, List.all_eq_true] at h
  have hentry := h.1 ⟨key, vs⟩ (AList.mem_lookup_iff.mp hl)
  have hkey {k : SingleLetterTag} (hne : key ≠ k) : (key.toString == k.toString) = false :=
    beq_eq_false_iff_ne.mpr fun hs => hne (SingleLetterTag.toString_injective hs)
  have hs (k : SingleLetterTag) (s : String) (hk : k.toString = s) (hne : key ≠ k) :
      (key.toString == s) = false := hk ▸ hkey hne
  dsimp only at hentry
  rw [hs .h "h" rfl hh, hs .e "e" rfl he] at hentry
  by_cases hp : key = .p
  · subst hp
    have hlen : ¬1 < vs.elems.length := by
      intro hlt
      simp [SingleLetterTag.toString, SingleLetterTag.p, ValueSet.len, hlt] at hentry
    exact .inr (.inl ⟨rfl, not_lt.mp hlen⟩)
  · rw [hs .p "p" rfl hp] at hentry
    by_cases hd : key = .d
    · subst hd
      have hor : vs.isEmpty = true ∨ kindsAllParameterized (f.kinds.map ValueSet.elems) = true := by
        simpa [SingleLetterTag.toString, SingleLetterTag.d] using hentry
      rcases hor with hemp | hall
      · exact .inl (List.isEmpty_iff.mp hemp)
      · exact .inr (.inr ⟨rfl, hall⟩)
    · rw [hs .d "d" rfl hd] at hentry
      exact .inl (List.isEmpty_iff.mp hentry)

namespace CountColumns
variable {f : Filter} {row : EventRow}

/-- The query of a filter with a channel scope of its own. -/
def scopedQuery (f : Filter) (channelId : Option Uuid) (community : CommunityId)
    (channelIds : Option (List Uuid)) (includeGlobal : Bool) : EventQuery :=
  { filterToQueryParams f channelId community with
    channelIds := channelIds
    channelIdsIncludeGlobal := includeGlobal }

theorem keysClause_iff (hk : f.kinds.map ValueSet.elems ≠ some []) :
    (scopedQuery f ch com chs g).keysClause row = true ↔
      (∀ ks, f.kinds = some ks → row.kind ∈ ks.elems) ∧
        (∀ as, f.authors = some as → as.elems = [] ∨ row.pubkey ∈ as.elems) ∧
        (∀ is, f.ids = some is → is.elems = [] ∨ row.id ∈ is.elems) ∧
        ∀ vs, f.genericTags.lookup .e = some vs → vs.elems = [] ∨
          ∃ v ∈ vs.elems, ∃ tag ∈ row.tags, "e" ∈ tag.asSlice ∧ v ∈ tag.asSlice := by
  rw [EventQuery.keysClause]
  simp only [scopedQuery, filterToQueryParams, Bool.and_eq_true, and_assoc]
  refine and_congr ?_ (Iff.trans and_assoc.symm (and_congr ?_ (and_congr ?_ ?_)))
  · cases hf : f.kinds with
    | none => simp
    | some ks =>
      have hne : ks.elems ≠ [] := by simpa [hf] using hk
      simp [hne]
  · cases hf : f.authors with
    | none => simp
    | some as =>
      obtain ⟨elems, hn⟩ := as
      rcases elems with _ | ⟨a, _ | ⟨b, l⟩⟩
      · simp
      · simp
      · simp
  · cases hf : f.ids with
    | none => simp
    | some is =>
      obtain ⟨elems, hn⟩ := is
      cases elems with
      | nil => simp
      | cons i l => simp
  · cases hf : f.genericTags.lookup .e with
    | none => simp
    | some vs =>
      obtain ⟨elems, hn⟩ := vs
      cases elems with
      | nil => simp
      | cons v l => simp [tagsContain]

theorem sinceClause_iff :
    (scopedQuery f ch com chs g).sinceClause row = true ↔
      ∀ s, f.since = some s → ∀ t, DateTime.fromTimestamp (asI64 s) = some t → t ≤ row.createdAt := by
  rw [EventQuery.sinceClause]
  simp only [scopedQuery, filterToQueryParams]
  cases hf : f.since with
  | none => simp
  | some s => cases ht : DateTime.fromTimestamp (asI64 s) <;> simp [ht]

theorem untilClause_iff :
    (scopedQuery f ch com chs g).untilClause row = true ↔
      ∀ u, f.until_ = some u → ∀ t, DateTime.fromTimestamp (asI64 u) = some t →
        row.createdAt ≤ t := by
  rw [EventQuery.untilClause]
  simp only [scopedQuery, filterToQueryParams]
  cases hf : f.until_ with
  | none => simp
  | some u => cases ht : DateTime.fromTimestamp (asI64 u) <;> simp [ht]

theorem dTagClause_iff (hp : filterFullyPushable f = true) :
    (scopedQuery f ch com chs g).dTagClause row = true ↔
      ∀ vs, f.genericTags.lookup .d = some vs → vs.elems = [] ∨
        ∃ v ∈ vs.elems, row.dTag = some v := by
  rw [EventQuery.dTagClause]
  simp only [scopedQuery, filterToQueryParams]
  cases hf : f.genericTags.lookup .d with
  | none => simp
  | some vs =>
    have htag := pushable_tag hp hf (by decide) (by decide)
    obtain ⟨elems, hn⟩ := vs
    have hall : elems = [] ∨ kindsAllParameterized (f.kinds.map ValueSet.elems) = true := by
      rcases htag with he | ⟨hd, _⟩ | ⟨_, hall⟩
      · exact .inl he
      · cases hd
      · exact .inr hall
    rcases hall with rfl | hall
    · simp
    · rcases elems with _ | ⟨v, _ | ⟨w, l⟩⟩
      · simp
      · simp [hall]
      · simp [hall]

theorem joinMentions_iff (hp : filterFullyPushable f = true) :
    ((scopedQuery f ch com chs g).joinMentions row).isEmpty = false ↔
      ∀ vs, f.genericTags.lookup .p = some vs → vs.elems = [] ∨
        ∃ v ∈ vs.elems, asciiLower v ∈ row.mentions := by
  rw [EventQuery.joinMentions]
  simp only [scopedQuery, filterToQueryParams]
  cases hf : f.genericTags.lookup .p with
  | none => simp
  | some vs =>
    have htag := pushable_tag hp hf (by decide) (by decide)
    obtain ⟨elems, hn⟩ := vs
    have hlen : elems.length ≤ 1 := by
      rcases htag with he | ⟨_, hlen⟩ | ⟨hd, _⟩
      · exact (congrArg List.length he).trans_le (Nat.zero_le 1)
      · exact hlen
      · cases hd
    rcases elems with _ | ⟨v, _ | ⟨w, l⟩⟩
    · simp
    · simp [List.filter_eq_nil_iff]
    · exact absurd hlen (by simp)

theorem selects_iff (hp : filterFullyPushable f = true) :
    (scopedQuery f ch com chs g).selects row = true ↔
      (row.communityId = com ∧ row.deleted = false) ∧
        (scopedQuery f ch com chs g).channelClause row = true ∧ PushedColumns f row := by
  have hnothing : (scopedQuery f ch com chs g).matchesNothing =
      (f.kinds.map ValueSet.elems == some []) := matchesNothing_filterToQueryParams f ch com
  have hlive : (scopedQuery f ch com chs g).liveClause row = true ↔
      row.communityId = com ∧ row.deleted = false := by
    simp [EventQuery.liveClause, scopedQuery, filterToQueryParams, EventQuery.forCommunity]
  by_cases hk : f.kinds.map ValueSet.elems = some []
  · have hno : ¬PushedColumns f row := by
      intro h
      obtain ⟨ks, hf, he⟩ := Option.map_eq_some_iff.mp hk
      have hin := h.kinds ks hf
      rw [he] at hin
      cases hin
    simp [EventQuery.selects, hnothing, hk, hno]
  · have hn : (f.kinds.map ValueSet.elems == some []) = false := beq_eq_false_iff_ne.mpr hk
    simp only [EventQuery.selects, EventQuery.countClause, hnothing, hn, Bool.not_false,
      Bool.true_and, Bool.and_eq_true, Bool.not_eq_true', hlive, keysClause_iff hk,
      sinceClause_iff, untilClause_iff, dTagClause_iff hp, joinMentions_iff hp]
    constructor
    · rintro ⟨⟨⟨⟨⟨⟨hl, hc⟩, hks, has, his, hes⟩, hs⟩, hu⟩, hds⟩, hps⟩
      exact ⟨hl, hc, hks, has, his, hs, hu, hes, hds, hps⟩
    · rintro ⟨hl, hc, h⟩
      exact ⟨⟨⟨⟨⟨⟨hl, hc⟩, h.kinds, h.authors, h.ids, h.eTags⟩, h.since⟩, h.until_⟩, h.dTags⟩,
        h.pTags⟩

end CountColumns

/-- Several `#h` values that name one channel. Their query has no channel scope. -/
def Collapses (f : Filter) : Prop :=
  (∃ chId, requestedChannels f = [chId]) ∧ ¬∃ value, f.hValues = some [value]

def InScope (accessible : List Uuid) (row : EventRow) : Prop :=
  ∀ chId, row.channelId = some chId → chId ∈ accessible

/-- The row's channel is one that `#h` names. -/
def ChannelNamed (f : Filter) (row : EventRow) : Prop :=
  ∀ values, f.hValues = some values →
    ∃ v ∈ values, ∃ chId, Uuid.parse v = some chId ∧ row.channelId = some chId

/-- The channels that the SQL of a filter reaches. -/
def PushedScope (f : Filter) (accessible : List Uuid) (row : EventRow) : Prop :=
  Collapses f ∨ (InScope accessible row ∧ ChannelNamed f row)

namespace CountContext
variable {ctx : CountContext} {values : List String}

theorem requestedChannels_eq (hv : f.hValues = some values) :
    requestedChannels f = (values.filterMap Uuid.parse).foldl pushNew [] := by
  rw [requestedChannels, extractChannelIdsFromFilters_singleton, hv]
  rfl

theorem mem_requestedChannels (hv : f.hValues = some values) :
    chId ∈ requestedChannels f ↔ ∃ v ∈ values, Uuid.parse v = some chId := by
  rw [requestedChannels_eq hv, mem_foldl_pushNew, List.mem_filterMap]
  simp

theorem inScope_iff : InScope accessible row ↔
    row.channelId = none ∨ ∃ chId ∈ accessible, row.channelId = some chId := by
  rw [InScope]
  cases row.channelId <;> simp

theorem not_collapses (hv : f.hValues = none) : ¬Collapses f := by
  rintro ⟨⟨chId, h⟩, _⟩
  rw [requestedChannels, extractChannelIdsFromFilters_singleton, hv] at h
  cases h

/-- A channel that stands alone in `#h` is in the scope and named. -/
theorem pushedScope_single (hreq : requestedChannels f = [chId]) (hin : chId ∈ accessible)
    (hone : f.hValues = some [value]) :
    PushedScope f accessible row ↔ row.channelId = some chId := by
  have hnamed : ∀ c, (∃ v ∈ [value], Uuid.parse v = some c) ↔ c = chId := by
    intro c
    rw [← mem_requestedChannels hone, hreq, List.mem_singleton]
  constructor
  · rintro (⟨_, hmany⟩ | ⟨_, hch⟩)
    · exact absurd ⟨value, hone⟩ hmany
    · obtain ⟨v, hv, c, hp, hrow⟩ := hch _ hone
      rw [hrow, (hnamed c).mp ⟨v, hv, hp⟩]
  · intro hrow
    right
    constructor
    · intro c hc
      rw [hrow, Option.some.injEq] at hc
      exact hc ▸ hin
    · intro values hv
      rw [hone, Option.some.injEq] at hv
      subst hv
      obtain ⟨v, hv, hp⟩ := (hnamed chId).mpr rfl
      exact ⟨v, hv, chId, hp, hrow⟩

theorem pushedScope_many (hlen : (requestedChannels f).length ≠ 1)
    (hv : f.hValues = some values) :
    PushedScope f accessible row ↔
      ∃ chId ∈ (values.filterMap Uuid.parse).filter accessible.contains,
        row.channelId = some chId := by
  have hcol : ¬Collapses f := by
    rintro ⟨⟨chId, h⟩, _⟩
    rw [h] at hlen
    exact hlen rfl
  have hmem : ∀ c, c ∈ (values.filterMap Uuid.parse).filter accessible.contains ↔
      (∃ v ∈ values, Uuid.parse v = some c) ∧ c ∈ accessible := by
    intro c
    rw [List.mem_filter, List.mem_filterMap, List.contains_iff_mem]
  simp only [PushedScope, hcol, false_or, hmem]
  constructor
  · rintro ⟨hscope, hch⟩
    obtain ⟨v, hin, c, hp, hrow⟩ := hch values hv
    exact ⟨c, ⟨⟨v, hin, hp⟩, hscope c hrow⟩, hrow⟩
  · rintro ⟨c, ⟨⟨v, hin, hp⟩, hacc⟩, hrow⟩
    constructor
    · intro c' hc'
      rw [hrow, Option.some.injEq] at hc'
      exact hc' ▸ hacc
    · intro values' hv'
      rw [hv, Option.some.injEq] at hv'
      subst hv'
      exact ⟨v, hin, c, hp, hrow⟩

/-- The channel scope of the query of a filter, when SQL alone decides the filter. -/
theorem filterQuery_pushed (hfast : ctx.fastPath f = true)
    (hq : ctx.filterQuery accessible f (extractChannelIdsFromFilters [f]) = some q) :
    ∃ ch chs g, q = CountColumns.scopedQuery f ch ctx.community chs g ∧
      ∀ row, q.channelClause row = true ↔ PushedScope f accessible row := by
  have hgate : ∀ query, ctx.withSharedGate f query = query := by
    intro query
    simp only [fastPath, Bool.and_eq_true, Bool.not_eq_true'] at hfast
    rw [withSharedGate, if_neg (Bool.eq_false_iff.mp hfast.2)]
  rw [extractChannelIdsFromFilters_singleton] at hq
  cases hv : f.hValues with
  | none =>
    have hnone : extractChannelIdFromFilter f = none := by rw [extractChannelIdFromFilter, hv]
    rw [hv, Option.map_none, filterQuery, hgate, buildEventQueryFromFilter, hnone] at hq
    cases hq
    refine ⟨none, some accessible, true, rfl, fun row => ?_⟩
    rw [EventQuery.channelClause_list rfl rfl rfl]
    simp only [PushedScope, not_collapses hv, false_or, ChannelNamed, hv, inScope_iff]
    simp [filterToQueryParams, EventQuery.forCommunity]
  | some values =>
    rw [hv, Option.map_some, ← requestedChannels_eq hv, filterQuery] at hq
    dsimp only at hq
    split at hq
    · cases hq
    · rename_i first others hauth
      have hfirst : first ∈ (requestedChannels f).filter accessible.contains := by
        rw [hauth]
        exact List.mem_cons_self
      obtain ⟨hin, hacc⟩ := List.mem_filter.mp hfirst
      rw [hgate, buildEventQueryFromFilter] at hq
      by_cases hlen : (requestedChannels f).length = 1
      · obtain ⟨chId, hreq⟩ := List.length_eq_one_iff.mp hlen
        rw [hreq] at hin
        cases List.mem_singleton.mp hin
        rw [if_pos hlen] at hq
        cases hq
        refine ⟨extractChannelIdFromFilter f, none, true, rfl, fun row => ?_⟩
        by_cases hone : ∃ value, f.hValues = some [value]
        · obtain ⟨value, hone⟩ := hone
          have hsome : extractChannelIdsFromFilters [f] = some [first] := by
            rw [extractChannelIdsFromFilters_singleton, hv, Option.map_some,
              ← requestedChannels_eq hv, hreq]
          rw [pushedScope_single hreq (by simpa using hacc) hone]
          exact EventQuery.channelClause_channel (parse_of_single hone hsome) rfl
        · have hcol : Collapses f := ⟨⟨first, hreq⟩, hone⟩
          apply iff_of_true _ (Or.inl hcol)
          exact EventQuery.channelClause_unscoped (channelId_none_of_many hone) rfl rfl
      · have hnone : extractChannelIdFromFilter f = none := by
          rw [extractChannelIdFromFilter, hv]
          split
          · rename_i value hval
            cases hval
            cases hp : Uuid.parse value with
            | none => rfl
            | some c =>
              rw [requestedChannels_eq hv] at hlen
              simp [hp, pushNew] at hlen
          · rfl
        rw [if_neg hlen, applyChannelScopeToQuery, hv, hnone] at hq
        cases hq
        refine ⟨none, some ((values.filterMap Uuid.parse).filter accessible.contains), false, rfl,
          fun row => ?_⟩
        rw [pushedScope_many hlen hv, EventQuery.channelClause_list rfl rfl rfl]
        simp

end CountContext

end Buzz
