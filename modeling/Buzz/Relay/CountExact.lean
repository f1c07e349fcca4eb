import Buzz.Relay.CountColumns

namespace Buzz
set_option autoImplicit true

theorem eventHasTagValue_iff : eventHasTagValue event key v = true ↔
    ∃ tag ∈ event.tags, tag.kind = key ∧ tag.content = some v := by
  simp [eventHasTagValue]

theorem asciiLower_toHex (x : HexId n) : asciiLower x.toHex = x.toHex := by
  have hdigit : ∀ d : Fin 16, ¬('A' ≤ Hex.digitChar d ∧ Hex.digitChar d ≤ 'Z') := by decide
  rw [asciiLower, HexId.toHex, String.toList_ofList]
  congr 1
  rw [HexId.toChars, List.map_map]
  apply List.map_congr_left
  intro d _
  exact if_neg (hdigit d)

theorem canMatchKinds_of_mem (hk : ∀ ks, f.kinds = some ks → kind ∈ ks.elems)
    (ht : table.contains kind.toNat = true) : filterCanMatchKinds table f = true := by
  rw [filterCanMatchKinds]
  cases hf : f.kinds with
  | none => rfl
  | some ks => exact List.any_eq_true.mpr ⟨kind, hk ks hf, ht⟩

/-- Numbers of equal size, with an overlap of the same size, count the same members. -/
theorem countP_agree_iff (l : List α) (p r : α → Bool) :
    (l.countP p = l.countP r ∧ (l.countP fun a => p a && r a) = l.countP r) ↔
      ∀ a ∈ l, p a = r a := by
  constructor
  · rintro ⟨hp, hr⟩
    induction l with
    | nil => simp
    | cons a l ih =>
      have hle : (l.countP fun a => p a && r a) ≤ l.countP p :=
        List.countP_mono_left (by simp +contextual)
      have hle' : (l.countP fun a => p a && r a) ≤ l.countP r :=
        List.countP_mono_left (by simp +contextual)
      rw [List.countP_cons, List.countP_cons] at hp hr
      cases ha : p a <;> cases hb : r a <;> simp only [ha, hb, Bool.and_true, Bool.and_false,
        Bool.false_eq_true, ↓reduceIte] at hp hr
      · exact List.forall_mem_cons.mpr ⟨ha.trans hb.symm, ih (by omega) (by omega)⟩
      · omega
      · omega
      · exact List.forall_mem_cons.mpr ⟨ha.trans hb.symm, ih (by omega) (by omega)⟩
  · intro h
    have hp : l.countP p = l.countP r := List.countP_congr fun a ha => by rw [h a ha]
    refine ⟨hp, List.countP_congr fun a ha => ?_⟩
    rw [h a ha, Bool.and_self]

/-- A row that the SQL of a filter selects and that the filter does not match, by field. -/
inductive TooLoose (f : Filter) (row : EventRow) : Prop
  | before1970 : row.createdAt < 0 → TooLoose f row
  | noAuthors : f.authors = some as → as.elems = [] → TooLoose f row
  | noIds : f.ids = some is → is.elems = [] → TooLoose f row
  | noTagValues : f.genericTags.lookup key = some vs → vs.elems = [] → TooLoose f row
  | lateSince : f.since = some s → DateTime.MAX_SECS < s.toNat → TooLoose f row
  | eElsewhere : f.genericTags.lookup .e = some vs →
    (∀ v ∈ vs.elems, eventHasTagValue row.event "e" v = false) → TooLoose f row
  | pCase : f.genericTags.lookup .p = some vs →
    (∀ v ∈ vs.elems, eventHasTagValue row.event "p" v = false) → TooLoose f row
  | noDTag : f.genericTags.lookup .d = some vs →
    (∀ v, eventHasTagValue row.event "d" v = false) → TooLoose f row
  | hSpelling : f.genericTags.lookup .h = some vs →
    genericTagMatch .h vs ⟨row.event, row.channelId⟩ = false → TooLoose f row

/-- A row that the filter matches and that its SQL does not select. -/
inductive TooStrict (f : Filter) (row : EventRow) : Prop
  | until_ : ReqContext.UntilWraps f → TooStrict f row
  | laterDTag : f.genericTags.lookup .d = some vs → (∀ v ∈ vs.elems, row.dTag ≠ some v) →
    TooStrict f row

namespace CountContext
variable {ctx : CountContext}

/-- The checks that the fallback makes of a row. -/
def accepts (ctx : CountContext) (f : Filter) (se : StoredEvent) : Bool :=
  filtersMatch [f] se && eventVisibleToReader se.event ctx.reader

/-- A live event in the reader's scope that passes the checks of a filter. -/
def matchesRow (ctx : CountContext) (accessible : List Uuid) (f : Filter) (row : EventRow) : Bool :=
  row.communityId == ctx.community && !row.deleted &&
    (match row.channelId with
      | some chId => accessible.contains chId
      | none => true) &&
    row.readsBack (ctx.accepts f)

/-- What the fallback adds to the total, without its candidate budget. -/
def fallbackCount (ctx : CountContext) (store : EventStore) (f : Filter) (query : EventQuery) :
    Except DbError Nat :=
  (store.queryEventsUnlimited (applyCountFallbackLimit query)).map (·.countP (ctx.accepts f))

theorem matchesRow_iff (hdate : row.createdAt ≤ DateTime.MAX_SECS) :
    ctx.matchesRow accessible f row = true ↔
      (row.communityId = ctx.community ∧ row.deleted = false) ∧ InScope accessible row ∧
        0 ≤ row.createdAt ∧ Matches f ⟨row.event, row.channelId⟩ ∧
          eventVisibleToReader row.event ctx.reader = true := by
  have hscope : (match row.channelId with
      | some chId => accessible.contains chId
      | none => true) = true ↔ InScope accessible row := by
    rw [InScope]
    cases row.channelId <;> simp
  rw [matchesRow, Bool.and_eq_true, Bool.and_eq_true, hscope, readsBack_dated _ hdate, accepts,
    filtersMatch_singleton, Bool.and_eq_true, Bool.and_eq_true, filterMatchOne_iff]
  simp [and_assoc]

theorem fastPath_gates (hfast : ctx.fastPath f = true) :
    filterFullyPushable f = true ∧
      (filterCanMatchAuthorOnlyKinds f = true → authorsAreSelf f ctx.reader.toHex = true) ∧
      (filterCanMatchResultGatedKinds f = true → pTagsAreSelf f ctx.reader.toHex = true) ∧
      filterCanMatchSharedGatedKinds f = false := by
  simp only [fastPath, Bool.and_eq_true, Bool.or_eq_true, Bool.not_eq_true',
    needsResultGatedFiltering, needsSharedGateFiltering] at hfast
  obtain ⟨⟨⟨hpush, hauthor⟩, hresult⟩, hshared⟩ := hfast
  refine ⟨hpush, ?_, ?_, hshared⟩
  · intro hcan
    simpa [hcan] using hauthor
  · intro hcan
    simpa [hcan, resultGatedCountSafeForPushdown] using hresult

theorem own_of_authorsAreSelf (hself : authorsAreSelf f ctx.reader.toHex = true)
    (hm : Matches f ev) : ev.event.pubkey = ctx.reader := by
  rw [authorsAreSelf] at hself
  split at hself
  · rename_i as hf
    rw [Bool.and_eq_true, List.all_eq_true] at hself
    have he := eq_of_beq (hself.2 _ (hm.authors as hf))
    rw [asciiLower_toHex, asciiLower_toHex] at he
    exact HexId.toHex_injective he
  · cases hself

theorem named_of_pTagsAreSelf (hself : pTagsAreSelf f ctx.reader.toHex = true)
    (hm : Matches f ev) : eventHasTagValue ev.event "p" ctx.reader.toHex = true := by
  rw [pTagsAreSelf] at hself
  split at hself
  · rename_i values hl
    rw [Bool.and_eq_true, List.all_eq_true] at hself
    obtain ⟨v, hv, htag⟩ := genericTagMatch_tag (hm.tags .p values hl) (by decide)
    rw [← eq_of_beq (hself.2 v hv)]
    exact htag
  · cases hself

/-- What the gates of the fast path leave is visible to the reader. -/
theorem visible_of_matches (hfast : ctx.fastPath f = true) (hm : Matches f ev) :
    eventVisibleToReader ev.event ctx.reader = true := by
  obtain ⟨_, hauthor, hresult, hshared⟩ := fastPath_gates hfast
  have hown : isAuthorOnlyEvent ev.event ctx.reader = false := by
    cases ht : AUTHOR_ONLY_KINDS.contains ev.event.kind.toNat with
    | false => rw [isAuthorOnlyEvent, ht, Bool.false_and]
    | true =>
      have hself := hauthor (canMatchKinds_of_mem hm.kinds ht)
      simp [isAuthorOnlyEvent, own_of_authorsAreSelf hself hm]
  have hgate : isUnsharedGatedEvent ev.event ctx.reader = false := by
    cases ht : isSharedGatedKind ev.event.kind.toNat with
    | false =>
      rw [isUnsharedGatedEvent, ht]
      rfl
    | true =>
      have hcan : filterCanMatchSharedGatedKinds f = true := canMatchKinds_of_mem hm.kinds ht
      rw [hshared] at hcan
      cases hcan
  rw [eventVisibleToReader, hown, hgate, if_neg Bool.false_ne_true, if_neg Bool.false_ne_true,
    readerAuthorizedForEvent]
  split
  · rfl
  · rename_i hk
    have ht : RESULT_GATED_KINDS.contains ev.event.kind.toNat = true := by
      simpa [RESULT_GATED_KINDS, imp_iff_not_or, or_comm] using hk
    exact named_of_pTagsAreSelf (hresult (canMatchKinds_of_mem hm.kinds ht)) hm

end CountContext

/-- A matching `#h` constraint names the channel of the row. -/
theorem channelNamed_of_match (hst : StoredRow row)
    (hm : ∀ vs, f.genericTags.lookup .h = some vs →
      genericTagMatch .h vs ⟨row.event, row.channelId⟩ = true) : ChannelNamed f row := by
  intro values hv
  obtain ⟨vs, hl, rfl⟩ := Option.map_eq_some_iff.mp hv
  rcases genericTagMatch_channel (hm vs hl) with ⟨v, hin, htag⟩ | ⟨chId, hch, hin⟩
  · obtain ⟨tag, hmem, hk, hval⟩ := eventHasTagValue_iff.mp htag
    obtain ⟨w, chId, hw, hp, hch⟩ := hst.hTags tag hmem hk
    rw [hval, Option.some.injEq] at hw
    subst hw
    exact ⟨v, hin, chId, hp, hch⟩
  · exact ⟨Uuid.toString chId, hin, chId, Uuid.parse_toString chId, hch⟩

/-- The column of an event with a `d` value holds one of its values. -/
theorem eventHasTagValue_extractDTag (h : extractDTag event = some v)
    (hw : eventHasTagValue event "d" w = true) : eventHasTagValue event "d" v = true := by
  rw [extractDTag] at h
  split at h
  · cases h
  · rw [Option.some.injEq] at h
    cases hf : event.tags.findSome? fun tag => if tag.kind == "d" then tag.content else none with
    | none =>
      obtain ⟨tag, hmem, hk, hval⟩ := eventHasTagValue_iff.mp hw
      have hnone := List.findSome?_eq_none_iff.mp hf tag hmem
      simp [hk, hval] at hnone
    | some c =>
      rw [hf, Option.getD_some] at h
      subst h
      obtain ⟨tag, hmem, hsome⟩ := List.exists_of_findSome?_eq_some hf
      split at hsome
      · rename_i hk
        exact eventHasTagValue_iff.mpr ⟨tag, hmem, eq_of_beq hk, hsome⟩
      · cases hsome

theorem createdAt_event {row : EventRow} (h₀ : 0 ≤ row.createdAt)
    (h₁ : row.createdAt ≤ DateTime.MAX_SECS) :
    (row.event.createdAt.toNat : Int) = row.createdAt := by
  rw [DateTime.MAX_SECS] at h₁
  rw [EventRow.event, UInt64.toNat_ofNat_of_lt' (by simp only [UInt64.size]; omega)]
  omega

theorem fromTimestamp_of_le {t : UInt64} (h : (t.toNat : Int) ≤ DateTime.MAX_SECS) :
    DateTime.fromTimestamp (asI64 t) = some (t.toNat : Int) := by
  rw [DateTime.MAX_SECS] at h
  rw [asI64, if_pos (by omega), DateTime.fromTimestamp, DateTime.MIN_SECS, DateTime.MAX_SECS,
    if_pos (by omega)]

/-- A timestamp that is cast to a date is that date or wraps to one before 1970. -/
theorem fromTimestamp_cases {t : UInt64} (h : DateTime.fromTimestamp (asI64 t) = some d) :
    d = t.toNat ∨ (d < 0 ∧ 2 ^ 64 + DateTime.MIN_SECS ≤ (t.toNat : Int)) := by
  rw [DateTime.fromTimestamp] at h
  split at h
  · rename_i hrange
    cases h
    have hlt : t.toNat < 2 ^ 64 := t.toNat_lt
    rw [DateTime.MIN_SECS] at hrange ⊢
    rw [asI64] at hrange ⊢
    split at hrange <;> split <;> omega
  · cases h

theorem hasTag_of_match (hm : Matches f ev) (hl : f.genericTags.lookup key = some vs)
    (hk : key ≠ .h) (hno : ∀ v ∈ vs.elems, eventHasTagValue ev.event key.toString v = false) :
    False := by
  obtain ⟨v, hv, htag⟩ := genericTagMatch_tag (hm.tags key vs hl) hk
  rw [hno v hv] at htag
  cases htag

theorem no_tag_of_not_match (hk : key ≠ .h) (hno : ¬genericTagMatch key vs ev = true) :
    ∀ v ∈ vs.elems, eventHasTagValue ev.event key.toString v = false := by
  intro v hv
  by_contra hyes
  exact hno ((genericTagMatch_iff hk).mpr ⟨v, hv, Bool.not_eq_false _ ▸ hyes⟩)

/-- What a selected row has to show so that the filter matches it. -/
theorem not_tooLoose_of_matches (hst : StoredRow row) (h₀ : 0 ≤ row.createdAt)
    (hm : Matches f ⟨row.event, row.channelId⟩) : ¬TooLoose f row := by
  intro hl
  cases hl with
  | before1970 hneg => omega
  | noAuthors hf he =>
    have hin := hm.authors _ hf
    rw [he] at hin
    cases hin
  | noIds hf he =>
    have hin := hm.ids _ hf
    rw [he] at hin
    cases hin
  | noTagValues hf he =>
    have hmatch := hm.tags _ _ hf
    rw [genericTagMatch, he] at hmatch
    simp only [List.any_nil, Bool.not_false, Bool.true_and] at hmatch
    split at hmatch
    · split at hmatch
      · split at hmatch <;> cases hmatch
      · cases hmatch
    · cases hmatch
  | @lateSince s hf hlate =>
    have hle : s.toNat ≤ row.event.createdAt.toNat := hm.since s hf
    have hrow := createdAt_event h₀ hst.date.2
    have hdate := hst.date.2
    omega
  | eElsewhere hf hno => exact hasTag_of_match hm hf (by decide) hno
  | pCase hf hno => exact hasTag_of_match hm hf (by decide) hno
  | noDTag hf hno => exact hasTag_of_match hm hf (by decide) fun v _ => hno v
  | hSpelling hf hno =>
    rw [hm.tags _ _ hf] at hno
    cases hno

theorem matches_of_not_tooLoose (hst : StoredRow row) (hpush : filterFullyPushable f = true)
    (hp : PushedColumns f row) (hno : ¬TooLoose f row) :
    0 ≤ row.createdAt ∧ Matches f ⟨row.event, row.channelId⟩ := by
  have h₀ : 0 ≤ row.createdAt := by
    by_contra hneg
    exact hno (.before1970 (not_le.mp hneg))
  have hrow := createdAt_event h₀ hst.date.2
  refine ⟨h₀, hp.kinds, ?_, ?_, ?_, ?_, ?_⟩
  · intro as hf
    exact (hp.authors as hf).resolve_left fun he => hno (.noAuthors hf he)
  · intro s hf
    have hle : (s.toNat : Int) ≤ DateTime.MAX_SECS := by
      by_contra hlate
      exact hno (.lateSince hf (not_le.mp hlate))
    have hsince := hp.since s hf _ (fromTimestamp_of_le hle)
    have hnat : s.toNat ≤ row.event.createdAt.toNat := by omega
    exact hnat
  · intro u hf
    have hdate := hst.date.2
    have hnat : row.event.createdAt.toNat ≤ u.toNat := by
      by_cases hle : (u.toNat : Int) ≤ DateTime.MAX_SECS
      · have huntil := hp.until_ u hf _ (fromTimestamp_of_le hle)
        omega
      · omega
    exact hnat
  · intro is hf
    exact (hp.ids is hf).resolve_left fun he => hno (.noIds hf he)
  · intro key vs hl
    by_contra hmatch
    by_cases hh : key = .h
    · subst hh
      exact hno (.hSpelling hl (Bool.eq_false_iff.mpr hmatch))
    · have hnone := no_tag_of_not_match hh hmatch
      by_cases he : key = .e
      · subst he
        exact hno (.eElsewhere hl hnone)
      · rcases pushable_tag hpush hl hh he with hemp | ⟨rfl, _⟩ | ⟨rfl, _⟩
        · exact hno (.noTagValues hl hemp)
        · exact hno (.pCase hl hnone)
        · rcases hp.dTags vs hl with hemp | ⟨v, hv, hd⟩
          · exact hno (.noTagValues hl hemp)
          · -- the column holds a value of the filter, so it is no value of the event
            refine hno (.noDTag hl fun w => ?_)
            by_contra hw
            rw [hst.dTag] at hd
            have hyes := eventHasTagValue_extractDTag hd (Bool.not_eq_false _ ▸ hw)
            exact absurd (hnone v hv) (Bool.not_eq_false _ ▸ hyes)

/-- What a matching row has to show so that the SQL of the filter selects it. -/
theorem pushed_iff_not_tooStrict (hst : StoredRow row) (h₀ : 0 ≤ row.createdAt)
    (hm : Matches f ⟨row.event, row.channelId⟩) :
    PushedColumns f row ↔ ¬TooStrict f row := by
  have hrow := createdAt_event h₀ hst.date.2
  constructor
  · intro hp hs
    cases hs with
    | until_ hwraps =>
      obtain ⟨u, hf, hle⟩ := hwraps
      have hlt : u.toNat < 2 ^ 64 := u.toNat_lt
      have hcast : DateTime.fromTimestamp (asI64 u) = some ((u.toNat : Int) - 2 ^ 64) := by
        rw [DateTime.MIN_SECS] at hle
        rw [asI64, if_neg (by omega), DateTime.fromTimestamp, DateTime.MIN_SECS,
          DateTime.MAX_SECS, if_pos (by omega)]
      have huntil := hp.until_ u hf _ hcast
      omega
    | laterDTag hl hno =>
      rcases hp.dTags _ hl with hemp | ⟨v, hv, hd⟩
      · obtain ⟨v, hv, _⟩ := genericTagMatch_tag (hm.tags _ _ hl) (by decide)
        rw [hemp] at hv
        cases hv
      · exact hno v hv hd
  · intro hno
    refine ⟨hm.kinds, fun as hf => .inr (hm.authors as hf), fun is hf => .inr (hm.ids is hf),
      ?_, ?_, ?_, ?_, ?_⟩
    · intro s hf t ht
      have hle : s.toNat ≤ row.event.createdAt.toNat := hm.since s hf
      rcases fromTimestamp_cases ht with rfl | ⟨hneg, _⟩
      · omega
      · omega
    · intro u hf t ht
      have hle : row.event.createdAt.toNat ≤ u.toNat := hm.until_ u hf
      rcases fromTimestamp_cases ht with rfl | ⟨_, hwraps⟩
      · omega
      · exact absurd (TooStrict.until_ ⟨u, hf, hwraps⟩) hno
    · intro vs hl
      obtain ⟨v, hv, htag⟩ := genericTagMatch_tag (hm.tags .e vs hl) (by decide)
      obtain ⟨tag, hmem, hk, hval⟩ := eventHasTagValue_iff.mp htag
      have hname : "e" ∈ tag.asSlice := by
        rw [Tag.asSlice, hk]
        exact List.mem_cons_self
      exact .inr ⟨v, hv, tag, hmem, hname, List.mem_cons_of_mem _ (List.mem_of_mem_head? hval)⟩
    · intro vs hl
      right
      by_contra hnone
      refine hno (.laterDTag hl fun v hv hd => hnone ⟨v, hv, hd⟩)
    · intro vs hl
      obtain ⟨v, hv, htag⟩ := genericTagMatch_tag (hm.tags .p vs hl) (by decide)
      obtain ⟨tag, hmem, hk, hval⟩ := eventHasTagValue_iff.mp htag
      rw [hst.mentions]
      exact .inr ⟨v, hv, mem_mentionRows hmem hk hval⟩

namespace CountContext
variable {ctx : CountContext}

/-- One requested channel is accessible, or the filter has no query. -/
theorem accessible_of_requested (hreq : requestedChannels f = [chId])
    (hq : ctx.filterQuery accessible f (extractChannelIdsFromFilters [f]) = some q) :
    chId ∈ accessible := by
  have hsome : extractChannelIdsFromFilters [f] = some [chId] := by
    rw [requestedChannels] at hreq
    cases he : extractChannelIdsFromFilters [f] with
    | none =>
      rw [he] at hreq
      cases hreq
    | some requested =>
      rw [he] at hreq
      exact congrArg some hreq
  by_contra hnin
  have hnil : [chId].filter accessible.contains = [] := by simpa using hnin
  rw [hsome, filterQuery, hnil] at hq
  cases hq

theorem inScope_of_named (hs : PushedScope f accessible row) (hn : ChannelNamed f row)
    (hq : ctx.filterQuery accessible f (extractChannelIdsFromFilters [f]) = some q) :
    InScope accessible row := by
  rcases hs with ⟨⟨chId, hreq⟩, _⟩ | ⟨hscope, _⟩
  · cases hv : f.hValues with
    | none =>
      rw [requestedChannels, extractChannelIdsFromFilters_singleton, hv] at hreq
      cases hreq
    | some values =>
      obtain ⟨v, hin, c, hp, hrow⟩ := hn values hv
      have hmem : c ∈ requestedChannels f := (mem_requestedChannels hv).mpr ⟨v, hin, hp⟩
      rw [hreq, List.mem_singleton] at hmem
      subst hmem
      intro c' hc'
      rw [hrow, Option.some.injEq] at hc'
      exact hc' ▸ accessible_of_requested hreq hq
  · exact hscope

/-- SQL and the filter disagree about the row. -/
def Misjudged (accessible : List Uuid) (f : Filter) (row : EventRow) : Prop :=
  (PushedScope f accessible row ∧ PushedColumns f row ∧ TooLoose f row) ∨
    (InScope accessible row ∧ filtersMatch [f] ⟨row.event, row.channelId⟩ = true ∧
      0 ≤ row.createdAt ∧ TooStrict f row)

theorem matchesRow_live (h : ctx.matchesRow accessible f row = true) :
    row.communityId = ctx.community ∧ row.deleted = false := by
  simp only [matchesRow, Bool.and_eq_true, beq_iff_eq, Bool.not_eq_true'] at h
  exact h.1.1

section
variable {f : Filter} {q : EventQuery} {row : EventRow}

theorem selects_pushed (hfast : ctx.fastPath f = true)
    (hq : ctx.filterQuery accessible f (extractChannelIdsFromFilters [f]) = some q) :
    q.selects row = true ↔ (row.communityId = ctx.community ∧ row.deleted = false) ∧
      PushedScope f accessible row ∧ PushedColumns f row := by
  obtain ⟨ch, chs, g, rfl, hch⟩ := filterQuery_pushed hfast hq
  rw [CountColumns.selects_iff (fastPath_gates hfast).1, hch]

theorem matches_of_selects (hst : row.deleted = false → StoredRow row)
    (hfast : ctx.fastPath f = true)
    (hq : ctx.filterQuery accessible f (extractChannelIdsFromFilters [f]) = some q)
    (hs : q.selects row = true) (hno : ¬TooLoose f row) :
    ctx.matchesRow accessible f row = true := by
  obtain ⟨hlive, hscope, hp⟩ := (selects_pushed hfast hq).mp hs
  have hst := hst hlive.2
  obtain ⟨h₀, hm⟩ := matches_of_not_tooLoose hst (fastPath_gates hfast).1 hp hno
  have hnamed := channelNamed_of_match hst fun vs hl => hm.tags .h vs hl
  exact (matchesRow_iff hst.date.2).mpr
    ⟨hlive, inScope_of_named hscope hnamed hq, h₀, hm, visible_of_matches hfast hm⟩

theorem selects_of_matches (hst : row.deleted = false → StoredRow row)
    (hfast : ctx.fastPath f = true)
    (hq : ctx.filterQuery accessible f (extractChannelIdsFromFilters [f]) = some q)
    (hm : ctx.matchesRow accessible f row = true) (hno : ¬TooStrict f row) :
    q.selects row = true := by
  have hlive := matchesRow_live hm
  have hst := hst hlive.2
  obtain ⟨_, hscope, h₀, hm, _⟩ := (matchesRow_iff hst.date.2).mp hm
  have hnamed := channelNamed_of_match hst fun vs hl => hm.tags .h vs hl
  exact (selects_pushed hfast hq).mpr
    ⟨hlive, .inr ⟨hscope, hnamed⟩, (pushed_iff_not_tooStrict hst h₀ hm).mpr hno⟩

/-- SQL and the filter agree about a row that is not misjudged. -/
theorem selects_eq_iff (hst : row.deleted = false → StoredRow row)
    (hfast : ctx.fastPath f = true)
    (hq : ctx.filterQuery accessible f (extractChannelIdsFromFilters [f]) = some q) :
    q.selects row = ctx.matchesRow accessible f row ↔
      (row.communityId = ctx.community → row.deleted = false → ¬Misjudged accessible f row) := by
  rw [Bool.eq_iff_iff]
  constructor
  · rintro heq hcom hlive (⟨hscope, hp, hloose⟩ | ⟨hscope, hmatch, h₀, hstrict⟩)
    · have hs := (selects_pushed hfast hq).mpr ⟨⟨hcom, hlive⟩, hscope, hp⟩
      obtain ⟨_, _, h₀, hm, _⟩ := (matchesRow_iff (hst hlive).date.2).mp (heq.mp hs)
      exact not_tooLoose_of_matches (hst hlive) h₀ hm hloose
    · rw [filtersMatch_singleton, filterMatchOne_iff] at hmatch
      have hrow := (matchesRow_iff (hst hlive).date.2).mpr
        ⟨⟨hcom, hlive⟩, hscope, h₀, hmatch, visible_of_matches hfast hmatch⟩
      obtain ⟨_, _, hp⟩ := (selects_pushed hfast hq).mp (heq.mpr hrow)
      exact (pushed_iff_not_tooStrict (hst hlive) h₀ hmatch).mp hp hstrict
  · intro hok
    constructor
    · intro hs
      obtain ⟨⟨hcom, hlive⟩, hscope, hp⟩ := (selects_pushed hfast hq).mp hs
      exact matches_of_selects hst hfast hq hs fun hloose =>
        hok hcom hlive (.inl ⟨hscope, hp, hloose⟩)
    · intro hm
      obtain ⟨hcom, hlive⟩ := matchesRow_live hm
      obtain ⟨_, hscope, h₀, hmatch, _⟩ := (matchesRow_iff (hst hlive).date.2).mp hm
      refine selects_of_matches hst hfast hq hm fun hstrict =>
        hok hcom hlive (.inr ⟨hscope, ?_, h₀, hstrict⟩)
      rw [filtersMatch_singleton, filterMatchOne_iff]
      exact hmatch

/-- Among the selected rows the checks of the fallback decide. -/
theorem readsBack_of_selects (hst : row.deleted = false → StoredRow row)
    (hfast : ctx.fastPath f = true)
    (hq : ctx.filterQuery accessible f (extractChannelIdsFromFilters [f]) = some q) :
    (q.selects row && row.readsBack (ctx.accepts f)) =
      (q.selects row && ctx.matchesRow accessible f row) := by
  cases hs : q.selects row with
  | false => rfl
  | true =>
    obtain ⟨hlive, hscope, _⟩ := (selects_pushed hfast hq).mp hs
    have hst := hst hlive.2
    rw [Bool.true_and, Bool.true_and, Bool.eq_iff_iff, matchesRow_iff hst.date.2,
      readsBack_dated _ hst.date.2, accepts, filtersMatch_singleton, Bool.and_eq_true,
      filterMatchOne_iff]
    constructor
    · rintro ⟨h₀, hm, hvis⟩
      have hnamed := channelNamed_of_match hst fun vs hl => hm.tags .h vs hl
      exact ⟨hlive, inScope_of_named hscope hnamed hq, h₀, hm, hvis⟩
    · rintro ⟨_, _, h₀, hm, hvis⟩
      exact ⟨h₀, hm, hvis⟩

end

/-- The fast path counts the events in scope that the filter matches and the reader may see,
as many as the fallback would without its candidate budget. -/
def FastCountExact (ctx : CountContext) (store : EventStore) (accessible : List Uuid) (f : Filter)
    (q : EventQuery) : Prop :=
  ctx.execute store f (ctx.handOver f (extractChannelIdsFromFilters [f]) q) =
      .ok (store.rows.countP (ctx.matchesRow accessible f)) ∧
    ctx.fallbackCount store f q = .ok (store.rows.countP (ctx.matchesRow accessible f))

/-- The fast path is exact when SQL and the filter agree about every live row of the community,
and only then. -/
theorem fastCountExact_iff
    (hst : ∀ row ∈ store.rows, row.deleted = false → StoredRow row)
    (hfast : ctx.fastPath f = true)
    (hq : ctx.filterQuery accessible f (extractChannelIdsFromFilters [f]) = some q) :
    ctx.FastCountExact store accessible f q ↔
      ∀ row ∈ store.rows, row.communityId = ctx.community → row.deleted = false →
        ¬Misjudged accessible f row := by
  have hnodup : ∀ row ∈ store.rows, row.deleted = false → row.mentions.Nodup :=
    fun row hrow hlive => (hst row hrow hlive).mentions_nodup
  have hcount : ctx.execute store f (ctx.handOver f (extractChannelIdsFromFilters [f]) q) =
      .ok (store.rows.countP q.selects) := by
    rw [handOver, if_pos hfast, execute, EventStore.countEvents_eq store _ hnodup]
    cases (extractChannelIdsFromFilters [f]).isNone <;> rfl
  have hfall : ctx.fallbackCount store f q =
      .ok (store.rows.countP fun row => q.selects row && ctx.matchesRow accessible f row) := by
    have hp := filterQuery_plain hq
    have hgate : q.sharedGatedReader = none := by
      obtain ⟨_, _, _, rfl, _⟩ := filterQuery_pushed hfast hq
      rfl
    obtain ⟨events, he, hn⟩ := store.countP_queryEventsUnlimited
      (q := applyCountFallbackLimit q) ⟨hp.beforeId, hp.globalOnly, hp.offset⟩ hgate hnodup
      (ctx.accepts f)
    rw [fallbackCount, he, Except.map, hn]
    congr 1
    apply List.countP_congr
    intro row hrow
    rw [← readsBack_of_selects (hst row hrow) hfast hq]
    rfl
  rw [FastCountExact, hcount, hfall, Except.ok.injEq, Except.ok.injEq, countP_agree_iff]
  constructor
  · intro h row hrow
    exact (selects_eq_iff (hst row hrow) hfast hq).mp (h row hrow)
  · intro h row hrow
    exact (selects_eq_iff (hst row hrow) hfast hq).mpr (h row hrow)

end CountContext

namespace CountExample
open PushdownExample

def countCtx : CountContext := countContext "c" conn auth access

/-- Messages, by anyone or by nobody. -/
def messages (authors : Option (ValueSet PublicKey)) : Filter :=
  { Filter.new with kinds := some (.ofList [9]), authors := authors }

def messagesQuery (authors : Option (ValueSet PublicKey)) : EventQuery :=
  { buildEventQueryFromFilter (messages authors) community with channelIds := some [channelA] }

theorem storedRow_note : StoredRow note :=
  ⟨by decide +kernel, by decide +kernel, by decide +kernel, by simp [note]⟩

theorem storedRow_noteStore : ∀ row ∈ noteStore.rows, row.deleted = false → StoredRow row := by
  intro row hrow _
  cases List.mem_singleton.mp hrow
  exact storedRow_note

end CountExample

open CountExample PushdownExample in
/-- `authors: []` matches no event, and the fast path counts them all. -/
theorem fastCount_ignores_empty_authors :
    (∀ row ∈ noteStore.rows, row.deleted = false → StoredRow row) ∧
      countCtx.fastPath (messages (some (.ofList []))) = true ∧
      countCtx.filterQuery [channelA] (messages (some (.ofList [])))
        (extractChannelIdsFromFilters [messages (some (.ofList []))]) =
          some (messagesQuery (some (.ofList []))) ∧
      countCtx.execute noteStore (messages (some (.ofList [])))
        (countCtx.handOver (messages (some (.ofList [])))
          (extractChannelIdsFromFilters [messages (some (.ofList []))])
          (messagesQuery (some (.ofList [])))) = .ok 1 ∧
      noteStore.rows.countP (countCtx.matchesRow [channelA] (messages (some (.ofList [])))) = 0 ∧
      ¬countCtx.FastCountExact noteStore [channelA] (messages (some (.ofList [])))
        (messagesQuery (some (.ofList []))) := by
  have hone : countCtx.execute noteStore (messages (some (.ofList [])))
      (countCtx.handOver (messages (some (.ofList [])))
        (extractChannelIdsFromFilters [messages (some (.ofList []))])
        (messagesQuery (some (.ofList [])))) = .ok 1 := by decide +kernel
  have hzero : noteStore.rows.countP
      (countCtx.matchesRow [channelA] (messages (some (.ofList [])))) = 0 := by decide +kernel
  refine ⟨storedRow_noteStore, by decide +kernel, rfl, hone, hzero, ?_⟩
  rintro ⟨hcount, _⟩
  rw [hone, hzero] at hcount
  cases hcount

open CountExample PushdownExample in
theorem fastCountExact_messages :
    countCtx.FastCountExact noteStore [channelA] (messages none) (messagesQuery none) := by
  apply (CountContext.fastCountExact_iff storedRow_noteStore (by decide +kernel) rfl).mpr
  intro row hrow _ _
  cases List.mem_singleton.mp hrow
  rintro (⟨_, _, hloose⟩ | ⟨_, _, _, hstrict⟩)
  · cases hloose with
    | before1970 h => exact absurd h (by decide)
    | noAuthors hf _ => cases hf
    | noIds hf _ => cases hf
    | noTagValues hf _ => cases hf
    | lateSince hf _ => cases hf
    | eElsewhere hf _ => cases hf
    | pCase hf _ => cases hf
    | noDTag hf _ => cases hf
    | hSpelling hf _ => cases hf
  · cases hstrict with
    | until_ hwraps =>
      obtain ⟨u, hu, _⟩ := hwraps
      cases hu
    | laterDTag hf _ => cases hf

end Buzz
