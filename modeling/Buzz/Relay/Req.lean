import Buzz.Db.EventQuery
import Buzz.Lib.PostingIndex

namespace Buzz
set_option autoImplicit true

def MAX_SUBSCRIPTIONS : Nat := 1024
def MAX_EXPLICIT_CHANNEL_VALUES : Nat := 128
def COUNT_FALLBACK_CANDIDATE_LIMIT : Int := 5000

/-- The values of a filter's `#h` constraint. -/
def Filter.hValues (f : Filter) : Option (List String) :=
  (f.genericTags.lookup .h).map ValueSet.elems

/-- Admit a channel that the cache missed when the token allows it and the database says
that the reader is a member. -/
def resolveRequestLocalAccess (accessible : List Uuid) (chId : Uuid) (tokenAllows : Bool)
    (dbIsMember : Option Bool) : List Uuid :=
  if !tokenAllows then accessible
  else if accessible.contains chId then accessible
  else
    match dbIsMember with
    | some true => accessible ++ [chId]
    | _ => accessible

@[simp]
theorem resolveRequestLocalAccess_denied (accessible : List Uuid) (chId : Uuid) :
    resolveRequestLocalAccess accessible chId false member = accessible := by
  simp [resolveRequestLocalAccess]

@[simp]
theorem resolveRequestLocalAccess_nonmember (accessible : List Uuid) (chId : Uuid) :
    resolveRequestLocalAccess accessible chId true (some false) = accessible := by
  simp [resolveRequestLocalAccess]

theorem resolveRequestLocalAccess_member {accessible : List Uuid}
    (h : ¬accessible.contains chId = true) :
    resolveRequestLocalAccess accessible chId true (some true) = accessible ++ [chId] := by
  simp only [resolveRequestLocalAccess, h]
  rfl

/-- The channel of a filter with exactly one `#h` value. -/
def extractChannelIdFromFilter (f : Filter) : Option Uuid :=
  match f.hValues with
  | some [value] => Uuid.parse value
  | _ => none

def kindsAllParameterized (kinds : Option (List Kind)) : Bool :=
  match kinds with
  | some ks => !ks.isEmpty && ks.all fun k => isParameterizedReplaceable k.toNat
  | none => false

/-- One filter as a database query. -/
def filterToQueryParams (f : Filter) (channelId : Option Uuid) (community : CommunityId) :
    EventQuery :=
  let kinds := f.kinds.map ValueSet.elems
  let dValues := if kindsAllParameterized kinds then
    (f.genericTags.lookup .d).map ValueSet.elems else none
  { EventQuery.forCommunity community with
    channelId := channelId
    kinds := kinds
    pubkey :=
      match f.authors.map ValueSet.elems with
      | some [pk] => some pk
      | _ => none
    since := f.since.bind fun s => DateTime.fromTimestamp (asI64 s)
    until_ := f.until_.bind fun u => DateTime.fromTimestamp (asI64 u)
    limit := some
      (match f.limit with
        | some l => min (asI64 l) DEFAULT_MAX_PAGE_LIMIT
        | none => DEFAULT_MAX_PAGE_LIMIT)
    pTagHex :=
      match (f.genericTags.lookup .p).map ValueSet.elems with
      | some [value] => some value
      | _ => none
    dTag :=
      match dValues with
      | some [value] => some value
      | _ => none
    dTags :=
      match dValues with
      | some (v :: w :: vs) => some (v :: w :: vs)
      | _ => none
    authors :=
      match f.authors.map ValueSet.elems with
      | some (a :: b :: as) => some (a :: b :: as)
      | _ => none
    ids :=
      match f.ids.map ValueSet.elems with
      | some (i :: is) => some (i :: is)
      | _ => none
    eTags :=
      match (f.genericTags.lookup .e).map ValueSet.elems with
      | some (v :: vs) => some (v :: vs)
      | _ => none }

def buildEventQueryFromFilter (f : Filter) (community : CommunityId) : EventQuery :=
  filterToQueryParams f (extractChannelIdFromFilter f) community

/-- Push the channel constraint of a filter into its query. The caller has already set
`channel_id` when it passes one here. -/
def applyChannelScopeToQuery (query : EventQuery) (f : Filter) (channelId : Option Uuid)
    (accessible : List Uuid) : EventQuery :=
  if channelId.isSome then query
  else
    match f.hValues with
    | some values =>
      { query with
        channelIds := some ((values.filterMap Uuid.parse).filter accessible.contains)
        channelIdsIncludeGlobal := false }
    | none => { query with channelIds := some accessible }

theorem filterToQueryParams_plain (f : Filter) (channelId : Option Uuid)
    (community : CommunityId) : (filterToQueryParams f channelId community).Plain :=
  ⟨rfl, rfl, rfl⟩

/-- Only `kinds: []` makes a pushed query match nothing. -/
theorem matchesNothing_filterToQueryParams (f : Filter) (channelId : Option Uuid)
    (community : CommunityId) :
    (filterToQueryParams f channelId community).matchesNothing =
      (f.kinds.map ValueSet.elems == some []) := by
  rw [EventQuery.matchesNothing]
  simp only [filterToQueryParams]
  generalize f.authors.map ValueSet.elems = authors
  generalize f.ids.map ValueSet.elems = ids
  generalize (f.genericTags.lookup .e).map ValueSet.elems = eTags
  rcases authors with _ | (_ | ⟨a, _ | ⟨b, as⟩⟩) <;> rcases ids with _ | (_ | ⟨i, is⟩) <;>
    rcases eTags with _ | (_ | ⟨v, vs⟩) <;> simp

theorem EventQuery.Plain.applyChannelScope {query : EventQuery} (h : query.Plain) (f : Filter)
    (channelId : Option Uuid) (accessible : List Uuid) :
    (applyChannelScopeToQuery query f channelId accessible).Plain := by
  rw [applyChannelScopeToQuery]
  cases channelId with
  | some id => exact h
  | none =>
    cases f.hValues with
    | none => exact ⟨h.beforeId, h.globalOnly, h.offset⟩
    | some values => exact ⟨h.beforeId, h.globalOnly, h.offset⟩

def extractChannelIdsLoop (channelIds : List Uuid) : List Filter → Option (List Uuid)
  | [] => some channelIds
  | f :: fs =>
    match f.hValues with
    | none => none
    | some values => extractChannelIdsLoop ((values.filterMap Uuid.parse).foldl pushNew channelIds) fs

/-- The channels of all filters, or `none` when some filter has no `#h`. -/
def extractChannelIdsFromFilters (filters : List Filter) : Option (List Uuid) :=
  extractChannelIdsLoop [] filters

def explicitChannelValueCount (filters : List Filter) : Nat :=
  (filters.map fun f => ((f.genericTags.lookup .h).map ValueSet.len).getD 0).sum

def extractChannelIdsFromFiltersLimited (filters : List Filter) :
    Except Unit (Option (List Uuid)) :=
  if MAX_EXPLICIT_CHANNEL_VALUES < explicitChannelValueCount filters then .error ()
  else .ok (extractChannelIdsFromFilters filters)

/-- The inner loop of `extract_channel_id_from_filters`: `none` when two channels differ,
else the channel found so far and whether this filter named one. -/
def scanChannelValues (found : Option Uuid) (filterHasChannel : Bool) :
    List String → Option (Option Uuid × Bool)
  | [] => some (found, filterHasChannel)
  | value :: values =>
    match Uuid.parse value with
    | none => scanChannelValues found filterHasChannel values
    | some id =>
      match found with
      | some existing =>
        if existing ≠ id then none else scanChannelValues (some id) true values
      | none => scanChannelValues (some id) true values

def extractChannelIdFromFiltersLoop (found : Option Uuid) : List Filter → Option Uuid
  | [] => found
  | f :: fs =>
    match scanChannelValues found false (f.hValues.getD []) with
    | some (found, true) => extractChannelIdFromFiltersLoop found fs
    | _ => none

/-- The one channel that every filter names. -/
def extractChannelIdFromFilters (filters : List Filter) : Option Uuid :=
  extractChannelIdFromFiltersLoop none filters

/-- The filter has no `kinds` or names one of the table. -/
def filterCanMatchKinds (table : List Nat) (f : Filter) : Bool :=
  match f.kinds with
  | some ks => ks.elems.any fun k => table.contains k.toNat
  | none => true

def filterCanMatchAuthorOnlyKinds : Filter → Bool :=
  filterCanMatchKinds AUTHOR_ONLY_KINDS

def filterCanMatchSharedGatedKinds : Filter → Bool :=
  filterCanMatchKinds SHARED_GATED_KINDS

def filterCanMatchResultGatedKinds : Filter → Bool :=
  filterCanMatchKinds RESULT_GATED_KINDS

/-- `#p` is non-empty and names only the reader. -/
def pTagsAreSelf (f : Filter) (authedPubkeyHex : String) : Bool :=
  match f.genericTags.lookup .p with
  | some values => !values.isEmpty && values.elems.all fun v => v == authedPubkeyHex
  | none => false

/-- `authors` is non-empty and names only the reader. -/
def authorsAreSelf (f : Filter) (authedPubkeyHex : String) : Bool :=
  match f.authors with
  | some authors =>
    !authors.isEmpty && authors.elems.all fun a => asciiLower a.toHex == asciiLower authedPubkeyHex
  | none => false

def hasIds (f : Filter) : Bool :=
  match f.ids with
  | some ids => !ids.isEmpty
  | none => false

def pGatedFiltersAuthorized (filters : List Filter) (authedPubkeyHex : String) : Bool :=
  filters.all fun f =>
    let explicitlyNoIdsExemption :=
      match f.kinds with
      | some ks => ks.elems.any fun k =>
          k.toNat == KIND_DM_VISIBILITY || k.toNat == KIND_AGENT_TURN_METRIC
      | none => false
    if !filterCanMatchKinds P_GATED_KINDS f then true
    else if !explicitlyNoIdsExemption && hasIds f then true
    else pTagsAreSelf f authedPubkeyHex

def engramFiltersAuthorized (filters : List Filter) (authedPubkeyHex : String) : Bool :=
  filters.all fun f =>
    if hasIds f then true
    else if !filterCanMatchKinds [KIND_AGENT_ENGRAM] f then true
    else if authorsAreSelf f authedPubkeyHex then true
    else pTagsAreSelf f authedPubkeyHex

def authorOnlyFiltersAuthorized (filters : List Filter) (authedPubkeyHex : String) : Bool :=
  filters.all fun f =>
    let targetsOnlyAuthorOnly :=
      match f.kinds with
      | some ks => !ks.isEmpty && ks.elems.all fun k => AUTHOR_ONLY_KINDS.contains k.toNat
      | none => false
    if !targetsOnlyAuthorOnly then true else authorsAreSelf f authedPubkeyHex

def resultGatedCountSafeForPushdown (f : Filter) (authedPubkeyHex : String) : Bool :=
  pTagsAreSelf f authedPubkeyHex

def isAuthorOnlyEvent (event : Event) (requester : PublicKey) : Bool :=
  AUTHOR_ONLY_KINDS.contains event.kind.toNat && event.pubkey != requester

/-- The per-event read check of every gated class. -/
def eventVisibleToReader (event : Event) (requester : PublicKey) : Bool :=
  if isAuthorOnlyEvent event requester then false
  else if isUnsharedGatedEvent event requester then false
  else readerAuthorizedForEvent event requester.toHex

/-- SQL alone decides the filter, so that a row count needs no second look. -/
def filterFullyPushable (f : Filter) : Bool :=
  (f.genericTags.entries.all fun entry =>
    let key := entry.1.toString
    let values := entry.2
    if key == "h" then true
    else if key == "p" then !decide (1 < values.len)
    else if key == "d" then values.isEmpty || kindsAllParameterized (f.kinds.map ValueSet.elems)
    else if key == "e" then true
    else values.isEmpty) &&
  f.search.isNone

def applyCountFallbackLimit (query : EventQuery) : EventQuery :=
  { query with
    limit := some (COUNT_FALLBACK_CANDIDATE_LIMIT + 1)
    maxLimit := some (COUNT_FALLBACK_CANDIDATE_LIMIT + 1) }

def countFallbackExceeded (candidateCount : Nat) : Bool :=
  decide (COUNT_FALLBACK_CANDIDATE_LIMIT < candidateCount)

/-- Every filter asks for the global membership snapshot only. -/
def filtersAreNip43MembershipOnly (filters : List Filter) : Bool :=
  !filters.isEmpty && filters.all fun f =>
    match f.kinds with
    | some kinds =>
      !kinds.isEmpty && kinds.elems.all fun k => k.toNat == KIND_NIP43_MEMBERSHIP_LIST
    | none => false

inductive Scope where
  | messagesRead
  | other (name : String)
deriving DecidableEq

structure AuthContext where
  pubkey : PublicKey
  scopes : List Scope
  channelIds : Option (List Uuid)

structure ConnectionState where
  auth : Option AuthContext
  community : CommunityId
  subscriptions : List String

/-- The channel membership that a request can ask for. -/
structure ChannelAccess where
  accessibleChannelIdsCached : CommunityId → PublicKey → Except DbError (List Uuid)
  isMember : CommunityId → Uuid → PublicKey → Except DbError Bool

/-- The messages a request is answered with. -/
inductive RelayMessage where
  | notice (message : String)
  | closed (subId : String) (message : String)
  | count (subId : String) (total : Nat)
  | event (subId : String) (event : Event)
  | eose (subId : String)
deriving DecidableEq

def tokenAllows (tokenChannelIds : Option (List Uuid)) (chId : Uuid) : Bool :=
  match tokenChannelIds with
  | some allowed => allowed.contains chId
  | none => true

/-- Drop what the token's channel scope does not cover. -/
def retainTokenChannels (tokenChannelIds : Option (List Uuid)) (accessible : List Uuid) :
    List Uuid :=
  match tokenChannelIds with
  | some allowed => accessible.filter allowed.contains
  | none => accessible

end Buzz
