import Buzz.Relay.Req

namespace Buzz
set_option autoImplicit true

/-- A call of the count handler into the database. -/
inductive DbCall where
  | countEvents (query : EventQuery)
  | queryEvents (query : EventQuery)

def DbCall.query : DbCall → EventQuery
  | countEvents q => q
  | queryEvents q => q

/-- What a COUNT request does: its answer, the queries it hands over and what each filter
adds to the total. -/
structure CountRun where
  answer : RelayMessage
  calls : List DbCall
  counts : List Nat

/-- The part of a COUNT request that stays fixed while its filters are worked off. -/
structure CountContext where
  subId : String
  reader : PublicKey
  tokenChannelIds : Option (List Uuid)
  community : CommunityId
  access : ChannelAccess

namespace CountContext

/-- Confirm the requested channels that the cache missed. -/
def repairAccess (ctx : CountContext) (accessible : List Uuid) :
    List Uuid → Except DbError (List Uuid)
  | [] => .ok accessible
  | chId :: requested =>
    if accessible.contains chId then ctx.repairAccess accessible requested
    else if tokenAllows ctx.tokenChannelIds chId then
      match ctx.access.isMember ctx.community chId ctx.reader with
      | .ok member =>
        ctx.repairAccess (resolveRequestLocalAccess accessible chId true (some member)) requested
      | .error e => .error e
    else ctx.repairAccess (resolveRequestLocalAccess accessible chId false none) requested

def needsSharedGateFiltering (f : Filter) : Bool :=
  filterCanMatchSharedGatedKinds f

def needsResultGatedFiltering (ctx : CountContext) (f : Filter) : Bool :=
  filterCanMatchResultGatedKinds f && !resultGatedCountSafeForPushdown f ctx.reader.toHex

/-- SQL can count the filter without looking at single events. -/
def fastPath (ctx : CountContext) (f : Filter) : Bool :=
  filterFullyPushable f &&
    (!filterCanMatchAuthorOnlyKinds f || authorsAreSelf f ctx.reader.toHex) &&
    !ctx.needsResultGatedFiltering f && !needsSharedGateFiltering f

def withSharedGate (ctx : CountContext) (f : Filter) (query : EventQuery) : EventQuery :=
  if needsSharedGateFiltering f then { query with sharedGatedReader := some ctx.reader } else query

/-- The query of one filter, or `none` when no requested channel is accessible. -/
def filterQuery (ctx : CountContext) (accessible : List Uuid) (f : Filter) :
    Option (List Uuid) → Option EventQuery
  | some requested =>
    let authorizedRequested := requested.filter accessible.contains
    match authorizedRequested with
    | [] => none
    | first :: _ =>
      let chId := if requested.length = 1 then some first else none
      some (ctx.withSharedGate f
        (applyChannelScopeToQuery (buildEventQueryFromFilter f ctx.community) f chId accessible))
  | none =>
    some (ctx.withSharedGate f
      { buildEventQueryFromFilter f ctx.community with channelIds := some accessible })

/-- The query as it reaches the database, on either path. -/
def handOver (ctx : CountContext) (f : Filter) (requested : Option (List Uuid))
    (query : EventQuery) : DbCall :=
  if ctx.fastPath f then
    .countEvents (if requested.isNone then { query with limit := none } else query)
  else .queryEvents (applyCountFallbackLimit query)

/-- The number a call adds to the total, or the message that closes the request. -/
def execute (ctx : CountContext) (store : EventStore) (f : Filter) :
    DbCall → Except RelayMessage Nat
  | .countEvents query =>
    match store.countEvents query with
    | .ok n => .ok n
    | .error e => .error (.closed ctx.subId ("error: " ++ e.toString))
  | .queryEvents query =>
    match store.queryEvents query with
    | .ok storedEvents =>
      if countFallbackExceeded storedEvents.length then
        .error (.closed ctx.subId "restricted: count filter requires narrower constraints")
      else
        .ok (storedEvents.countP fun se =>
          filtersMatch [f] se && eventVisibleToReader se.event ctx.reader)
    | .error e => .error (.closed ctx.subId ("error: " ++ e.toString))

/-- The loop over the filters. -/
def countLoop (ctx : CountContext) (store : EventStore) (accessible : List Uuid) (total : Nat)
    (calls : List DbCall) (counts : List Nat) : List (Filter × Option (List Uuid)) → CountRun
  | [] => ⟨.count ctx.subId total, calls, counts⟩
  | (f, requested) :: rest =>
    match ctx.repairAccess accessible (requested.getD []) with
    | .error _ => ⟨.closed ctx.subId "error: database error", calls, counts⟩
    | .ok accessible =>
      match ctx.filterQuery accessible f requested with
      | none => ctx.countLoop store accessible total calls (counts ++ [0]) rest
      | some query =>
        let call := ctx.handOver f requested query
        match ctx.execute store f call with
        | .error message => ⟨message, calls ++ [call], counts⟩
        | .ok n =>
          ctx.countLoop store accessible (total + n) (calls ++ [call]) (counts ++ [n]) rest

end CountContext

def handleCount (subId : String) (filters : List Filter) (conn : ConnectionState)
    (access : ChannelAccess) (store : EventStore) : CountRun :=
  let refuse := fun message => ⟨.closed subId message, [], []⟩
  match conn.auth with
  | none => refuse "auth-required: not authenticated"
  | some auth =>
    let authedPubkeyHex := auth.pubkey.toHex
    if !pGatedFiltersAuthorized filters authedPubkeyHex then
      refuse "restricted: p-gated kinds require #p tag matching your pubkey"
    else if !engramFiltersAuthorized filters authedPubkeyHex then
      refuse "restricted: agent-engram reads require authors=[self] or #p=[self]"
    else if !authorOnlyFiltersAuthorized filters authedPubkeyHex then
      refuse "restricted: author-only kinds require authors=[self]"
    else
      match extractChannelIdsFromFiltersLimited filters with
      | .error () => refuse "restricted: too many explicit channels"
      | .ok _ =>
        match access.accessibleChannelIdsCached conn.community auth.pubkey with
        | .error _ => refuse "error: database error"
        | .ok ids =>
          let ctx : CountContext := ⟨subId, auth.pubkey, auth.channelIds, conn.community, access⟩
          ctx.countLoop store (retainTokenChannels auth.channelIds ids) 0 [] []
            (filters.map fun f => (f, extractChannelIdsFromFilters [f]))

end Buzz
