import Buzz.Relay.Req

namespace Buzz
set_option autoImplicit true

/-- How a REQ request ends: with messages only, in the search branch, or with the historical
events of a registered subscription. -/
inductive ReqOutcome where
  | refused (messages : List RelayMessage)
  | search
  | delivered (events : List Event)
deriving DecidableEq

/-- The part of a REQ request that historical delivery reads. -/
structure ReqContext where
  reader : PublicKey
  community : CommunityId
  channelId : Option Uuid
  accessible : List Uuid
deriving DecidableEq

namespace ReqContext

def perFilterChannel (ctx : ReqContext) (f : Filter) : Option Uuid :=
  (match f.hValues with
    | some [value] => Uuid.parse value
    | _ => none).or ctx.channelId

/-- Phase 1 of historical delivery: the query of one filter. -/
def filterParams (ctx : ReqContext) (f : Filter) : EventQuery :=
  let params := applyChannelScopeToQuery
    (filterToQueryParams f (ctx.perFilterChannel f) ctx.community) f (ctx.perFilterChannel f)
    ctx.accessible
  if filterCanMatchSharedGatedKinds f then { params with sharedGatedReader := some ctx.reader }
  else params

/-- The checks that phase 3 makes of a row before the dedup. -/
def accepts (ctx : ReqContext) (f : Filter) (stored : StoredEvent) : Bool :=
  filtersMatch [f] stored &&
    (match stored.channelId with
      | some chId => ctx.accessible.contains chId
      | none => true) &&
    eventVisibleToReader stored.event ctx.reader

/-- Send an event unless one with its id has been sent. -/
def deliver (sent : List Event) (stored : StoredEvent) : List Event :=
  if stored.event.id ∈ sent.map Event.id then sent else sent ++ [stored.event]

theorem deliver_ids (sent : List Event) (stored : StoredEvent) :
    (deliver sent stored).map Event.id = pushNew (sent.map Event.id) stored.event.id := by
  rw [deliver, pushNew]
  split
  · rfl
  · rw [List.map_append, List.map_singleton]

theorem foldl_deliver_ids (events : List StoredEvent) (sent : List Event) :
    (events.foldl deliver sent).map Event.id =
      (events.map fun stored => stored.event.id).foldl pushNew (sent.map Event.id) := by
  induction events generalizing sent with
  | nil => rfl
  | cons stored events ih =>
    rw [List.foldl_cons, ih, deliver_ids, List.map_cons, List.foldl_cons]

/-- Phases 2 and 3: run the queries and deliver in filter order. A failed query ends the
delivery early. -/
def deliverLoop (ctx : ReqContext)
    (query : EventStore → EventQuery → Except DbError (List StoredEvent)) (store : EventStore)
    (sent : List Event) : List Filter → List Event
  | [] => sent
  | f :: fs =>
    match query store (ctx.filterParams f) with
    | .error _ => sent
    | .ok events => ctx.deliverLoop query store ((events.filter (ctx.accepts f)).foldl deliver sent) fs

end ReqContext

/-- Confirm the requested channels of a REQ request. -/
def repairReqAccess (access : ChannelAccess) (community : CommunityId) (reader : PublicKey)
    (tokenChannelIds : Option (List Uuid)) (accessible : List Uuid) :
    List Uuid → Except DbError (List Uuid)
  | [] => .ok accessible
  | chId :: requested =>
    let allows := tokenAllows tokenChannelIds chId
    if !allows || accessible.contains chId then
      repairReqAccess access community reader tokenChannelIds
        (resolveRequestLocalAccess accessible chId allows none) requested
    else
      match access.isMember community chId reader with
      | .error e => .error e
      | .ok member =>
        repairReqAccess access community reader tokenChannelIds
          (resolveRequestLocalAccess accessible chId allows (some member)) requested

/-- `handle_req` up to the registration of the subscription: the request is answered, or its
context is fixed. -/
def acceptReq (subId : String) (filters : List Filter) (conn : ConnectionState)
    (access : ChannelAccess) : Except ReqOutcome ReqContext :=
  let refuse := fun message => .error (.refused [.closed subId message])
  match conn.auth with
  | none =>
    .error (.refused [.notice "auth-required: authenticate before subscribing",
      .closed subId "auth-required: not authenticated"])
  | some auth =>
    if !auth.scopes.isEmpty && !auth.scopes.contains .messagesRead then
      .error (.refused [.notice "restricted: insufficient scope",
        .closed subId "restricted: insufficient scope"])
    else if !conn.subscriptions.contains subId &&
        decide (MAX_SUBSCRIPTIONS ≤ conn.subscriptions.length) then
      refuse "error: too many subscriptions"
    else
      let channelId := extractChannelIdFromFilters filters
      match extractChannelIdsFromFiltersLimited filters with
      | .error () => refuse "restricted: too many explicit channels"
      | .ok requestedChannelIds =>
        let cached :=
          if filtersAreNip43MembershipOnly filters then .ok []
          else access.accessibleChannelIdsCached conn.community auth.pubkey
        match cached with
        | .error _ => refuse "error: database error"
        | .ok ids =>
          match repairReqAccess access conn.community auth.pubkey auth.channelIds
            (retainTokenChannels auth.channelIds ids) (requestedChannelIds.getD []) with
          | .error _ => refuse "error: database error"
          | .ok accessible =>
            let authorized := requestedChannelIds.map fun requested =>
              requested.filter accessible.contains
            let authedPubkeyHex := auth.pubkey.toHex
            if authorized == some [] then refuse "restricted: not a channel member"
            else if channelId.isNone && !pGatedFiltersAuthorized filters authedPubkeyHex then
              refuse "restricted: p-gated events require #p matching your pubkey"
            else if channelId.isNone && !engramFiltersAuthorized filters authedPubkeyHex then
              refuse "restricted: agent-engram reads require authors=[self] or #p=[self]"
            else if channelId.isNone && !authorOnlyFiltersAuthorized filters authedPubkeyHex then
              refuse "restricted: author-only kinds require authors=[self]"
            else if filters.any fun f => f.search.isSome then
              if filters.any fun f => f.search.isNone then
                refuse "error: mixed search and non-search filters not supported"
              else .error .search
            else .ok ⟨auth.pubkey, conn.community, channelId, accessible⟩

/-- `handle_req` up to its first EOSE, over any way to run a query. -/
def handleReq (query : EventStore → EventQuery → Except DbError (List StoredEvent))
    (subId : String) (filters : List Filter) (conn : ConnectionState) (access : ChannelAccess)
    (store : EventStore) : ReqOutcome :=
  match acceptReq subId filters conn access with
  | .error outcome => outcome
  | .ok ctx => .delivered (ctx.deliverLoop query store [] filters)

end Buzz
