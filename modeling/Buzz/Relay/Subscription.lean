import Buzz.Core.FilterMatch
import Buzz.Lib.PostingIndex

namespace Buzz
set_option autoImplicit true

abbrev ConnId := Uuid
abbrev SubId := String

/-- Server-resolved live-routing scope of a subscription. -/
inductive SubscriptionScope where
  | global
  | channels (ids : List Uuid)
deriving DecidableEq

namespace SubscriptionScope

def matchesChannel : SubscriptionScope → Option Uuid → Bool
  | global, none => true
  | channels ids, some channelId => ids.contains channelId
  | _, _ => false

def channelIds : SubscriptionScope → List Uuid
  | global => []
  | channels ids => ids

end SubscriptionScope

structure SubEntry where
  filters : List Filter
  communityId : CommunityId
  scope : SubscriptionScope

structure IndexKey where
  channelId : Uuid
  kind : Kind
deriving DecidableEq

structure GlobalPKindIndexKey where
  communityId : CommunityId
  kind : Kind
  p : String
deriving DecidableEq

structure RemovedSubscription where
  communityId : CommunityId
  scope : SubscriptionScope

structure ChannelSubscriptionUpdate where
  subId : SubId
  removed : Bool

abbrev ConnSubs := AList (fun _ : SubId => SubEntry)

/-- The subscriptions of every connection and the five fan-out indexes over them. -/
structure SubscriptionRegistry where
  subs : AList (fun _ : ConnId => ConnSubs)
  channelKindIndex : PostingIndex (CommunityId × IndexKey) (ConnId × SubId)
  channelWildcardIndex : PostingIndex (CommunityId × Uuid) (ConnId × SubId)
  globalKindIndex : PostingIndex (CommunityId × Kind) (ConnId × SubId)
  globalPKindIndex : PostingIndex GlobalPKindIndexKey (ConnId × SubId)
  globalWildcardIndex : PostingIndex CommunityId (ConnId × SubId)

def extractKindsLoop (kinds : List Kind) : List Filter → Option (List Kind)
  | [] => some kinds
  | f :: fs =>
    match f.kinds with
    | some filterKinds => extractKindsLoop (filterKinds.elems.foldl pushNew kinds) fs
    | none => none

/-- The union of all `kinds`, or `none` when some filter has no `kinds` constraint. -/
def extractKindsFromFilters (filters : List Filter) : Option (List Kind) :=
  extractKindsLoop [] filters

def pKindKeys (communityId : CommunityId) (kinds : List Kind) (pValues : List String) :
    List GlobalPKindIndexKey :=
  kinds.flatMap fun kind => pValues.map fun p => ⟨communityId, kind, p⟩

def extractGlobalPKindLoop (communityId : CommunityId) (keys : List GlobalPKindIndexKey) :
    List Filter → Option (List GlobalPKindIndexKey)
  | [] => some keys
  | f :: fs =>
    match f.kinds with
    | none => none
    | some kinds =>
      if kinds.isEmpty then extractGlobalPKindLoop communityId keys fs
      else
        match f.genericTags.lookup .p with
        | none => none
        | some pValues =>
          if pValues.isEmpty then none
          else
            extractGlobalPKindLoop communityId
              ((pKindKeys communityId kinds.elems pValues.elems).foldl pushNew keys) fs

/-- The `(kind, #p)` keys of a subscription whose filters are all `p`-constrained. A filter
with `kinds: []` matches nothing and constrains nothing here. -/
def extractGlobalPKindIndexKeys (communityId : CommunityId) (filters : List Filter) :
    Option (List GlobalPKindIndexKey) :=
  extractGlobalPKindLoop communityId [] filters

def eventPTagValues (event : StoredEvent) : List String :=
  (event.event.tags.filterMap fun tag => if tag.kind == "p" then tag.content else none).foldl
    pushNew []

namespace SubscriptionRegistry

def new : SubscriptionRegistry :=
  ⟨∅, ∅, ∅, ∅, ∅, ∅⟩

/-- The authoritative entry of a subscription. -/
def entry (r : SubscriptionRegistry) (connId : ConnId) (subId : SubId) : Option SubEntry :=
  (r.subs.lookup connId).bind fun connSubs => connSubs.lookup subId

def indexChannel (connId : ConnId) (subId : SubId) (filters : List Filter)
    (communityId : CommunityId) (r : SubscriptionRegistry) (chId : Uuid) : SubscriptionRegistry :=
  match extractKindsFromFilters filters with
  | none =>
    { r with
      channelWildcardIndex := r.channelWildcardIndex.push (communityId, chId) (connId, subId) }
  | some [] => r
  | some kinds =>
    { r with
      channelKindIndex :=
        r.channelKindIndex.pushAll (kinds.map fun kind => (communityId, ⟨chId, kind⟩))
          (connId, subId) }

/-- The index part of `register_with_scope`. -/
def addToIndex (r : SubscriptionRegistry) (connId : ConnId) (subId : SubId)
    (filters : List Filter) (communityId : CommunityId) (scope : SubscriptionScope) :
    SubscriptionRegistry :=
  match scope with
  | .channels channelIds => channelIds.foldl (indexChannel connId subId filters communityId) r
  | .global =>
    match extractGlobalPKindIndexKeys communityId filters with
    | some keys =>
      { r with globalPKindIndex := r.globalPKindIndex.pushAll keys (connId, subId) }
    | none =>
      match extractKindsFromFilters filters with
      | none =>
        { r with globalWildcardIndex := r.globalWildcardIndex.push communityId (connId, subId) }
      | some [] => r
      | some kinds =>
        { r with
          globalKindIndex :=
            r.globalKindIndex.pushAll (kinds.map fun kind => (communityId, kind))
              (connId, subId) }

def unindexChannel (connId : ConnId) (subId : SubId) (filters : List Filter)
    (communityId : CommunityId) (r : SubscriptionRegistry) (chId : Uuid) : SubscriptionRegistry :=
  match extractKindsFromFilters filters with
  | none =>
    { r with
      channelWildcardIndex := r.channelWildcardIndex.retract (communityId, chId) (connId, subId) }
  | some [] => r
  | some kinds =>
    { r with
      channelKindIndex :=
        r.channelKindIndex.retractAll (kinds.map fun kind => (communityId, ⟨chId, kind⟩))
          (connId, subId) }

def removeFromIndex (r : SubscriptionRegistry) (connId : ConnId) (subId : SubId)
    (filters : List Filter) (communityId : CommunityId) (scope : SubscriptionScope) :
    SubscriptionRegistry :=
  match scope with
  | .channels channelIds => channelIds.foldl (unindexChannel connId subId filters communityId) r
  | .global =>
    match extractGlobalPKindIndexKeys communityId filters with
    | some keys =>
      { r with globalPKindIndex := r.globalPKindIndex.retractAll keys (connId, subId) }
    | none =>
      match extractKindsFromFilters filters with
      | none =>
        { r with
          globalWildcardIndex := r.globalWildcardIndex.retract communityId (connId, subId) }
      | some [] => r
      | some kinds =>
        { r with
          globalKindIndex :=
            r.globalKindIndex.retractAll (kinds.map fun kind => (communityId, kind))
              (connId, subId) }

def removeSubscription (r : SubscriptionRegistry) (connId : ConnId) (subId : SubId) :
    Option RemovedSubscription × SubscriptionRegistry :=
  match r.subs.lookup connId with
  | none => (none, r)
  | some connSubs =>
    match connSubs.lookup subId with
    | none => (none, r)
    | some ⟨filters, communityId, scope⟩ =>
      (some ⟨communityId, scope⟩,
        removeFromIndex { r with subs := r.subs.insert connId (connSubs.erase subId) }
          connId subId filters communityId scope)

def insertEntry (r : SubscriptionRegistry) (connId : ConnId) (subId : SubId) (e : SubEntry) :
    SubscriptionRegistry :=
  { r with subs := r.subs.insert connId (((r.subs.lookup connId).getD ∅).insert subId e) }

/-- Replace any subscription with the same id, then store and index the new one. -/
def registerWithScope (r : SubscriptionRegistry) (communityId : CommunityId) (connId : ConnId)
    (subId : SubId) (filters : List Filter) (scope : SubscriptionScope) :
    Option RemovedSubscription × SubscriptionRegistry :=
  let removed := r.removeSubscription connId subId
  (removed.1, (removed.2.insertEntry connId subId ⟨filters, communityId, scope⟩).addToIndex
    connId subId filters communityId scope)

def registerScoped (r : SubscriptionRegistry) (communityId : CommunityId) (connId : ConnId)
    (subId : SubId) (filters : List Filter) (channelId : Option Uuid) :
    Option RemovedSubscription × SubscriptionRegistry :=
  r.registerWithScope communityId connId subId filters
    ((channelId.map fun id => .channels [id]).getD .global)

def registerChannelsScoped (r : SubscriptionRegistry) (communityId : CommunityId)
    (connId : ConnId) (subId : SubId) (filters : List Filter) (channelIds : List Uuid) :
    Option RemovedSubscription × SubscriptionRegistry :=
  r.registerWithScope communityId connId subId filters (.channels channelIds)

def removeConnection (r : SubscriptionRegistry) (connId : ConnId) :
    List RemovedSubscription × SubscriptionRegistry :=
  match r.subs.lookup connId with
  | none => ([], r)
  | some connSubs =>
    (connSubs.entries.map fun s => ⟨s.2.communityId, s.2.scope⟩,
      connSubs.entries.foldl
        (fun r s => r.removeFromIndex connId s.1 s.2.filters s.2.communityId s.2.scope)
        { r with subs := r.subs.erase connId })

/-- One iteration of the loop of `remove_channel_subscriptions_scoped`. -/
def revokeChannel (communityId : CommunityId) (connId : ConnId) (channelId : Uuid)
    (acc : List ChannelSubscriptionUpdate × SubscriptionRegistry) (subId : SubId) :
    List ChannelSubscriptionUpdate × SubscriptionRegistry :=
  match acc.2.subs.lookup connId with
  | none => acc
  | some connSubs =>
    match connSubs.lookup subId with
    | some ⟨filters, subCommunityId, .channels channelIds⟩ =>
      let kept := channelIds.filter (· ≠ channelId)
      let connSubs' :=
        if kept.isEmpty then connSubs.erase subId
        else connSubs.insert subId ⟨filters, subCommunityId, .channels kept⟩
      (acc.1 ++ [⟨subId, kept.isEmpty⟩],
        removeFromIndex { acc.2 with subs := acc.2.subs.insert connId connSubs' }
          connId subId filters communityId (.channels [channelId]))
    | _ => acc

def removeChannelSubscriptionsScoped (r : SubscriptionRegistry) (communityId : CommunityId)
    (connId : ConnId) (channelId : Uuid) :
    List ChannelSubscriptionUpdate × SubscriptionRegistry :=
  let subIds := ((r.subs.lookup connId).getD ∅).entries.filterMap fun s =>
    if s.2.communityId = communityId ∧ channelId ∈ s.2.scope.channelIds then some s.1 else none
  subIds.foldl (revokeChannel communityId connId channelId) ([], r)

/-- Results and the ids already delivered, while a fan-out runs. -/
structure FanOut where
  results : List (ConnId × SubId)
  seen : List (ConnId × SubId)

def pushMatch (r : SubscriptionRegistry) (communityId : CommunityId) (event : StoredEvent)
    (acc : FanOut) (candidate : ConnId × SubId) : FanOut :=
  match r.entry candidate.1 candidate.2 with
  | some ⟨filters, subCommunityId, scope⟩ =>
    if subCommunityId = communityId ∧ scope.matchesChannel event.channelId = true ∧
        filtersMatch filters event = true then
      if candidate ∈ acc.seen then acc
      else ⟨acc.results ++ [candidate], candidate :: acc.seen⟩
    else acc
  | none => acc

/-- Look the event up in the indexes of its scope and re-check every candidate. -/
def fanOutScoped (r : SubscriptionRegistry) (communityId : CommunityId) (event : StoredEvent) :
    List (ConnId × SubId) :=
  let push := fun acc candidates => candidates.foldl (r.pushMatch communityId event) acc
  match event.channelId with
  | some channelId =>
    let acc := push ⟨[], []⟩ (r.channelKindIndex.postings (communityId, ⟨channelId, event.event.kind⟩))
    (push acc (r.channelWildcardIndex.postings (communityId, channelId))).results
  | none =>
    let acc := (eventPTagValues event).foldl
      (fun acc p => push acc (r.globalPKindIndex.postings ⟨communityId, event.event.kind, p⟩))
      ⟨[], []⟩
    let acc := push acc (r.globalKindIndex.postings (communityId, event.event.kind))
    (push acc (r.globalWildcardIndex.postings communityId)).results

end SubscriptionRegistry

/-- The public operations that change a registry. -/
inductive RegistryOp where
  | registerScoped (communityId : CommunityId) (connId : ConnId) (subId : SubId)
      (filters : List Filter) (channelId : Option Uuid)
  | registerChannelsScoped (communityId : CommunityId) (connId : ConnId) (subId : SubId)
      (filters : List Filter) (channelIds : List Uuid)
  | removeSubscription (connId : ConnId) (subId : SubId)
  | removeConnection (connId : ConnId)
  | removeChannelSubscriptionsScoped (communityId : CommunityId) (connId : ConnId)
      (channelId : Uuid)

namespace SubscriptionRegistry

def step (r : SubscriptionRegistry) : RegistryOp → SubscriptionRegistry
  | .registerScoped communityId connId subId filters channelId =>
    (r.registerScoped communityId connId subId filters channelId).2
  | .registerChannelsScoped communityId connId subId filters channelIds =>
    (r.registerChannelsScoped communityId connId subId filters channelIds).2
  | .removeSubscription connId subId => (r.removeSubscription connId subId).2
  | .removeConnection connId => (r.removeConnection connId).2
  | .removeChannelSubscriptionsScoped communityId connId channelId =>
    (r.removeChannelSubscriptionsScoped communityId connId channelId).2

/-- The registry after a sequence of operations on a new one. -/
def run (ops : List RegistryOp) : SubscriptionRegistry :=
  ops.foldl step new

end SubscriptionRegistry

end Buzz
