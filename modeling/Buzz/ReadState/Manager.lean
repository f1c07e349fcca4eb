import Buzz.Lib.Table
import Buzz.ReadState.Format

namespace Buzz.ReadState
set_option autoImplicit true

def PUBLISHED_ID_MEMORY : Nat := 64

/-- What a manager is made with. -/
structure Client where
  pubkey : PublicKey
  clientId : String
  decrypt : String → Option JsValue

def Client.parseEvent (c : Client) (event : RelayEvent) : Option ParsedReadStateEvent :=
  parseReadStateEvent c.decrypt c.pubkey event

/-- What the local storage holds. -/
structure StoredReadState where
  contexts : Table String ℚ
  publishableContextIds : List String
  contextSourceCreatedAt : Table String Nat

structure OwnBlob where
  blob : ReadStateBlob
  createdAt : Nat

/-- A `mergeEvents` that waits for its next event to be decrypted, in its first or second loop. -/
structure Merge where
  events : List RelayEvent
  remaining : List RelayEvent
  ownBlobsBySlot : Table String OwnBlob
  checking : Bool

/-- The state of a manager, with the calls of it that wait for something. -/
structure Manager where
  slotId : String
  effectiveState : Table String ℚ
  publishableContextIds : List String
  lastPublishedContexts : Table String ℚ
  contextSourceCreatedAt : Table String Nat
  maxFetchedCreatedAt : Nat
  pendingSyncedAdvances : List String
  recentlyPublishedIds : List EventId
  initialized : Bool
  destroyed : Bool
  merges : List Merge
  inFlight : List RelayEvent
  outgoing : List (List (String × ℚ))

/-- A set keeps the order in which its members came. -/
def addMember [DecidableEq α] (a : α) (l : List α) : List α :=
  if a ∈ l then l else l ++ [a]

namespace Manager

def new (slotId : String) : Manager :=
  ⟨slotId, ∅, [], ∅, ∅, 0, [], [], false, false, [], [], []⟩

/-- `effectiveState.get(contextId) ?? 0`. -/
def effective (m : Manager) (contextId : String) : ℚ :=
  (m.effectiveState.lookup contextId).getD 0

def getOwnTimestamp (m : Manager) (contextId : String) : Option ℚ :=
  m.effectiveState.lookup contextId

def setEffective (contextId : String) (timestamp : ℚ) (m : Manager) : Manager :=
  { m with effectiveState := m.effectiveState.insert contextId timestamp }

def addPublishable (contextId : String) (m : Manager) : Manager :=
  { m with publishableContextIds := addMember contextId m.publishableContextIds }

/-- The values of the storage replace those of the manager. -/
def hydrateFromLocalStorage (stored : StoredReadState) (m : Manager) : Manager :=
  { m with
    effectiveState := stored.contexts.entries.foldl (fun t e => t.insert e.1 e.2) m.effectiveState
    publishableContextIds :=
      stored.publishableContextIds.foldl (fun ids id => addMember id ids) m.publishableContextIds
    contextSourceCreatedAt := stored.contextSourceCreatedAt.entries.foldl
      (fun t e => t.insert e.1 e.2) m.contextSourceCreatedAt }

def advanceContext (contextId : String) (unixTimestamp : ℚ) (publishable : Bool) (m : Manager) :
    Manager :=
  if m.destroyed then m
  else if unixTimestamp ≤ m.effective contextId then
    if ! publishable then m else m.addPublishable contextId
  else if ! publishable then m.setEffective contextId unixTimestamp
  else (m.setEffective contextId unixTimestamp).addPublishable contextId

def markContextRead (contextId : String) (unixTimestamp : ℚ) (now : Nat) (m : Manager) : Manager :=
  let advanced := m.advanceContext contextId unixTimestamp true
  { advanced with
    contextSourceCreatedAt :=
      advanced.contextSourceCreatedAt.insert contextId (max now (advanced.maxFetchedCreatedAt + 1)) }

def seedContextRead (contextId : String) (unixTimestamp : ℚ) (m : Manager) : Manager :=
  m.advanceContext contextId unixTimestamp false

/-- It says whether the context has advanced. -/
def applyRemoteContextTimestamp (contextId : String) (timestamp : ℚ) (eventCreatedAt : Nat)
    (m : Manager) : Manager × Bool :=
  let current := m.effective contextId
  let next := max current timestamp
  ({ m with
      effectiveState :=
        if next = current then m.effectiveState else m.effectiveState.insert contextId next
      contextSourceCreatedAt :=
        if (m.contextSourceCreatedAt.lookup contextId).getD 0 < eventCreatedAt then
          m.contextSourceCreatedAt.insert contextId eventCreatedAt
        else m.contextSourceCreatedAt },
    next ≠ current)

def addPending (contextId : String) (m : Manager) : Manager :=
  { m with pendingSyncedAdvances := addMember contextId m.pendingSyncedAdvances }

/-- One context of a fetched blob. -/
def mergeContext (createdAt : Nat) (m : Manager) (e : String × ℚ) : Manager :=
  match m.applyRemoteContextTimestamp e.1 e.2 createdAt with
  | (applied, true) => (applied.addPending e.1).addPublishable e.1
  | (applied, false) => applied

/-- One context of a live blob. -/
def incomingContext (createdAt : Nat) (m : Manager) (e : String × ℚ) : Manager :=
  match m.applyRemoteContextTimestamp e.1 e.2 createdAt with
  | (applied, true) => (applied.addPending e.1).addPublishable e.1
  | (applied, false) => applied.addPublishable e.1

def noteFetched (createdAt : Nat) (m : Manager) : Manager :=
  { m with maxFetchedCreatedAt := max m.maxFetchedCreatedAt createdAt }

def mergeParsed (parsed : ParsedReadStateEvent) (m : Manager) : Manager :=
  parsed.blob.contexts.foldl (mergeContext parsed.createdAt) (m.noteFetched parsed.createdAt)

/-- The newest own blob of each slot. -/
def noteOwnBlob (c : Client) (parsed : ParsedReadStateEvent) (own : Table String OwnBlob) :
    Table String OwnBlob :=
  if parsed.blob.clientId = c.clientId &&
      (own.lookup parsed.dTag).all fun existing => existing.createdAt < parsed.createdAt then
    own.insert parsed.dTag ⟨parsed.blob, parsed.createdAt⟩
  else own

/-- The own blobs together are what was published last. -/
def unionOwnBlobs (own : Table String OwnBlob) (m : Manager) : Manager :=
  if own.entries.isEmpty then m
  else
    let contexts := own.entries.flatMap fun e => e.2.blob.contexts
    { m with
      lastPublishedContexts := contexts.foldl (fun union e =>
        if (union.lookup e.1).all (· < e.2) then union.insert e.1 e.2 else union) ∅
      publishableContextIds :=
        contexts.foldl (fun ids e => addMember e.1 ids) m.publishableContextIds }

/-- One event of a `mergeEvents`, or what comes after a loop. A new slot id is drawn when another
client has the slot. -/
def mergeNext (c : Client) (newSlotId : String) (task : Merge) (m : Manager) :
    Manager × Option Merge :=
  if m.destroyed then (m, none)
  else match task.remaining, task.checking with
    | event :: remaining, false =>
      match c.parseEvent event with
      | none => (m, some { task with remaining := remaining })
      | some parsed => (m.mergeParsed parsed, some { task with
          remaining := remaining
          ownBlobsBySlot := noteOwnBlob c parsed task.ownBlobsBySlot })
    | [], false => (m, some { task with remaining := task.events, checking := true })
    | event :: remaining, true =>
      if (c.parseEvent event).any fun parsed =>
          parsed.dTag = READ_STATE_D_TAG_PREFIX ++ m.slotId && parsed.blob.clientId ≠ c.clientId then
        ({ m with slotId := newSlotId }, some { task with remaining := [] })
      else (m, some { task with remaining := remaining })
    | [], true => (m.unionOwnBlobs task.ownBlobsBySlot, none)

/-- The start of `handleIncomingEvent`. It says whether the event is the echo of one of our own. -/
def receive (c : Client) (event : RelayEvent) (m : Manager) : Manager × Bool :=
  if m.destroyed || event.pubkey ≠ c.pubkey then (m, false)
  else if event.id ∈ m.recentlyPublishedIds then
    ({ m with recentlyPublishedIds := m.recentlyPublishedIds.erase event.id }, true)
  else ({ m with inFlight := m.inFlight ++ [event] }, false)

/-- The rest of `handleIncomingEvent`, when the event is decrypted. -/
def handleDecrypted (c : Client) (event : RelayEvent) (m : Manager) : Manager :=
  match c.parseEvent event with
  | none => m
  | some parsed =>
    if m.destroyed then m
    else parsed.blob.contexts.foldl (incomingContext parsed.createdAt)
      (m.noteFetched parsed.createdAt)

/-- The contexts that may be published. -/
def publishableContexts (m : Manager) : List (String × ℚ) :=
  (m.effectiveState.entries.filter fun e => e.1 ∈ m.publishableContextIds).map fun e => (e.1, e.2)

def rememberPublishedId (id : EventId) (m : Manager) : Manager :=
  let ids := addMember id m.recentlyPublishedIds
  { m with recentlyPublishedIds := if PUBLISHED_ID_MEMORY < ids.length then ids.tail else ids }

/-- What a slot that the relay has accepted changes. -/
def slotPublished (contexts : List (String × ℚ)) (createdAt : Nat) (m : Manager) : Manager :=
  { m with
    contextSourceCreatedAt := contexts.foldl (fun t e =>
      if m.lastPublishedContexts.lookup e.1 = some e.2 then t else t.insert e.1 createdAt)
      m.contextSourceCreatedAt
    lastPublishedContexts :=
      contexts.foldl (fun t e => t.insert e.1 e.2) m.lastPublishedContexts
    maxFetchedCreatedAt := max m.maxFetchedCreatedAt createdAt }

end Manager

end Buzz.ReadState
