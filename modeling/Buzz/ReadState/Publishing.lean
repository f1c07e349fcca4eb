import Buzz.ReadState.Runs
import Buzz.ReadState.SlotSplit

namespace Buzz.ReadState
set_option autoImplicit true

def READ_STATE_MAX_PLAINTEXT_BYTES : ℕ := 32768

def READ_STATE_MAX_SLOTS : ℕ := 8

/-- The greatest timestamp of each context. -/
def maxUnion (entries : List Entry) : Table String ℚ :=
  entries.foldl (fun union e =>
    if (union.lookup e.1).all (· < e.2) then union.insert e.1 e.2 else union) ∅

/-- The record that the contexts make, trimmed, unless the channels alone are too many. -/
def currentContexts (format : NumberText) (clientId : String) (contexts : List Entry) :
    Option (List Entry) :=
  let trimmed := trimContextsToBudget format (contexts.foldl assign []) clientId
    READ_STATE_MAX_PLAINTEXT_BYTES
  if trimmed.2.fitsAfterTrim then some trimmed.1 else none

/-- The split of the contexts, for the slots that there are. -/
def splitArgs (clientId : String) (extraSlotIds : List String) (contexts : List Entry)
    (newSlotIds : ℕ → String) : SplitArgs where
  channelEntries := contexts.filter fun e => !isThreadOrMsg e.1
  threadMsgEntries := contexts.filter fun e => isThreadOrMsg e.1
  clientId := clientId
  initialSlotCount := extraSlotIds.length + 1
  maxSlots := READ_STATE_MAX_SLOTS
  maxBytes := READ_STATE_MAX_PLAINTEXT_BYTES
  slotIdGenerator := newSlotIds

def Manager.isIdenticalToLastPublished (m : Manager) (contexts : List Entry) : Bool :=
  m.lastPublishedContexts.entries.length = contexts.length &&
    contexts.all fun e => m.lastPublishedContexts.lookup e.1 = some e.2

/-- Whether a live blob advances a context or makes one publishable. -/
def Manager.anyAdvanced (createdAt : ℕ) : Manager → List Entry → Bool
  | _, [] => false
  | m, e :: entries =>
    (m.applyRemoteContextTimestamp e.1 e.2 createdAt).2 || e.1 ∉ m.publishableContextIds ||
      anyAdvanced createdAt (m.incomingContext createdAt e) entries

/-- A call of `publish`, by what it waits for: the fetch of the own blobs, their merge, the end of
`fetchOwnBlobBeforePublish`, the deletion of the extra slots, the event of the next slot or the
relay's answer to it. -/
inductive Publish where
  | fetching
  | merging (task : Merge)
  | fetched
  | deleting (slotIds : List String) (contexts : List Entry)
  | sending (slots : List (String × List Entry))
  | sent (contexts : List Entry) (slots : List (String × List Entry))

/-- A manager with its timer and its calls of `publish`. -/
structure Publisher where
  manager : Manager
  extraSlotIds : List String
  debounceTimer : Bool
  publishes : List Publish

namespace Publisher

def new (slotId : String) (extraSlotIds : List String) : Publisher :=
  ⟨.new slotId, extraSlotIds, false, []⟩

def setPublished (contexts : Table String ℚ) (p : Publisher) : Publisher :=
  { p with manager := { p.manager with lastPublishedContexts := contexts } }

/-- What the call `k` of `publish` waits for next, if it does not end. -/
def setPublish (k : ℕ) (next : Option Publish) (p : Publisher) : Publisher :=
  { p with publishes := match next with
      | some publish => p.publishes.set k publish
      | none => p.publishes.eraseIdx k }

def schedulePublish (p : Publisher) : Publisher :=
  if p.manager.destroyed then p else { p with debounceTimer := true }

/-- Whether a mark raises the timestamp of its context. -/
def raises (contextId : String) (unixTimestamp : ℚ) (p : Publisher) : Bool :=
  !p.manager.destroyed && p.manager.effective contextId < unixTimestamp

def markContextRead (contextId : String) (unixTimestamp : ℚ) (now : ℕ) (p : Publisher) :
    Publisher :=
  let marked := { p with manager := p.manager.markContextRead contextId unixTimestamp now }
  if unixTimestamp ≤ p.manager.effective contextId &&
      contextId ∈ p.manager.publishableContextIds then marked
  else marked.schedulePublish

/-- The rest of `handleIncomingEvent`, for the event `k` that waits for it. -/
def handleDecrypted (c : Client) (event : RelayEvent) (k : ℕ) (p : Publisher) : Publisher :=
  let handled := { p with manager :=
    { p.manager.handleDecrypted c event with inFlight := p.manager.inFlight.eraseIdx k } }
  match c.parseEvent event with
  | none => handled
  | some parsed =>
    if (p.manager.noteFetched parsed.createdAt).anyAdvanced parsed.createdAt parsed.blob.contexts &&
        parsed.blob.clientId ≠ c.clientId then handled.schedulePublish
    else handled

/-- The end of `initialize`. -/
def finishInitialize (format : NumberText) (c : Client) (contexts : List Entry) (p : Publisher) :
    Publisher :=
  if p.manager.destroyed then p
  else
    let initialized := { p with manager := { p.manager with initialized := true } }
    match currentContexts format c.clientId contexts with
    | none => initialized.schedulePublish
    | some current =>
      if p.manager.isIdenticalToLastPublished current then initialized
      else initialized.schedulePublish

def publishUnlessIdentical (contexts : List Entry) (p : Publisher) : Publisher × Option Publish :=
  if p.manager.isIdenticalToLastPublished contexts then (p, none)
  else (p, some (.sending [(p.manager.slotId, contexts)]))

def publishSplitSlots (format : NumberText) (c : Client) (contexts : List Entry)
    (newSlotIds : ℕ → String) (p : Publisher) : Publisher × Option Publish :=
  match splitContextsIntoBudgetedSlots format
      (splitArgs c.clientId p.extraSlotIds contexts newSlotIds) with
  | none => (p, none)
  | some result =>
    let split := { p with extraSlotIds := p.extraSlotIds ++ result.extraSlotIds }
    let union := (maxUnion result.slots.flatten).entries.map fun e => (e.1, e.2)
    if p.manager.isIdenticalToLastPublished union then (split, none)
    else (split.setPublished ∅,
      some (.sending ((p.manager.slotId :: split.extraSlotIds).zip result.slots)))

/-- The rest of `publish`, once the own blobs are fetched. The contexts are those that may be
published, as the map has them. -/
def publish (format : NumberText) (c : Client) (contexts : List Entry) (newSlotIds : ℕ → String)
    (p : Publisher) : Publisher × Option Publish :=
  if p.manager.destroyed then (p, none)
  else match currentContexts format c.clientId contexts with
  | none => p.publishSplitSlots format c contexts newSlotIds
  | some current =>
    if p.extraSlotIds = [] then p.publishUnlessIdentical current
    else (p, some (.deleting p.extraSlotIds current))

/-- The rest of `publish`, once the extra slots are deleted. -/
def publishDeleted (contexts : List Entry) (p : Publisher) : Publisher × Option Publish :=
  ({ p with extraSlotIds := [] }.setPublished ∅).publishUnlessIdentical contexts

/-- What a `publish` hands to the relay that finds the contexts as they are. -/
def published (format : NumberText) (c : Client) (contexts : List Entry) (newSlotIds : ℕ → String)
    (p : Publisher) : List (List Entry) :=
  match p.publish format c contexts newSlotIds with
  | (_, some (.sending slots)) => slots.map Prod.snd
  | (deleting, some (.deleting _ current)) =>
    match (deleting.publishDeleted current).2 with
    | some (.sending slots) => slots.map Prod.snd
    | _ => []
  | _ => []

def destroy (p : Publisher) : Publisher :=
  let destroyed := { p with manager := { p.manager with destroyed := true } }
  if p.debounceTimer then
    { destroyed with debounceTimer := false, publishes := p.publishes ++ [.fetching] }
  else destroyed

/-- The timer has fired, and what it has started is over. -/
def Finished (p : Publisher) : Prop :=
  p.debounceTimer = false ∧ p.publishes = []

end Publisher

/-- A step of a publisher, with what it took in or gave out. -/
inductive PublishEntry where
  | read (entry : ReadEntry)
  | initialized
  | mark (contextId : String) (unixTimestamp : ℚ) (raised : Bool)
  | timer
  | fetched
  | merge (event : Option RelayEvent)
  | publish (contexts : List Entry) (newSlotIds : ℕ → String)
  | delete
  | deleted
  | send (contexts : List Entry)
  | accepted
  | finished
  | destroy (flushed due : List (List Entry))

/-- The steps that have nothing to do with publishing. -/
def ReadEntry.isRead : ReadEntry → Bool
  | .hydrate _ | .seed _ _ | .fetch _ | .merge _ | .receive _ _ | .drain => true
  | _ => false

/-- The steps of one publisher. Its publishes go on one by one in any order, and the order in which
the map has the contexts is left open. -/
inductive PublishStep (c : Client) (format : NumberText) (p : Publisher) :
    PublishEntry → Publisher → Prop where
  | read (hentry : entry.isRead = true) (h : ReadStep c p.manager entry m') :
      PublishStep c format p (.read entry) { p with manager := m' }
  | initialized (hcontexts : contexts.Perm p.manager.publishableContexts) :
      PublishStep c format p .initialized (p.finishInitialize format c contexts)
  | mark : PublishStep c format p (.mark contextId unixTimestamp (p.raises contextId unixTimestamp))
      (p.markContextRead contextId unixTimestamp now)
  | handle {k : ℕ} (hk : p.manager.inFlight[k]? = some event) :
      PublishStep c format p (.read (.handle event)) (p.handleDecrypted c event k)
  | timer (htimer : p.debounceTimer = true) :
      PublishStep c format p .timer
        { p with debounceTimer := false, publishes := p.publishes ++ [.fetching] }
  | fetched {k : ℕ} (hk : p.publishes[k]? = some .fetching) :
      PublishStep c format p .fetched
        (p.setPublish k (some (.merging ⟨events, events, ∅, false⟩)))
  | unreachable {k : ℕ} (hk : p.publishes[k]? = some .fetching) :
      PublishStep c format p .fetched (p.setPublish k (some .fetched))
  | merge {k : ℕ} (hk : p.publishes[k]? = some (.merging task)) :
      PublishStep c format p (.merge task.next)
        ({ p with manager := (p.manager.mergeNext c newSlotId task).1 }.setPublish k
          (some ((p.manager.mergeNext c newSlotId task).2.elim Publish.fetched Publish.merging)))
  | publish {k : ℕ} (hk : p.publishes[k]? = some .fetched)
      (hcontexts : contexts.Perm p.manager.publishableContexts) :
      PublishStep c format p (.publish contexts newSlotIds)
        ((p.publish format c contexts newSlotIds).1.setPublish k
          (p.publish format c contexts newSlotIds).2)
  | delete {k : ℕ} (hk : p.publishes[k]? = some (.deleting (slotId :: slotIds) contexts)) :
      PublishStep c format p .delete (p.setPublish k (some (.deleting slotIds contexts)))
  | deleted {k : ℕ} (hk : p.publishes[k]? = some (.deleting [] contexts)) :
      PublishStep c format p .deleted
        ((p.publishDeleted contexts).1.setPublish k (p.publishDeleted contexts).2)
  | send {k : ℕ} (hk : p.publishes[k]? = some (.sending ((slotId, contexts) :: slots))) :
      PublishStep c format p (.send contexts)
        ({ p with manager := p.manager.rememberPublishedId eventId }.setPublish k
          (some (.sent contexts slots)))
  | accepted {k : ℕ} (hk : p.publishes[k]? = some (.sent contexts slots)) :
      PublishStep c format p .accepted
        ({ p with manager := p.manager.slotPublished contexts createdAt }.setPublish k
          (some (.sending slots)))
  | finished {k : ℕ} (hk : p.publishes[k]? = some (.sending [])) :
      PublishStep c format p .finished (p.setPublish k none)
  | destroy (hcontexts : contexts.Perm p.manager.publishableContexts) :
      PublishStep c format p
        (.destroy (if p.debounceTimer then p.destroy.published format c contexts newSlotIds else [])
          (if p.debounceTimer then p.published format c contexts newSlotIds else []))
        p.destroy

/-- The contexts of an event, if it is a blob of this client. -/
def ownContexts (c : Client) (event : Option RelayEvent) : List (List Entry) :=
  match event.bind c.parseEvent with
  | some parsed => if parsed.blob.clientId = c.clientId then [parsed.blob.contexts] else []
  | none => []

/-- The blobs of this client that a step hands to the relay, or gets from it. -/
def PublishEntry.handed (c : Client) : PublishEntry → List (List Entry)
  | .send contexts => [contexts]
  | .merge event => ownContexts c event
  | .read (.merge event) => ownContexts c event
  | _ => []

/-- The blobs of this client that the relay has been handed. -/
def handed (c : Client) (entries : List PublishEntry) : List (List Entry) :=
  entries.flatMap (·.handed c)

end Buzz.ReadState
