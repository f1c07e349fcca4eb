import Buzz.Lib.Run
import Buzz.ReadState.Manager

namespace Buzz.ReadState
set_option autoImplicit true
open Join

namespace Manager

variable {m m' : Manager} {c : Client}

/-- One context joined with a timestamp, and all others as they are. -/
def Joins (e : String × ℚ) (m m' : Manager) : Prop :=
  ∀ k, m'.effective k = joinAt (m.effective k) [e] k

theorem joins_of_eq (h : ∀ k, m'.effective k = if e.1 = k then max (m.effective k) e.2 else m.effective k) :
    Joins e m m' := by
  intro k
  rw [h, joinAt_cons, joinAt_nil]

theorem effective_insert {v : ℚ} {k : String} (h : m'.effectiveState = m.effectiveState.insert k' v) :
    m'.effective k = if k' = k then v else m.effective k := by
  rw [effective, h]
  split
  · rename_i hk
    subst hk
    rw [AList.lookup_insert]
    rfl
  · rename_i hk
    rw [AList.lookup_insert_ne (Ne.symm hk)]
    rfl

theorem advanceContext_joins (hlive : m.destroyed = false) (contextId : String) (unixTimestamp : ℚ)
    (publishable : Bool) :
    Joins (contextId, unixTimestamp) m (m.advanceContext contextId unixTimestamp publishable) := by
  apply joins_of_eq
  intro k
  have hset : (m.setEffective contextId unixTimestamp).effective k =
      if contextId = k then unixTimestamp else m.effective k := effective_insert rfl
  rw [advanceContext, hlive, if_neg Bool.false_ne_true]
  by_cases hle : unixTimestamp ≤ m.effective contextId
  · have hsame : m.effective k =
        if contextId = k then max (m.effective k) unixTimestamp else m.effective k := by
      split
      · rename_i hk
        subst hk
        exact (max_eq_left hle).symm
      · rfl
    rw [if_pos hle]
    cases publishable with
    | false => exact hsame
    | true => exact hsame
  · have hmax : (m.setEffective contextId unixTimestamp).effective k =
        if contextId = k then max (m.effective k) unixTimestamp else m.effective k := by
      rw [hset]
      split
      · rename_i hk
        subst hk
        exact (max_eq_right (not_le.mp hle).le).symm
      · rfl
    rw [if_neg hle]
    cases publishable with
    | false => exact hmax
    | true => exact hmax

theorem applyRemoteContextTimestamp_effective (contextId : String) (timestamp : ℚ)
    (createdAt : Nat) (k : String) :
    (m.applyRemoteContextTimestamp contextId timestamp createdAt).1.effective k =
      if contextId = k then max (m.effective k) timestamp else m.effective k := by
  have hstate : (m.applyRemoteContextTimestamp contextId timestamp createdAt).1.effectiveState =
      if max (m.effective contextId) timestamp = m.effective contextId then m.effectiveState
      else m.effectiveState.insert contextId (max (m.effective contextId) timestamp) := rfl
  by_cases hnext : max (m.effective contextId) timestamp = m.effective contextId
  · rw [if_pos hnext] at hstate
    rw [effective, hstate]
    split
    · rename_i hk
      subst hk
      exact hnext.symm
    · rfl
  · rw [if_neg hnext] at hstate
    rw [effective_insert hstate]
    split
    · rename_i hk
      subst hk
      rfl
    · rfl

theorem mergeContext_joins (createdAt : Nat) (e : String × ℚ) :
    Joins e m (m.mergeContext createdAt e) := by
  apply joins_of_eq
  intro k
  rw [← applyRemoteContextTimestamp_effective e.1 e.2 createdAt, mergeContext]
  split
  · rename_i heq
    rw [heq]
    rfl
  · rename_i heq
    rw [heq]

theorem incomingContext_joins (createdAt : Nat) (e : String × ℚ) :
    Joins e m (m.incomingContext createdAt e) := by
  apply joins_of_eq
  intro k
  rw [← applyRemoteContextTimestamp_effective e.1 e.2 createdAt, incomingContext]
  split
  · rename_i heq
    rw [heq]
    rfl
  · rename_i heq
    rw [heq]
    rfl

/-- A blob is joined context by context. -/
theorem foldl_joins {f : Manager → String × ℚ → Manager} (hf : ∀ m e, Joins e m (f m e))
    (contexts : List (String × ℚ)) (m : Manager) (k : String) :
    (contexts.foldl f m).effective k = joinAt (m.effective k) contexts k := by
  induction contexts generalizing m with
  | nil => rfl
  | cons e contexts ih =>
    rw [List.foldl_cons, ih, hf m e k, ← joinAt_append]
    rfl

theorem mergeParsed_effective (parsed : ParsedReadStateEvent) (k : String) :
    (m.mergeParsed parsed).effective k = joinAt (m.effective k) parsed.blob.contexts k :=
  foldl_joins (fun _ e => mergeContext_joins parsed.createdAt e) _ _ k

theorem handleDecrypted_effective (c : Client) (event : RelayEvent) (hlive : m.destroyed = false)
    (k : String) : (m.handleDecrypted c event).effective k =
      joinAt (m.effective k) (contextsOf c.decrypt c.pubkey event) k := by
  rw [handleDecrypted, contextsOf, Client.parseEvent]
  split
  · rename_i hparse
    rw [hparse]
    rfl
  · rename_i parsed hparse
    rw [hparse, hlive, if_neg Bool.false_ne_true]
    exact foldl_joins (fun _ e => incomingContext_joins parsed.createdAt e) _ _ k

theorem hydrate_effective (stored : StoredReadState) (k : String) :
    (m.hydrateFromLocalStorage stored).effective k =
      (stored.contexts.lookup k).getD (m.effective k) := by
  have hlookup := Table.lookup_foldl_insert stored.contexts.entries stored.contexts.nodupKeys
    m.effectiveState k
  have hstate : (m.hydrateFromLocalStorage stored).effective k =
      (((stored.contexts.lookup k).or (m.effectiveState.lookup k))).getD 0 :=
    congrArg (fun o => o.getD 0) hlookup
  rw [hstate]
  cases stored.contexts.lookup k with
  | none => rfl
  | some v => rfl

end Manager

/-- A step of a manager, with what it took in. -/
inductive ReadEntry where
  | hydrate (stored : StoredReadState)
  | initialized
  | mark (contextId : String) (unixTimestamp : ℚ) (now : Nat)
  | seed (contextId : String) (unixTimestamp : ℚ)
  | fetch (events : List RelayEvent)
  | merge (event : Option RelayEvent)
  | receive (event : RelayEvent) (echo : Bool)
  | handle (event : RelayEvent)
  | collect (slots : List (List (String × ℚ)))
  | publish (event : RelayEvent)
  | published (contexts : List (String × ℚ)) (createdAt : Nat)
  | resetPublished
  | drain
  | destroy

/-- The event that the first loop of a `mergeEvents` takes next. -/
def Merge.next (task : Merge) : Option RelayEvent :=
  if task.checking then none else task.remaining.head?

/-- What a `mergeEvents` leaves of itself. -/
def Merge.replace (k : Nat) (next : Option Merge) (merges : List Merge) : List Merge :=
  match next with
  | some task => merges.set k task
  | none => merges.eraseIdx k

/-- The steps of one manager: its calls, and what goes on when something they wait for is there. What
is published is some of the contexts at the time, and decrypts to no other. -/
inductive ReadStep (c : Client) (m : Manager) : ReadEntry → Manager → Prop where
  | hydrate (hinitialized : m.initialized = false) (hlive : m.destroyed = false) :
      ReadStep c m (.hydrate stored) (m.hydrateFromLocalStorage stored)
  | initialized : ReadStep c m .initialized { m with initialized := true }
  | mark : ReadStep c m (.mark contextId unixTimestamp now)
      (m.markContextRead contextId unixTimestamp now)
  | seed : ReadStep c m (.seed contextId unixTimestamp) (m.seedContextRead contextId unixTimestamp)
  | fetch : ReadStep c m (.fetch events)
      { m with merges := m.merges ++ [⟨events, events, ∅, false⟩] }
  | merge {k : Nat} (hk : m.merges[k]? = some task) :
      ReadStep c m (.merge task.next)
        { (m.mergeNext c newSlotId task).1 with
          merges := Merge.replace k (m.mergeNext c newSlotId task).2 m.merges }
  | receive (h : m.receive c event = (m', echo)) : ReadStep c m (.receive event echo) m'
  | handle {k : Nat} (hk : m.inFlight[k]? = some event) :
      ReadStep c m (.handle event)
        { m.handleDecrypted c event with inFlight := m.inFlight.eraseIdx k }
  | collect (hslots : ∀ slot ∈ slots, ∀ e ∈ slot, e ∈ m.publishableContexts) :
      ReadStep c m (.collect slots) { m with outgoing := m.outgoing ++ slots }
  | publish (hcontexts : contexts ∈ m.outgoing)
      (hevent : ∀ e ∈ contextsOf c.decrypt c.pubkey event, e ∈ contexts) :
      ReadStep c m (.publish event) (m.rememberPublishedId event.id)
  | published : ReadStep c m (.published contexts createdAt) (m.slotPublished contexts createdAt)
  | resetPublished : ReadStep c m .resetPublished { m with lastPublishedContexts := ∅ }
  | drain : ReadStep c m .drain { m with pendingSyncedAdvances := [] }
  | destroy : ReadStep c m .destroy { m with destroyed := true }

namespace ReadEntry

def isDestroy : ReadEntry → Bool
  | .destroy => true
  | _ => false

/-- The timestamps that an entry brings: hydrated ones, a mark, or those of a valid blob. -/
def timestamps (c : Client) : ReadEntry → List (String × ℚ)
  | .hydrate stored => stored.contexts.entries.map fun e => (e.1, e.2)
  | .mark contextId unixTimestamp _ => [(contextId, unixTimestamp)]
  | .seed contextId unixTimestamp => [(contextId, unixTimestamp)]
  | .merge (some event) => contextsOf c.decrypt c.pubkey event
  | .receive event true => contextsOf c.decrypt c.pubkey event
  | .handle event => contextsOf c.decrypt c.pubkey event
  | _ => []

end ReadEntry

/-- All the timestamps that a manager has had before it was destroyed. -/
def received (c : Client) (entries : List ReadEntry) : List (String × ℚ) :=
  (entries.takeWhile fun entry => ! entry.isDestroy).flatMap (·.timestamps c)

/-- No context of the manager is above its value in the storage. -/
def Covered (m : Manager) : ReadEntry → Prop
  | .hydrate stored => ∀ k v, stored.contexts.lookup k = some v → m.effective k ≤ v
  | _ => True

def Manager.Grows (m m' : Manager) : Prop :=
  ∀ k, m.effective k ≤ m'.effective k

/-- An id names one event. -/
def SameIds (entries : List ReadEntry) : Prop :=
  ∀ event event', .publish event ∈ entries → .receive event' true ∈ entries →
    event.id = event'.id → event = event'

end Buzz.ReadState
