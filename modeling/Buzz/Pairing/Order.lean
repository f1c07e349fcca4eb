import Buzz.Pairing.Steps

namespace Buzz.Pairing
set_option autoImplicit true
open PairingSession

variable {K : Type}

/-- One call with the time at which it was made and what it returned. -/
structure Item where
  now : Nat
  call : Call
  result : Except PairingError Reply

namespace Item

def isOk (x : Item) : Bool :=
  match x.result with
  | .ok _ => true
  | .error _ => false

/-- A payload was received. -/
def receives (x : Item) : Bool :=
  match x.call with
  | .handlePayload _ => x.isOk
  | .handleReturnPayload _ => x.isOk
  | _ => false

/-- A payload was sent or received. -/
def exchanges (x : Item) : Bool :=
  match x.call with
  | .sendPayload _ _ _ => x.isOk
  | _ => x.receives

end Item

/-- What calls of any kind, with any events and any clock, make of a session. -/
inductive Trace (N : Nostr K) (s₀ : PairingSession K) : List Item → PairingSession K → Prop where
  | nil : Trace N s₀ [] s₀
  | snoc {items : List Item} {s s' : PairingSession K} {now : Nat} {c : Call}
      {r : Except PairingError Reply} (h : Trace N s₀ items s) (hrun : c.run N now s = (r, s')) :
      Trace N s₀ (items ++ [⟨now, c, r⟩]) s'

/-- Make the calls one after the other. -/
def runAll (N : Nostr K) (s : PairingSession K) (calls : List (Nat × Call)) :
    List Item × PairingSession K :=
  calls.foldl (fun p c =>
    (p.1 ++ [⟨c.1, c.2, (c.2.run N c.1 p.2).1⟩], (c.2.run N c.1 p.2).2)) ([], s)

theorem trace_runAll (N : Nostr K) (s : PairingSession K) (calls : List (Nat × Call)) :
    Trace N s (runAll N s calls).1 (runAll N s calls).2 := by
  have hrun (p : List Item × PairingSession K) (hp : Trace N s p.1 p.2) :
      Trace N s
        (calls.foldl (fun p c =>
          (p.1 ++ [⟨c.1, c.2, (c.2.run N c.1 p.2).1⟩], (c.2.run N c.1 p.2).2)) p).1
        (calls.foldl (fun p c =>
          (p.1 ++ [⟨c.1, c.2, (c.2.run N c.1 p.2).1⟩], (c.2.run N c.1 p.2).2)) p).2 := by
    induction calls generalizing p with
    | nil => exact hp
    | cons c calls ih => exact ih _ (hp.snoc rfl)
  exact hrun ([], s) .nil

/-- A session as it is created. -/
def Started (N : Nostr K) (s₀ : PairingSession K) : Prop :=
  (∃ keys sessionSecret relayUrl now, s₀ = (newSource N keys sessionSecret relayUrl now).1) ∨
    ∃ keys qr now rng event, newTarget N keys qr now rng = .ok (s₀, event)

/-- A verified offer from `peer` with the derived session id was accepted. -/
def OfferAccepted (N : Nostr K) (s₀ : PairingSession K) (peer : PublicKey) (x : Item) : Prop :=
  ∃ event text, x.call = .handleOffer event ∧ x.isOk = true ∧ event.pubkey = peer ∧
    N.verify event = .ok () ∧ decryptMessage N event s₀ = .ok (.offer text 1) ∧
    HexId.ofChars 64 text.toList = some (deriveSessionId N s₀.sessionSecret)

/-- A confirmation with the transcript hash of the target's own session was accepted. -/
def HashAccepted (N : Nostr K) (s₀ : PairingSession K) (x : Item) : Prop :=
  ∃ event text sasInput peer, x.call = .handleSasConfirm event ∧ x.isOk = true ∧
    decryptMessage N event s₀ = .ok (.sasConfirm text) ∧ s₀.sasInput = some sasInput ∧
    s₀.peerPubkey = some peer ∧
    HexId.ofChars 64 text.toList = some (deriveTranscriptHash N s₀.sessionId peer
      (N.publicKey s₀.keys) sasInput s₀.sessionSecret)

/-- The user of the source confirmed the code. -/
def SourceConfirmed (x : Item) : Prop :=
  (∃ rng, x.call = .confirmSas rng) ∧ x.isOk = true

/-- The user of the target confirmed the code. -/
def TargetConfirmed (x : Item) : Prop :=
  x.call = .confirmTargetSas ∧ x.isOk = true

/-- The calls that brought the session to its state. -/
def Reached (N : Nostr K) (s₀ : PairingSession K) (items : List Item) (s : PairingSession K) :
    Prop :=
  match s.role, s.state with
  | .source, .waiting => items.countP Item.exchanges = 0
  | .source, .confirming =>
    items.countP Item.exchanges = 0 ∧
      ∃ peer x, s.peerPubkey = some peer ∧ x ∈ items ∧ OfferAccepted N s₀ peer x
  | .source, .transferring =>
    items.countP Item.exchanges = 0 ∧
      ∃ peer x y, s.peerPubkey = some peer ∧ [x, y].Sublist items ∧
        OfferAccepted N s₀ peer x ∧ SourceConfirmed y
  | .source, .awaitingConfirmation => False
  | .target, .waiting => False
  | .target, .confirming => items.countP Item.exchanges = 0
  | .target, .awaitingConfirmation =>
    items.countP Item.exchanges = 0 ∧ ∃ x ∈ items, HashAccepted N s₀ x
  | .target, .transferring =>
    items.countP Item.exchanges = 0 ∧
      ∃ x y, [x, y].Sublist items ∧ HashAccepted N s₀ x ∧ TargetConfirmed y
  | _, .payloadExchanged => items.countP Item.exchanges ≤ 1
  | _, .completed => items.countP Item.exchanges ≤ 1
  | _, .aborted => items.countP Item.exchanges ≤ 1

/-- What calls leave as it was when the session started, and what they reached. -/
structure Inv (N : Nostr K) (s₀ : PairingSession K) (items : List Item) (s : PairingSession K) :
    Prop where
  role : s.role = s₀.role
  keys : s.keys = s₀.keys
  sessionSecret : s.sessionSecret = s₀.sessionSecret
  sessionId : s.sessionId = s₀.sessionId
  derived : s₀.sessionId = deriveSessionId N s₀.sessionSecret
  target : s.role = .target → s.peerPubkey = s₀.peerPubkey ∧ s.sasInput = s₀.sasInput ∧
    s.sasCode = s₀.sasCode ∧ s₀.peerPubkey.isSome = true ∧ s₀.sasCode.isSome = true
  reached : Reached N s₀ items s

/-- The two methods that work on an expired session. -/
def Call.isAbort : Call → Bool
  | abort _ _ => true
  | handleAbort _ => true
  | _ => false

/-- The order in which a session lets a secret through. -/
structure Ordered (N : Nostr K) (s₀ : PairingSession K) (items : List Item) (s : PairingSession K) :
    Prop where
  /-- A payload is received at most once. -/
  once : items.countP Item.receives ≤ 1
  /-- It is signed by the peer to which the session is locked. -/
  fromPeer : ∀ before x after, items = before ++ x :: after → x.receives = true →
    ∃ event peer s₁, x.call.event = some event ∧ Trace N s₀ before s₁ ∧
      s₁.peerPubkey = some peer ∧ event.pubkey = peer ∧ N.verify event = .ok ()
  /-- The target has accepted the transcript hash and its user the code. -/
  target : s₀.role = .target → ∀ before x after, items = before ++ x :: after →
    x.receives = true →
    ∃ y z, [y, z].Sublist before ∧ HashAccepted N s₀ y ∧ TargetConfirmed z
  /-- The source has accepted an offer and its user the code, and a payload goes one way. -/
  source : s₀.role = .source → items.countP Item.exchanges ≤ 1 ∧
    ∀ before x after, items = before ++ x :: after → x.exchanges = true →
      ∃ peer y z, [y, z].Sublist before ∧ OfferAccepted N s₀ peer y ∧ SourceConfirmed z
  absorbing : s.state.isTerminal = true → ∀ now c, (Call.run N now c s).2 = s
  expired : ∀ now c, s.isExpired now = true → c.isAbort = false → (Call.run N now c s).2 = s

variable {N : Nostr K} {s₀ s s' : PairingSession K} {items : List Item}

theorem decryptMessage_congr (h : s.keys = s'.keys) (event : SignedEvent) :
    decryptMessage N event s = decryptMessage N event s' := by
  rw [decryptMessage, decryptMessage, h]

theorem Item.exchanges_of_error (now : Nat) (c : Call) (e : PairingError) :
    Item.exchanges ⟨now, c, .error e⟩ = false := by
  cases c <;> rfl

theorem countP_snoc (items : List Item) (x : Item) :
    (items ++ [x]).countP Item.exchanges =
      items.countP Item.exchanges + if x.exchanges then 1 else 0 := by
  rw [List.countP_append, List.countP_singleton]

theorem Reached.countP_le (h : Reached N s₀ items s) : items.countP Item.exchanges ≤ 1 := by
  unfold Reached at h
  split at h
  · omega
  · omega
  · omega
  · exact h.elim
  · exact h.elim
  · omega
  · omega
  · omega
  · exact h
  · exact h
  · exact h

/-- A call that exchanges nothing and leaves role, state and peer keeps what was reached. -/
theorem Reached.snoc (h : Reached N s₀ items s) (hx : x.exchanges = false) :
    Reached N s₀ (items ++ [x]) s := by
  have hcount : (items ++ [x]).countP Item.exchanges = items.countP Item.exchanges := by
    rw [countP_snoc, hx]
    rfl
  have hsub := List.sublist_append_left items [x]
  unfold Reached at h ⊢
  rw [hcount]
  split at h
  · exact h
  · obtain ⟨hzero, peer, y, hpeer, hy, hoffer⟩ := h
    exact ⟨hzero, peer, y, hpeer, List.mem_append_left _ hy, hoffer⟩
  · obtain ⟨hzero, peer, y, z, hpeer, hyz, hrest⟩ := h
    exact ⟨hzero, peer, y, z, hpeer, hyz.trans hsub, hrest⟩
  · exact h
  · exact h
  · exact h
  · obtain ⟨hzero, y, hy, hhash⟩ := h
    exact ⟨hzero, y, List.mem_append_left _ hy, hhash⟩
  · obtain ⟨hzero, y, z, hyz, hrest⟩ := h
    exact ⟨hzero, y, z, hyz.trans hsub, hrest⟩
  · exact h
  · exact h
  · exact h

/-- Once a payload was exchanged, only the number of exchanges counts. -/
theorem reached_of_countP_le (hle : items.countP Item.exchanges ≤ 1)
    (hstate : s.state = .payloadExchanged ∨ s.state = .completed ∨ s.state = .aborted) :
    Reached N s₀ items s := by
  unfold Reached
  cases hrole : s.role with
  | source =>
    rcases hstate with hstate | hstate | hstate
    · simpa only [hstate] using hle
    · simpa only [hstate] using hle
    · simpa only [hstate] using hle
  | target =>
    rcases hstate with hstate | hstate | hstate
    · simpa only [hstate] using hle
    · simpa only [hstate] using hle
    · simpa only [hstate] using hle

/-- From any state the end of a session is reached without another exchange. -/
theorem Reached.ended (h : Reached N s₀ items s) (hx : x.exchanges = false)
    (hstate : s'.state = .completed ∨ s'.state = .aborted) : Reached N s₀ (items ++ [x]) s' := by
  apply reached_of_countP_le _ (.inr hstate)
  rw [countP_snoc, hx]
  exact h.countP_le

/-- The one exchange. -/
theorem reached_exchange (hzero : items.countP Item.exchanges = 0)
    (hstate : s'.state = .payloadExchanged) : Reached N s₀ (items ++ [x]) s' := by
  apply reached_of_countP_le _ (.inl hstate)
  rw [countP_snoc, hzero]
  split <;> omega

theorem validateEventBasics_eq_ok (h : validateEventBasics N event s = .ok ()) :
    N.verify event = .ok () ∧ event.id ∉ s.processedIds ∧ event.kind = PAIRING_KIND ∧
      hasPTag (N.publicKey s.keys) event = true := by
  unfold validateEventBasics at h
  split at h
  · cases h
  · rename_i hverify
    split_ifs at h with hdup hkind htag
    exact ⟨hverify, hdup, not_not.mp hkind, by simpa using htag⟩

theorem validateEventFromPeer_eq_ok (h : validateEventFromPeer N event s = .ok ())
    (hpeer : s.peerPubkey = some peer) : N.verify event = .ok () ∧ event.pubkey = peer := by
  unfold validateEventFromPeer at h
  split at h
  · cases h
  · rename_i hbasics
    rw [hpeer] at h
    dsimp only at h
    split_ifs at h with hne
    exact ⟨(validateEventBasics_eq_ok hbasics).1, not_not.mp hne⟩

theorem Reached.of_waiting (h : Reached N s₀ items s) (hstate : s.state = .waiting) :
    s.role = .source ∧ items.countP Item.exchanges = 0 := by
  unfold Reached at h
  cases hrole : s.role with
  | source =>
    simp only [hrole, hstate] at h
    exact ⟨rfl, h⟩
  | target => simp only [hrole, hstate] at h

theorem Reached.of_source_confirming (h : Reached N s₀ items s) (hrole : s.role = .source)
    (hstate : s.state = .confirming) :
    items.countP Item.exchanges = 0 ∧
      ∃ peer x, s.peerPubkey = some peer ∧ x ∈ items ∧ OfferAccepted N s₀ peer x := by
  unfold Reached at h
  simpa only [hrole, hstate] using h

theorem Reached.of_source_transferring (h : Reached N s₀ items s) (hrole : s.role = .source)
    (hstate : s.state = .transferring) :
    items.countP Item.exchanges = 0 ∧
      ∃ peer x y, s.peerPubkey = some peer ∧ [x, y].Sublist items ∧
        OfferAccepted N s₀ peer x ∧ SourceConfirmed y := by
  unfold Reached at h
  simpa only [hrole, hstate] using h

theorem Reached.of_target_confirming (h : Reached N s₀ items s) (hrole : s.role = .target)
    (hstate : s.state = .confirming) : items.countP Item.exchanges = 0 := by
  unfold Reached at h
  simpa only [hrole, hstate] using h

theorem Reached.of_awaiting (h : Reached N s₀ items s) (hrole : s.role = .target)
    (hstate : s.state = .awaitingConfirmation) :
    items.countP Item.exchanges = 0 ∧ ∃ x ∈ items, HashAccepted N s₀ x := by
  unfold Reached at h
  simpa only [hrole, hstate] using h

theorem Reached.of_target_transferring (h : Reached N s₀ items s) (hrole : s.role = .target)
    (hstate : s.state = .transferring) :
    items.countP Item.exchanges = 0 ∧
      ∃ x y, [x, y].Sublist items ∧ HashAccepted N s₀ x ∧ TargetConfirmed y := by
  unfold Reached at h
  simpa only [hrole, hstate] using h

theorem sublist_snoc {items : List Item} (hx : x ∈ items) (y : Item) :
    [x, y].Sublist (items ++ [y]) :=
  (List.singleton_sublist.mpr hx).append (List.Sublist.refl [y])

/-- A call that succeeds brings the session on in the order of the protocol. -/
theorem Inv.accepted (hinv : Inv N s₀ items s) (h : Accepts N now s c s') (a : Reply) :
    Reached N s₀ (items ++ [⟨now, c, .ok a⟩]) s' := by
  have hreached := hinv.reached
  cases h with
  | @handleOffer event text ecdh hlive hstate hrole hvalid hmsg hid hecdh =>
    have hzero := (hreached.of_waiting hstate).2
    unfold Reached
    simp only [hrole]
    refine ⟨?_, event.pubkey, ⟨now, .handleOffer event, .ok a⟩, rfl, by simp, event, text, rfl, rfl,
      rfl, (validateEventBasics_eq_ok hvalid).1, ?_, ?_⟩
    · rw [countP_snoc, hzero]
      rfl
    · rw [← decryptMessage_congr hinv.keys]
      exact hmsg
    · rw [hid, hinv.sessionId, hinv.derived]
  | @confirmSas rng event sasInput peer hlive hstate hrole hinput hpeer hbuilt =>
    obtain ⟨hzero, peer, x, hpeer, hx, hoffer⟩ := hreached.of_source_confirming hrole hstate
    unfold Reached
    simp only [hrole]
    refine ⟨?_, peer, x, ⟨now, .confirmSas rng, .ok a⟩, hpeer, sublist_snoc hx _, hoffer,
      ⟨rng, rfl⟩, rfl⟩
    rw [countP_snoc, hzero]
    rfl
  | handleReturnPayload hlive hstate hrole hvalid hmsg =>
    exact reached_exchange (hreached.of_source_transferring hrole hstate).1 rfl
  | @sendSourceComplete rng success event hlive hstate hrole hbuilt =>
    apply hreached.ended rfl
    cases success with
    | true => exact .inl rfl
    | false => exact .inr rfl
  | sendPayload hlive hstate hrole hbuilt =>
    exact reached_exchange (hreached.of_source_transferring hrole hstate).1 rfl
  | handleComplete => exact hreached.ended rfl (.inl rfl)
  | @handleSasConfirm event text sasInput peer hlive hstate hrole hvalid hmsg hinput hpeer hhash =>
    have hzero := hreached.of_target_confirming hrole hstate
    obtain ⟨hpeer₀, hinput₀, _⟩ := hinv.target hrole
    unfold Reached
    simp only [hrole]
    refine ⟨?_, ⟨now, .handleSasConfirm event, .ok a⟩, by simp, event, text, sasInput, peer, rfl, rfl,
      ?_, ?_, ?_, ?_⟩
    · rw [countP_snoc, hzero]
      rfl
    · rw [← decryptMessage_congr hinv.keys]
      exact hmsg
    · rw [← hinput₀, hinput]
    · rw [← hpeer₀, hpeer]
    · rw [hhash, hinv.sessionId, hinv.keys, hinv.sessionSecret]
  | confirmTargetSas hlive hstate hrole =>
    obtain ⟨hzero, x, hx, hhash⟩ := hreached.of_awaiting hrole hstate
    unfold Reached
    simp only [hrole]
    refine ⟨?_, x, ⟨now, .confirmTargetSas, .ok a⟩, sublist_snoc hx _, hhash, rfl, rfl⟩
    rw [countP_snoc, hzero]
    rfl
  | handlePayload hlive hstate hrole hvalid hmsg =>
    exact reached_exchange (hreached.of_target_transferring hrole hstate).1 rfl
  | sendComplete => exact hreached.ended rfl (.inl rfl)
  | abort => exact hreached.ended rfl (.inr rfl)
  | handleAbort => exact hreached.ended rfl (.inr rfl)

/-- What no call changes. -/
structure SameParty (s s' : PairingSession K) : Prop where
  role : s'.role = s.role
  keys : s'.keys = s.keys
  sessionSecret : s'.sessionSecret = s.sessionSecret
  sessionId : s'.sessionId = s.sessionId
  createdAt : s'.createdAt = s.createdAt
  timeout : s'.timeout = s.timeout
  target : s.role = .target →
    s'.peerPubkey = s.peerPubkey ∧ s'.sasInput = s.sasInput ∧ s'.sasCode = s.sasCode

theorem SameParty.rfl_of (h : s.role = .target → s'.peerPubkey = s.peerPubkey ∧
    s'.sasInput = s.sasInput ∧ s'.sasCode = s.sasCode)
    (hs : s' = { s with
      state := s'.state
      peerPubkey := s'.peerPubkey
      sasCode := s'.sasCode
      sasInput := s'.sasInput
      processedIds := s'.processedIds }) : SameParty s s' := by
  rw [hs]
  refine ⟨rfl, rfl, rfl, rfl, rfl, rfl, ?_⟩
  exact h

theorem Outcome.sameParty (h : Outcome N now s c r s') : SameParty s s' := by
  cases h with
  | refused e => exact .rfl_of (fun _ => ⟨rfl, rfl, rfl⟩) rfl
  | aborted e ha => exact .rfl_of (fun _ => ⟨rfl, rfl, rfl⟩) rfl
  | spoiled e hs =>
    cases hs with
    | handleOffer hlive hstate hrole =>
      exact .rfl_of (fun ht => absurd (hrole.symm.trans ht) (by decide)) rfl
    | handleSasConfirm => exact .rfl_of (fun _ => ⟨rfl, rfl, rfl⟩) rfl
  | accepted a ha =>
    cases ha with
    | handleOffer hlive hstate hrole =>
      exact .rfl_of (fun ht => absurd (hrole.symm.trans ht) (by decide)) rfl
    | _ => exact .rfl_of (fun _ => ⟨rfl, rfl, rfl⟩) rfl

theorem Inv.reached_step (hinv : Inv N s₀ items s) (h : Outcome N now s c r s') :
    Reached N s₀ (items ++ [⟨now, c, r⟩]) s' := by
  cases h with
  | refused e => exact hinv.reached.snoc (Item.exchanges_of_error now c e)
  | aborted e ha => exact hinv.reached.ended (Item.exchanges_of_error now c e) (.inr rfl)
  | spoiled e hs =>
    cases hs with
    | handleOffer hlive hstate hrole hmsg hecdh =>
      have hzero := (hinv.reached.of_waiting hstate).2
      unfold Reached
      simp only [hrole, hstate]
      rw [countP_snoc, hzero]
      rfl
    | handleSasConfirm hlive hstate hrole hcode =>
      obtain ⟨_, _, hcode₀, _, hsome⟩ := hinv.target hrole
      rw [← hcode₀, hcode] at hsome
      cases hsome
  | accepted a ha => exact hinv.accepted ha a

theorem Inv.step (hinv : Inv N s₀ items s) (h : c.run N now s = (r, s')) :
    Inv N s₀ (items ++ [⟨now, c, r⟩]) s' := by
  have houtcome := Call.outcome h
  have hsame := houtcome.sameParty
  refine ⟨hsame.role.trans hinv.role, hsame.keys.trans hinv.keys,
    hsame.sessionSecret.trans hinv.sessionSecret, hsame.sessionId.trans hinv.sessionId, hinv.derived,
    ?_, hinv.reached_step houtcome⟩
  intro ht
  have ht : s.role = .target := hsame.role.symm.trans ht
  obtain ⟨hpeer, hinput, hcode⟩ := hsame.target ht
  obtain ⟨hpeer₀, hinput₀, hcode₀, hsome⟩ := hinv.target ht
  exact ⟨hpeer.trans hpeer₀, hinput.trans hinput₀, hcode.trans hcode₀, hsome⟩

theorem newTarget_eq_ok {keys : K} {qr : QrPayload}
    (h : newTarget N keys qr now rng = .ok (s, event)) :
    ∃ ecdh, N.generateSharedKey keys qr.sourcePubkey = .ok ecdh ∧
      s =
        { role := .target
          state := .confirming
          keys := keys
          sessionSecret := qr.sessionSecret
          relayUrls := qr.relays
          peerPubkey := some qr.sourcePubkey
          sessionId := deriveSessionId N qr.sessionSecret
          sasCode := some (deriveSas N ecdh qr.sessionSecret).1
          sasInput := some (deriveSas N ecdh qr.sessionSecret).2
          processedIds := ∅
          createdAt := now
          timeout := DEFAULT_TIMEOUT } := by
  unfold newTarget at h
  dsimp only at h
  split at h
  · cases h
  · rename_i ecdh hecdh
    split at h
    · cases h
    · cases h
      exact ⟨ecdh, hecdh, rfl⟩

theorem Started.inv (h : Started N s₀) : Inv N s₀ [] s₀ := by
  rcases h with ⟨keys, sessionSecret, relayUrl, now, rfl⟩ | ⟨keys, qr, now, rng, event, h⟩
  · exact ⟨rfl, rfl, rfl, rfl, rfl, nofun, rfl⟩
  · obtain ⟨ecdh, hecdh, rfl⟩ := newTarget_eq_ok h
    exact ⟨rfl, rfl, rfl, rfl, rfl, fun _ => ⟨rfl, rfl, rfl, rfl, rfl⟩, rfl⟩

theorem Trace.inv (h : Trace N s₀ items s) (hstart : Started N s₀) : Inv N s₀ items s := by
  induction h with
  | nil => exact hstart.inv
  | snoc _ hrun ih => exact ih.step hrun

/-- A trace runs through each of its calls. -/
theorem Trace.split {before after : List Item} {x : Item}
    (h : Trace N s₀ (before ++ x :: after) s) :
    ∃ s₁ s₂, Trace N s₀ before s₁ ∧ x.call.run N x.now s₁ = (x.result, s₂) := by
  generalize hitems : before ++ x :: after = items at h
  induction h generalizing after with
  | nil => exact absurd hitems (by simp)
  | @snoc items s s' now c r h hrun ih =>
    rcases List.eq_nil_or_concat' after with rfl | ⟨after, y, rfl⟩
    · obtain ⟨rfl, rfl⟩ := List.append_singleton_inj.mp hitems
      exact ⟨s, s', h, hrun⟩
    · rw [← List.cons_append, ← List.append_assoc] at hitems
      exact ih (List.append_singleton_inj.mp hitems).1

/-- Nothing but a refusal can come of a call that meets no method's conditions. -/
theorem Outcome.eq_of_refused (h : Outcome N now s c r s') (haccepts : ∀ t, ¬Accepts N now s c t)
    (haborts : ¬Aborts N now s c) (hspoils : ∀ t, ¬Spoils N now s c t) : s' = s := by
  cases h with
  | refused => rfl
  | aborted _ ha => exact (haborts ha).elim
  | spoiled _ hs => exact (hspoils _ hs).elim
  | accepted _ ha => exact (haccepts _ ha).elim

theorem isTerminal_of_state {st : SessionState} (h : s.state = st) (hst : st.isTerminal = false) :
    s.state.isTerminal = false := by
  rw [h, hst]

theorem Accepts.not_terminal (h : Accepts N now s c s') : s.state.isTerminal = false := by
  cases h with
  | handleOffer _ hstate => exact isTerminal_of_state hstate rfl
  | confirmSas _ hstate => exact isTerminal_of_state hstate rfl
  | handleReturnPayload _ hstate => exact isTerminal_of_state hstate rfl
  | sendSourceComplete _ hstate => exact isTerminal_of_state hstate rfl
  | sendPayload _ hstate => exact isTerminal_of_state hstate rfl
  | handleComplete _ hstate => exact isTerminal_of_state hstate rfl
  | handleSasConfirm _ hstate => exact isTerminal_of_state hstate rfl
  | confirmTargetSas _ hstate => exact isTerminal_of_state hstate rfl
  | handlePayload _ hstate => exact isTerminal_of_state hstate rfl
  | sendComplete _ hstate => exact isTerminal_of_state hstate rfl
  | abort hlive => exact hlive
  | handleAbort hlive => exact hlive

theorem Aborts.not_terminal (h : Aborts N now s c) : s.state.isTerminal = false := by
  cases h with
  | handleSasConfirm _ hstate => exact isTerminal_of_state hstate rfl
  | handleComplete _ hstate => exact isTerminal_of_state hstate rfl

theorem Spoils.not_terminal (h : Spoils N now s c s') : s.state.isTerminal = false := by
  cases h with
  | handleOffer _ hstate => exact isTerminal_of_state hstate rfl
  | handleSasConfirm _ hstate => exact isTerminal_of_state hstate rfl

theorem Accepts.not_expired (h : Accepts N now s c s') (hc : c.isAbort = false) :
    s.isExpired now = false := by
  cases h with
  | abort => cases hc
  | handleAbort => cases hc
  | _ => assumption

theorem Aborts.not_expired (h : Aborts N now s c) : s.isExpired now = false := by
  cases h with
  | _ => assumption

theorem Spoils.not_expired (h : Spoils N now s c s') : s.isExpired now = false := by
  cases h with
  | _ => assumption

theorem Call.run_terminal (h : s.state.isTerminal = true) (now : Nat) (c : Call) :
    (c.run N now s).2 = s := by
  have hne : s.state.isTerminal ≠ false := by
    rw [h]
    decide
  have hrun : c.run N now s = ((c.run N now s).1, (c.run N now s).2) := rfl
  exact (Call.outcome hrun).eq_of_refused
    (fun _ ha => hne ha.not_terminal) (fun ha => hne ha.not_terminal) fun _ hs => hne hs.not_terminal

theorem Call.run_expired (h : s.isExpired now = true) {c : Call} (hc : c.isAbort = false) :
    (c.run N now s).2 = s := by
  have hne : s.isExpired now ≠ false := by
    rw [h]
    decide
  have hrun : c.run N now s = ((c.run N now s).1, (c.run N now s).2) := rfl
  exact (Call.outcome hrun).eq_of_refused
    (fun _ ha => hne (ha.not_expired hc)) (fun ha => hne ha.not_expired)
    fun _ hs => hne hs.not_expired

theorem Item.exchanges_of_receives {x : Item} (h : x.receives = true) : x.exchanges = true := by
  obtain ⟨now, call, result⟩ := x
  cases call with
  | sendPayload => cases h
  | _ => exact h

/-- A call that received a payload is one of the two handlers, and it succeeded. -/
theorem Item.receives_cases {x : Item} (h : x.receives = true) :
    ∃ event a, x.result = .ok a ∧
      (x.call = .handlePayload event ∨ x.call = .handleReturnPayload event) := by
  obtain ⟨now, call, result⟩ := x
  cases result with
  | error e =>
    cases call with
    | _ => cases h
  | ok a =>
    cases call with
    | handlePayload event => exact ⟨event, a, rfl, .inl rfl⟩
    | handleReturnPayload event => exact ⟨event, a, rfl, .inr rfl⟩
    | _ => cases h

theorem Outcome.accepts {a : α} (h : Outcome N now s c (.ok a) s') : Accepts N now s c s' := by
  cases h with
  | accepted _ ha => exact ha

theorem Item.exchanges_cases {x : Item} (h : x.exchanges = true) :
    x.receives = true ∨ ∃ rng payloadType payload a,
      x.call = .sendPayload rng payloadType payload ∧ x.result = .ok a := by
  obtain ⟨now, call, result⟩ := x
  cases call with
  | sendPayload rng payloadType payload =>
    cases result with
    | error e => cases h
    | ok a => exact .inr ⟨rng, payloadType, payload, a, rfl, rfl⟩
  | _ => exact .inl h

/-- The handlers of payloads run in state `Transferring` and take an event of the peer. -/
theorem Accepts.of_receives {x : Item} (hx : x.receives = true)
    (hrun : x.call.run N x.now s = (x.result, s')) :
    ∃ event, x.call.event = some event ∧ s.state = .transferring ∧
      validateEventFromPeer N event s = .ok () := by
  obtain ⟨event, a, hresult, hcall⟩ := Item.receives_cases hx
  rw [hresult] at hrun
  have haccepts := (Call.outcome hrun).accepts
  rcases hcall with hcall | hcall
  · rw [hcall] at haccepts ⊢
    cases haccepts with
    | handlePayload hlive hstate hrole hvalid hmsg => exact ⟨event, rfl, hstate, hvalid⟩
  · rw [hcall] at haccepts ⊢
    cases haccepts with
    | handleReturnPayload hlive hstate hrole hvalid hmsg => exact ⟨event, rfl, hstate, hvalid⟩

theorem Inv.peer_of_transferring (hinv : Inv N s₀ items s) (hstate : s.state = .transferring) :
    ∃ peer, s.peerPubkey = some peer := by
  cases hrole : s.role with
  | source =>
    obtain ⟨_, peer, _, _, hpeer, _⟩ := hinv.reached.of_source_transferring hrole hstate
    exact ⟨peer, hpeer⟩
  | target =>
    obtain ⟨hpeer, _, _, hsome, _⟩ := hinv.target hrole
    obtain ⟨peer, hpeer₀⟩ := Option.isSome_iff_exists.mp hsome
    exact ⟨peer, hpeer.trans hpeer₀⟩

/-- Whoever calls whatever in whatever order, a session lets a secret through only in the order of
the protocol. -/
theorem pairing_ordered (hstart : Started N s₀) (h : Trace N s₀ items s) :
    Ordered N s₀ items s where
  once :=
    (List.countP_mono_left fun _ _ => Item.exchanges_of_receives).trans
      (h.inv hstart).reached.countP_le
  fromPeer := by
    intro before x after hitems hx
    rw [hitems] at h
    obtain ⟨s₁, s₂, hbefore, hrun⟩ := h.split
    obtain ⟨event, hevent, hstate, hvalid⟩ := Accepts.of_receives hx hrun
    obtain ⟨peer, hpeer⟩ := (hbefore.inv hstart).peer_of_transferring hstate
    obtain ⟨hverify, hpubkey⟩ := validateEventFromPeer_eq_ok hvalid hpeer
    exact ⟨event, peer, s₁, hevent, hbefore, hpeer, hpubkey, hverify⟩
  target := by
    intro hrole before x after hitems hx
    rw [hitems] at h
    obtain ⟨s₁, s₂, hbefore, hrun⟩ := h.split
    obtain ⟨event, _, hstate, _⟩ := Accepts.of_receives hx hrun
    have hinv := hbefore.inv hstart
    exact (hinv.reached.of_target_transferring (hinv.role.trans hrole) hstate).2
  source := by
    intro hrole
    refine ⟨(h.inv hstart).reached.countP_le, ?_⟩
    intro before x after hitems hx
    rw [hitems] at h
    obtain ⟨s₁, s₂, hbefore, hrun⟩ := h.split
    have hinv := hbefore.inv hstart
    have hstate : s₁.state = .transferring := by
      rcases Item.exchanges_cases hx with hx | ⟨rng, payloadType, payload, a, hcall, hresult⟩
      · obtain ⟨event, _, hstate, _⟩ := Accepts.of_receives hx hrun
        exact hstate
      · rw [hcall, hresult] at hrun
        cases (Call.outcome hrun).accepts with
        | sendPayload hlive hstate => exact hstate
    obtain ⟨_, peer, y, z, _, hyz, hoffer, hconfirmed⟩ :=
      hinv.reached.of_source_transferring (hinv.role.trans hrole) hstate
    exact ⟨peer, y, z, hyz, hoffer, hconfirmed⟩
  absorbing := Call.run_terminal
  expired := fun _ _ hexpired hc => Call.run_expired hexpired hc

namespace PairingExample

/-- With this an offer or a confirmation has the 132 bytes of the shortest ciphertext. -/
def padding : List Char :=
  List.replicate 67 'A'

/-- A crate whose keys are numbers and whose cipher only pads. -/
def crate : Nostr (HexId 64) where
  publicKey k := k
  verify e := if e.sig = HexId.ofNat 128 0 then .ok () else .error "bad signature"
  sign k b := .ok
    { id := k
      pubkey := k
      createdAt := b.createdAt
      kind := b.kind
      tags := b.tags
      content := b.content
      sig := HexId.ofNat 128 0 }
  generateSharedKey k pk := .ok
    ⟨List.zipWith (· + ·) k.nibbles pk.nibbles, by
      rw [List.length_zipWith, k.length_eq, pk.length_eq, Nat.min_self]⟩
  encrypt _ _ text _ := .ok (String.ofList (padding ++ text.toList))
  decrypt _ _ content := .ok (String.ofList (content.toList.drop 67))
  hkdfExtract salt ikm := HexId.ofNat 64 (beValue (salt ++ ikm))
  hkdfExpand prk info := HexId.ofNat 64 (beValue (prk ++ info))
  toJson
    | .offer sessionId version =>
      if version = 1 then .ok (String.ofList ('O' :: sessionId.toList)) else .error "version"
    | .sasConfirm hash => .ok (String.ofList ('S' :: hash.toList))
    | .payload .nsec payload => .ok (String.ofList ('P' :: payload.toList))
    | .complete true => .ok "C"
    | _ => .error "unsupported"
  fromJson text :=
    match text.toList with
    | 'O' :: cs => .ok (.offer (String.ofList cs) 1)
    | 'S' :: cs => .ok (.sasConfirm (String.ofList cs))
    | 'P' :: cs => .ok (.payload .nsec (String.ofList cs))
    | ['C'] => .ok (.complete true)
    | _ => .error "unsupported"

def sourceKey : HexId 64 := HexId.ofNat 64 1
def targetKey : HexId 64 := HexId.ofNat 64 2

def rng : Entropy := ⟨0, 0, 0⟩

def source : PairingSession (HexId 64) × QrPayload :=
  newSource crate sourceKey (HexId.ofNat 64 7) "wss://relay.example" 0

/-- The event that carries a message from one key to another. -/
def eventOf (sender recipient : HexId 64) (text : List Char) : SignedEvent where
  id := sender
  pubkey := sender
  createdAt := 0
  kind := PAIRING_KIND
  tags := [⟨"p", [recipient.toHex]⟩]
  content := String.ofList (padding ++ text)
  sig := HexId.ofNat 128 0

def offer : SignedEvent :=
  eventOf targetKey sourceKey ('O' :: source.1.sessionId.toHex.toList)

def calls : List (Nat × Call) :=
  [(0, .handleOffer offer), (1, .confirmSas rng), (2, .sendPayload rng .nsec "nsec1")]

end PairingExample

open PairingExample

theorem pairing_ordered_source :
    Ordered crate source.1 (runAll crate source.1 calls).1 (runAll crate source.1 calls).2 ∧
      (runAll crate source.1 calls).1.countP Item.exchanges = 1 :=
  ⟨pairing_ordered (.inl ⟨_, _, _, _, rfl⟩) (trace_runAll _ _ _), by decide +kernel⟩

end Buzz.Pairing
