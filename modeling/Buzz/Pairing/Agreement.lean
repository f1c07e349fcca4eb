import Buzz.Pairing.Failure

namespace Buzz.Pairing
set_option autoImplicit true
open PairingSession

variable {K : Type}

/-- A session with the calls that were made on it. -/
structure Party (N : Nostr K) where
  start : PairingSession K
  items : List Item
  session : PairingSession K
  trace : Trace N start items session

namespace Party

variable {N : Nostr K}

def fresh (N : Nostr K) (s : PairingSession K) : Party N :=
  ⟨s, [], s, .nil⟩

def call (p : Party N) (now : Nat) (c : Call) : Party N :=
  ⟨p.start, p.items ++ [⟨now, c, (c.run N now p.session).1⟩], (c.run N now p.session).2,
    .snoc p.trace rfl⟩

def pubkey (p : Party N) : PublicKey :=
  N.publicKey p.start.keys

/-- `handle_sas_confirm` returned a code. -/
def Confirmed (p : Party N) : Prop :=
  ∃ x ∈ p.items, x.isOk = true ∧ ∃ event, x.call = .handleSasConfirm event

end Party

/-- What a call encrypts, and for whom. -/
inductive Encrypts (N : Nostr K) (now : Nat) (s : PairingSession K) :
    Call → PublicKey → PairingMessage → Prop where
  | confirmSas {rng : Entropy} {sasInput : HexId 64} {peer : PublicKey}
      (hlive : s.isExpired now = false) (hstate : s.state = .confirming) (hrole : s.role = .source)
      (hinput : s.sasInput = some sasInput) (hpeer : s.peerPubkey = some peer) :
      Encrypts N now s (.confirmSas rng) peer (.sasConfirm (deriveTranscriptHash N s.sessionId
        (N.publicKey s.keys) peer sasInput s.sessionSecret).toHex)
  | sendSourceComplete {rng : Entropy} {success : Bool} {peer : PublicKey}
      (hlive : s.isExpired now = false) (hstate : s.state = .payloadExchanged)
      (hrole : s.role = .source) (hpeer : s.peerPubkey = some peer) :
      Encrypts N now s (.sendSourceComplete rng success) peer (.complete success)
  | sendPayload {rng : Entropy} {payloadType : PayloadType} {payload : String} {peer : PublicKey}
      (hlive : s.isExpired now = false) (hstate : s.state = .transferring) (hrole : s.role = .source)
      (hpeer : s.peerPubkey = some peer) :
      Encrypts N now s (.sendPayload rng payloadType payload) peer (.payload payloadType payload)
  | sendComplete {rng : Entropy} {peer : PublicKey}
      (hlive : s.isExpired now = false) (hstate : s.state = .payloadExchanged)
      (hrole : s.role = .target) (hpeer : s.peerPubkey = some peer) :
      Encrypts N now s (.sendComplete rng) peer (.complete true)
  | abort {rng : Entropy} {reason : AbortReason} {peer : PublicKey}
      (hlive : s.state.isTerminal = false) (hpeer : s.peerPubkey = some peer) :
      Encrypts N now s (.abort rng reason) peer (.abort reason)

/-- The event that a reply carries. -/
def Reply.built : Reply → Option SignedEvent
  | event e => some e
  | abort e => e
  | _ => none

/-- A message, its sender and the key it was encrypted for. -/
structure Sealed where
  sender : PublicKey
  recipient : PublicKey
  message : PairingMessage

/-- One source, the targets that scanned its QR code, and everything they have encrypted. -/
structure System (N : Nostr K) where
  qr : QrPayload
  source : Party N
  targets : List (Party N)
  encrypted : Set Sealed

/-- What a call of a session adds to what was encrypted. -/
def sealedBy (N : Nostr K) (now : Nat) (s : PairingSession K) (c : Call) : Set Sealed :=
  { x | x.sender = N.publicKey s.keys ∧ Encrypts N now s c x.recipient x.message }

/-- What decrypts as a message of the source was encrypted by the source for this key. -/
def System.Authentic {N : Nostr K} (sys : System N) (keys : K) (c : Call) : Prop :=
  ∀ event ∈ c.event, event.pubkey = sys.source.pubkey →
    ∀ text, N.decrypt keys event.pubkey event.content = .ok text →
      ∃ message, ⟨event.pubkey, N.publicKey keys, message⟩ ∈ sys.encrypted ∧
        N.toJson message = .ok text

/-- Any party makes any call at any time, with any event that the cipher lets through. -/
inductive System.Step {N : Nostr K} (sys : System N) : System N → Prop where
  | join {keys : K} {now : Nat} {rng : Entropy} {session : PairingSession K} {event : SignedEvent}
      (hnew : newTarget N keys sys.qr now rng = .ok (session, event)) :
      Step sys
        { sys with
          targets := sys.targets ++ [.fresh N session]
          encrypted := insert ⟨N.publicKey keys, sys.qr.sourcePubkey,
            .offer (deriveSessionId N sys.qr.sessionSecret).toHex 1⟩ sys.encrypted }
  | source (now : Nat) (c : Call) :
      Step sys
        { sys with
          source := sys.source.call now c
          encrypted := sys.encrypted ∪ sealedBy N now sys.source.session c }
  | target {before after : List (Party N)} {p : Party N} (now : Nat) (c : Call)
      (htargets : sys.targets = before ++ p :: after)
      (hauthentic : sys.Authentic p.session.keys c) :
      Step sys
        { sys with
          targets := before ++ p.call now c :: after
          encrypted := sys.encrypted ∪ sealedBy N now p.session c }

/-- The systems that start from a new source. -/
inductive System.Reachable {N : Nostr K} : System N → Prop where
  | start (keys : K) (sessionSecret : HexId 64) (relayUrl : String) (now : Nat) :
      Reachable
        { qr := (newSource N keys sessionSecret relayUrl now).2
          source := .fresh N (newSource N keys sessionSecret relayUrl now).1
          targets := []
          encrypted := ∅ }
  | step {sys sys' : System N} (h : Reachable sys) (hstep : sys.Step sys') : Reachable sys'

/-- ECDH gives both parties the same secret. -/
def Nostr.SymmetricEcdh (N : Nostr K) : Prop :=
  ∀ k k', N.generateSharedKey k (N.publicKey k') = N.generateSharedKey k' (N.publicKey k)

/-- The JSON text of a message reads as no other message. -/
def Nostr.JsonRoundTrip (N : Nostr K) : Prop :=
  ∀ message text message', N.toJson message = .ok text → N.fromJson text = .ok message' →
    message' = message

/-- The source has accepted the offer of the target, and both hold the same session id, SAS input
and SAS code. -/
structure Agreed {N : Nostr K} (source target : Party N) : Prop where
  peer : source.session.peerPubkey = some target.pubkey
  offer : ∃ x ∈ source.items, OfferAccepted N source.start target.pubkey x
  sessionId : source.session.sessionId = target.session.sessionId
  sasInput : source.session.sasInput.isSome = true ∧
    source.session.sasInput = target.session.sasInput
  sasCode : source.session.sasCode.isSome = true ∧
    source.session.sasCode = target.session.sasCode

variable {N : Nostr K} {s s' : PairingSession K}

theorem buildEvent_peer (h : buildEvent N rng message s = .ok event) :
    ∃ peer, s.peerPubkey = some peer := by
  unfold buildEvent at h
  split at h
  · cases h
  · rename_i peer hpeer
    exact ⟨peer, hpeer⟩

theorem guarded_build_of_ok {st st' : SessionState} {ro : Role} {event : SignedEvent}
    (h : (Fallible.check (checkExpired now) >>= fun _ => Fallible.check (expectState st) >>=
      fun _ => Fallible.check (expectRole ro) >>= fun _ =>
      Fallible.check (buildEvent N rng message) >>= fun e => setState st' >>= fun _ => pure e) s =
        (.ok event, s')) :
    s.isExpired now = false ∧ s.state = st ∧ s.role = ro ∧
      (∃ peer, s.peerPubkey = some peer) ∧ buildEvent N rng message s = .ok event := by
  rcases guarded_build_cases h with ⟨_, he, _⟩ | ⟨_, hevent, _, hlive, hstate, hrole, hbuilt⟩
  · cases he
  · cases hevent
    exact ⟨hlive, hstate, hrole, buildEvent_peer hbuilt, hbuilt⟩

/-- Every event that a call returns carries a message that the call encrypts for the peer. -/
theorem Call.run_built {c : Call} {event : SignedEvent} (h : c.run N now s = (.ok reply, s'))
    (hbuilt : reply.built = some event) :
    ∃ rng peer message, Encrypts N now s c peer message ∧ s.peerPubkey = some peer ∧
      buildEvent N rng message s = .ok event := by
  cases c with
  | confirmSas rng =>
    obtain ⟨e, hrun, rfl⟩ := Fallible.map_of_ok h
    cases hbuilt
    rcases guarded_cases hrun with ⟨_, he, _⟩ | ⟨hlive, hstate, hrole, hrun⟩
    · cases he
    obtain ⟨sasInput, hinput, hrun⟩ := Fallible.check_bind_of_ok hrun
    obtain ⟨peer, hpeer, hrun⟩ := Fallible.check_bind_of_ok hrun
    rw [Fallible.read_bind] at hrun
    obtain ⟨e, he, hrun⟩ := Fallible.check_bind_of_ok hrun
    cases hrun
    have hpeer := requirePeer_eq_ok hpeer
    exact ⟨rng, peer, _, .confirmSas hlive hstate hrole (requireSasInput_eq_ok hinput) hpeer,
      hpeer, he⟩
  | sendSourceComplete rng success =>
    obtain ⟨e, hrun, rfl⟩ := Fallible.map_of_ok h
    cases hbuilt
    obtain ⟨hlive, hstate, hrole, ⟨peer, hpeer⟩, he⟩ := guarded_build_of_ok hrun
    exact ⟨rng, peer, _, .sendSourceComplete hlive hstate hrole hpeer, hpeer, he⟩
  | sendPayload rng payloadType payload =>
    obtain ⟨e, hrun, rfl⟩ := Fallible.map_of_ok h
    cases hbuilt
    obtain ⟨hlive, hstate, hrole, ⟨peer, hpeer⟩, he⟩ := guarded_build_of_ok hrun
    exact ⟨rng, peer, _, .sendPayload hlive hstate hrole hpeer, hpeer, he⟩
  | sendComplete rng =>
    obtain ⟨e, hrun, rfl⟩ := Fallible.map_of_ok h
    cases hbuilt
    obtain ⟨hlive, hstate, hrole, ⟨peer, hpeer⟩, he⟩ := guarded_build_of_ok hrun
    exact ⟨rng, peer, _, .sendComplete hlive hstate hrole hpeer, hpeer, he⟩
  | abort rng reason =>
    obtain ⟨e, hrun, rfl⟩ := Fallible.map_of_ok h
    obtain ⟨_, hlive, hrun⟩ := Fallible.check_bind_of_ok hrun
    rw [Fallible.read_bind] at hrun
    split at hrun
    · obtain ⟨e, he, hrun⟩ := Fallible.check_bind_of_ok hrun
      cases hrun
      cases hbuilt
      obtain ⟨peer, hpeer⟩ := buildEvent_peer he
      exact ⟨rng, peer, _, .abort (expectLive_eq_ok hlive) hpeer, hpeer, he⟩
    · cases hrun
      cases hbuilt
  | _ =>
    obtain ⟨e, _, rfl⟩ := Fallible.map_of_ok h
    cases hbuilt

/-- A source has a SAS input only from the offer of its peer. -/
def SasOfPeer (N : Nostr K) (s : PairingSession K) : Prop :=
  ∀ sasInput, s.sasInput = some sasInput → s.state ≠ .waiting ∧
    ∃ peer ecdh, s.peerPubkey = some peer ∧ N.generateSharedKey s.keys peer = .ok ecdh ∧
      sasInput = (deriveSas N ecdh s.sessionSecret).2 ∧
      s.sasCode = some (deriveSas N ecdh s.sessionSecret).1

/-- After the offer no call changes the peer or what was derived for it. -/
theorem Outcome.frozen (h : Outcome N now s c r s') (hstate : s.state ≠ .waiting) :
    s'.state ≠ .waiting ∧ s'.peerPubkey = s.peerPubkey ∧ s'.sasInput = s.sasInput ∧
      s'.sasCode = s.sasCode := by
  cases h with
  | refused => exact ⟨hstate, rfl, rfl, rfl⟩
  | aborted => exact ⟨nofun, rfl, rfl, rfl⟩
  | spoiled _ hs =>
    cases hs with
    | handleOffer _ hwaiting => exact (hstate hwaiting).elim
    | handleSasConfirm => exact ⟨nofun, rfl, rfl, rfl⟩
  | accepted _ ha =>
    cases ha with
    | handleOffer _ hwaiting => exact (hstate hwaiting).elim
    | @sendSourceComplete _ success =>
      cases success with
      | true => exact ⟨nofun, rfl, rfl, rfl⟩
      | false => exact ⟨nofun, rfl, rfl, rfl⟩
    | _ => exact ⟨nofun, rfl, rfl, rfl⟩

theorem SasOfPeer.frozen (hsas : SasOfPeer N s) (h : Outcome N now s c r s')
    (hstate : s.state ≠ .waiting) : SasOfPeer N s' := by
  obtain ⟨hstate', hpeer, hinput, hcode⟩ := h.frozen hstate
  have hsame := h.sameParty
  intro sasInput hsome
  rw [hinput] at hsome
  obtain ⟨_, peer, ecdh, hp, he, hi, hc⟩ := hsas sasInput hsome
  rw [hsame.keys, hsame.sessionSecret, hpeer, hcode]
  exact ⟨hstate', peer, ecdh, hp, he, hi, hc⟩

theorem SasOfPeer.step (hsas : SasOfPeer N s) (h : Outcome N now s c r s') : SasOfPeer N s' := by
  by_cases hstate : s.state = .waiting
  · have hnone : s.sasInput = none := by
      cases hinput : s.sasInput with
      | none => rfl
      | some sasInput => exact ((hsas sasInput hinput).1 hstate).elim
    have hkeep {t : PairingSession K} (ht : t.sasInput = s.sasInput) : SasOfPeer N t := by
      intro sasInput hsome
      rw [ht, hnone] at hsome
      cases hsome
    cases h with
    | refused => exact hsas
    | aborted => exact hkeep rfl
    | spoiled _ hs =>
      cases hs with
      | handleOffer => exact hkeep rfl
      | handleSasConfirm => exact hkeep rfl
    | accepted _ ha =>
      cases ha with
      | @handleOffer event text ecdh _ _ _ _ _ _ hecdh =>
        intro sasInput hsome
        exact ⟨nofun, event.pubkey, ecdh, rfl, hecdh, (Option.some.inj hsome).symm, rfl⟩
      | _ => exact hkeep rfl
  · exact hsas.frozen h hstate

/-- What holds of the system after any steps. -/
structure System.Inv {N : Nostr K} (sys : System N) : Prop where
  source : ∃ keys sessionSecret relayUrl now,
    (sys.source.start, sys.qr) = newSource N keys sessionSecret relayUrl now
  targets : ∀ p ∈ sys.targets, ∃ keys now rng event,
    newTarget N keys sys.qr now rng = .ok (p.start, event)
  sas : SasOfPeer N sys.source.session
  confirmations : ∀ x ∈ sys.encrypted, ∀ text, x.message = .sasConfirm text →
    sys.source.session.peerPubkey = some x.recipient ∧
      sys.source.session.sasInput.isSome = true ∧
      ∃ y ∈ sys.source.items, OfferAccepted N sys.source.start x.recipient y
  agreed : ∀ p ∈ sys.targets, p.Confirmed → Agreed sys.source p

theorem Party.outcome (p : Party N) (now : Nat) (c : Call) :
    Outcome N now p.session c (c.run N now p.session).1 (p.call now c).session :=
  Call.outcome rfl

theorem Agreed.source_call {source p : Party N} (h : Agreed source p)
    (hsas : SasOfPeer N source.session) (now : Nat) (c : Call) :
    Agreed (source.call now c) p := by
  obtain ⟨sasInput, hsome⟩ := Option.isSome_iff_exists.mp h.sasInput.1
  have houtcome := source.outcome now c
  obtain ⟨_, hpeer, hinput, hcode⟩ := houtcome.frozen (hsas sasInput hsome).1
  obtain ⟨x, hx, hoffer⟩ := h.offer
  refine ⟨hpeer.trans h.peer, ⟨x, List.mem_append_left _ hx, hoffer⟩,
    houtcome.sameParty.sessionId.trans h.sessionId, ?_, ?_⟩
  · rw [hinput]
    exact h.sasInput
  · rw [hcode]
    exact h.sasCode

theorem Agreed.target_call {source p : Party N} (h : Agreed source p)
    (hrole : p.session.role = .target) (now : Nat) (c : Call) : Agreed source (p.call now c) := by
  have hsame := (p.outcome now c).sameParty
  obtain ⟨_, hinput, hcode⟩ := hsame.target hrole
  refine ⟨h.peer, h.offer, h.sessionId.trans hsame.sessionId.symm, ?_, ?_⟩
  · rw [hinput]
    exact h.sasInput
  · rw [hcode]
    exact h.sasCode

theorem System.Inv.source_inv {sys : System N} (hinv : sys.Inv) :
    Pairing.Inv N sys.source.start sys.source.items sys.source.session := by
  obtain ⟨keys, sessionSecret, relayUrl, now, hsource⟩ := hinv.source
  exact sys.source.trace.inv (.inl ⟨keys, sessionSecret, relayUrl, now, congrArg Prod.fst hsource⟩)

/-- The QR code carries the key and the secret of the source. -/
theorem System.Inv.qr {sys : System N} (hinv : sys.Inv) :
    sys.source.start.role = .source ∧ sys.qr.sourcePubkey = sys.source.pubkey ∧
      sys.qr.sessionSecret = sys.source.start.sessionSecret := by
  obtain ⟨keys, sessionSecret, relayUrl, now, hsource⟩ := hinv.source
  have hstart : sys.source.start = (newSource N keys sessionSecret relayUrl now).1 :=
    congrArg Prod.fst hsource
  have hqr : sys.qr = (newSource N keys sessionSecret relayUrl now).2 := congrArg Prod.snd hsource
  rw [Party.pubkey, hstart, hqr]
  exact ⟨rfl, rfl, rfl⟩

/-- A target as it came from the QR code. -/
structure Scanned (N : Nostr K) (qr : QrPayload) (p : Party N) : Prop where
  inv : Pairing.Inv N p.start p.items p.session
  role : p.session.role = .target
  peer : p.session.peerPubkey = some qr.sourcePubkey
  secret : p.start.sessionSecret = qr.sessionSecret
  sas : ∃ ecdh, N.generateSharedKey p.start.keys qr.sourcePubkey = .ok ecdh ∧
    p.session.sasInput = some (deriveSas N ecdh qr.sessionSecret).2 ∧
    p.session.sasCode = some (deriveSas N ecdh qr.sessionSecret).1

theorem System.Inv.scanned {sys : System N} (hinv : sys.Inv) (hp : p ∈ sys.targets) :
    Scanned N sys.qr p := by
  obtain ⟨keys, now, rng, event, hnew⟩ := hinv.targets p hp
  have hpinv := p.trace.inv (.inr ⟨keys, sys.qr, now, rng, event, hnew⟩)
  obtain ⟨ecdh, hecdh, hstart⟩ := newTarget_eq_ok hnew
  have hrole : p.session.role = .target := by
    rw [hpinv.role, hstart]
  obtain ⟨hpeer, hinput, hcode, _⟩ := hpinv.target hrole
  refine ⟨hpinv, hrole, ?_, ?_, ecdh, ?_, ?_, ?_⟩
  · rw [hpeer, hstart]
  · rw [hstart]
  · rw [hstart]
    exact hecdh
  · rw [hinput, hstart]
  · rw [hcode, hstart]

/-- A confirmation that a target accepts was encrypted for it by the source, so the source is
locked to the target. -/
theorem System.Inv.confirm {sys : System N} (hinv : sys.Inv) (hecdh : N.SymmetricEcdh)
    (hjson : N.JsonRoundTrip) (hp : p ∈ sys.targets)
    (hauthentic : sys.Authentic p.session.keys (.handleSasConfirm event))
    (haccepts : Accepts N now p.session (.handleSasConfirm event) s') : Agreed sys.source p := by
  obtain ⟨_, hqrkey, hqrsecret⟩ := hinv.qr
  have hsource := hinv.source_inv
  have hscanned := hinv.scanned hp
  cases haccepts with
  | @handleSasConfirm _ text _ _ _ _ _ hvalid hmsg _ _ _ =>
    obtain ⟨_, hpubkey⟩ := validateEventFromPeer_eq_ok hvalid hscanned.peer
    obtain ⟨plain, hplain, hread⟩ := decryptMessage_eq_ok hmsg
    obtain ⟨message, hsealed, hwritten⟩ :=
      hauthentic event rfl (hpubkey.trans hqrkey) plain hplain
    obtain rfl := hjson _ _ _ hwritten hread
    obtain ⟨hpeer, hsome, hoffer⟩ := hinv.confirmations _ hsealed text rfl
    dsimp only at hpeer hoffer
    rw [hscanned.inv.keys] at hpeer hoffer
    -- both sides derive the SAS from the same ECDH secret
    obtain ⟨sasInput, hinput⟩ := Option.isSome_iff_exists.mp hsome
    obtain ⟨_, peer, ecdh, hpeer', hshared, hsas, hcode⟩ := hinv.sas sasInput hinput
    obtain rfl := Option.some.inj (hpeer.symm.trans hpeer')
    obtain ⟨ecdh', hshared', hinput', hcode'⟩ := hscanned.sas
    rw [hqrkey, Party.pubkey, hecdh, ← hsource.keys, hshared] at hshared'
    obtain rfl := Except.ok.inj hshared'
    rw [hqrsecret, ← hsource.sessionSecret] at hinput' hcode'
    refine ⟨hpeer, hoffer, ?_, ⟨hsome, ?_⟩, ?_, ?_⟩
    · rw [hsource.sessionId, hsource.derived, hscanned.inv.sessionId, hscanned.inv.derived,
        hscanned.secret, hqrsecret]
    · rw [hinput, hinput', hsas]
    · rw [hcode]
      rfl
    · rw [hcode, hcode']

theorem System.Inv.start (keys : K) (sessionSecret : HexId 64) (relayUrl : String) (now : Nat) :
    System.Inv (N := N)
      { qr := (newSource N keys sessionSecret relayUrl now).2
        source := .fresh N (newSource N keys sessionSecret relayUrl now).1
        targets := []
        encrypted := ∅ } where
  source := ⟨keys, sessionSecret, relayUrl, now, rfl⟩
  targets := fun _ hp => (List.not_mem_nil hp).elim
  sas := fun _ hinput => nomatch hinput
  confirmations := fun _ hx => hx.elim
  agreed := fun _ hp => (List.not_mem_nil hp).elim

theorem System.Inv.join {sys : System N} {keys : K} (hinv : sys.Inv)
    (hnew : newTarget N keys sys.qr now rng = .ok (s, event)) :
    System.Inv
      { sys with
        targets := sys.targets ++ [.fresh N s]
        encrypted := insert ⟨N.publicKey keys, sys.qr.sourcePubkey,
          .offer (deriveSessionId N sys.qr.sessionSecret).toHex 1⟩ sys.encrypted } where
  source := hinv.source
  targets := by
    intro p hp
    rcases List.mem_append.mp hp with hp | hp
    · exact hinv.targets p hp
    · rw [List.mem_singleton.mp hp]
      exact ⟨keys, now, rng, event, hnew⟩
  sas := hinv.sas
  confirmations := by
    intro x hx text htext
    rcases hx with rfl | hx
    · cases htext
    · exact hinv.confirmations x hx text htext
  agreed := by
    intro p hp hconfirmed
    rcases List.mem_append.mp hp with hp | hp
    · exact hinv.agreed p hp hconfirmed
    · rw [List.mem_singleton.mp hp] at hconfirmed
      obtain ⟨x, hx, _⟩ := hconfirmed
      exact (List.not_mem_nil hx).elim

theorem System.Inv.source_call {sys : System N} (hinv : sys.Inv) (now : Nat) (c : Call) :
    System.Inv
      { sys with
        source := sys.source.call now c
        encrypted := sys.encrypted ∪ sealedBy N now sys.source.session c } where
  source := hinv.source
  targets := hinv.targets
  sas := hinv.sas.step (sys.source.outcome now c)
  confirmations := by
    have houtcome := sys.source.outcome now c
    -- what holds of a recipient before the call still holds after it
    have hkeep (peer : PublicKey) (hpeer : sys.source.session.peerPubkey = some peer)
        (hsome : sys.source.session.sasInput.isSome = true)
        (hoffer : ∃ y ∈ sys.source.items, OfferAccepted N sys.source.start peer y) :
        (sys.source.call now c).session.peerPubkey = some peer ∧
          (sys.source.call now c).session.sasInput.isSome = true ∧
          ∃ y ∈ (sys.source.call now c).items, OfferAccepted N sys.source.start peer y := by
      obtain ⟨sasInput, hinput⟩ := Option.isSome_iff_exists.mp hsome
      obtain ⟨_, hpeer', hinput', _⟩ := houtcome.frozen (hinv.sas sasInput hinput).1
      obtain ⟨y, hy, hoffer⟩ := hoffer
      refine ⟨hpeer'.trans hpeer, ?_, y, List.mem_append_left _ hy, hoffer⟩
      rw [hinput']
      exact hsome
    intro x hx text htext
    rcases hx with hx | ⟨_, hencrypts⟩
    · obtain ⟨hpeer, hsome, hoffer⟩ := hinv.confirmations x hx text htext
      exact hkeep x.recipient hpeer hsome hoffer
    · rw [htext] at hencrypts
      generalize hrecipient : x.recipient = recipient at hencrypts ⊢
      cases hencrypts with
      | confirmSas _ hstate hrole hinput hpeer =>
        obtain ⟨_, peer, y, hpeer', hy, hoffer⟩ :=
          hinv.source_inv.reached.of_source_confirming hrole hstate
        obtain rfl := Option.some.inj (hpeer.symm.trans hpeer')
        exact hkeep _ hpeer (by rw [hinput]; rfl) ⟨y, hy, hoffer⟩
  agreed := by
    intro p hp hconfirmed
    exact (hinv.agreed p hp hconfirmed).source_call hinv.sas now c

theorem System.Inv.target_call {sys : System N} (hinv : sys.Inv) (hecdh : N.SymmetricEcdh)
    (hjson : N.JsonRoundTrip) {before after : List (Party N)} {p : Party N}
    (htargets : sys.targets = before ++ p :: after) (now : Nat) (c : Call)
    (hauthentic : sys.Authentic p.session.keys c) :
    System.Inv
      { sys with
        targets := before ++ p.call now c :: after
        encrypted := sys.encrypted ∪ sealedBy N now p.session c } := by
  have hp : p ∈ sys.targets := by
    rw [htargets]
    exact List.mem_append_right _ List.mem_cons_self
  have hrole := (hinv.scanned hp).role
  have hcases (q : Party N) (hq : q ∈ before ++ p.call now c :: after) :
      q ∈ sys.targets ∨ q = p.call now c := by
    rw [htargets]
    rcases List.mem_append.mp hq with hq | hq
    · exact .inl (List.mem_append_left _ hq)
    · rcases List.mem_cons.mp hq with rfl | hq
      · exact .inr rfl
      · exact .inl (List.mem_append_right _ (List.mem_cons_of_mem _ hq))
  refine ⟨hinv.source, ?_, hinv.sas, ?_, ?_⟩
  · intro q hq
    rcases hcases q hq with hq | rfl
    · exact hinv.targets q hq
    · exact hinv.targets p hp
  · intro x hx text htext
    rcases hx with hx | ⟨_, hencrypts⟩
    · exact hinv.confirmations x hx text htext
    · rw [htext] at hencrypts
      generalize x.recipient = recipient at hencrypts
      cases hencrypts with
      | confirmSas _ _ hsource => exact absurd (hrole.symm.trans hsource) (by decide)
  · intro q hq hconfirmed
    rcases hcases q hq with hq | rfl
    · exact hinv.agreed q hq hconfirmed
    · obtain ⟨x, hx, hok, event, hcall⟩ := hconfirmed
      rcases List.mem_append.mp hx with hx | hx
      · exact (hinv.agreed p hp ⟨x, hx, hok, event, hcall⟩).target_call hrole now c
      · obtain rfl := List.mem_singleton.mp hx
        dsimp only at hcall
        subst hcall
        have houtcome := p.outcome now (.handleSasConfirm event)
        generalize hresult : (Call.run N now (.handleSasConfirm event) p.session).1 = result
          at houtcome hok
        cases result with
        | error e => cases hok
        | ok a => exact (hinv.confirm hecdh hjson hp hauthentic houtcome.accepts).target_call hrole now _

theorem System.Reachable.inv {sys : System N} (h : sys.Reachable) (hecdh : N.SymmetricEcdh)
    (hjson : N.JsonRoundTrip) : sys.Inv := by
  induction h with
  | start keys sessionSecret relayUrl now => exact .start keys sessionSecret relayUrl now
  | step _ hstep ih =>
    cases hstep with
    | join hnew => exact ih.join hnew
    | source now c => exact ih.source_call now c
    | target now c htargets hauthentic => exact ih.target_call hecdh hjson htargets now c hauthentic

/-- Whatever the network does, a target that accepts a confirmation agrees with the source, and
targets with different keys do not both accept one. -/
theorem pairing_agreement {sys : System N} (hecdh : N.SymmetricEcdh) (hjson : N.JsonRoundTrip)
    (h : sys.Reachable) :
    (∀ p ∈ sys.targets, p.Confirmed → Agreed sys.source p) ∧
    ∀ p ∈ sys.targets, ∀ q ∈ sys.targets, p.Confirmed → q.Confirmed → p.pubkey = q.pubkey := by
  have hinv := h.inv hecdh hjson
  refine ⟨hinv.agreed, ?_⟩
  intro p hp q hq hpc hqc
  have hpeer := (hinv.agreed p hp hpc).peer
  rw [(hinv.agreed q hq hqc).peer] at hpeer
  exact (Option.some.inj hpeer).symm

/-- What the source built for a target, the target may take. -/
theorem System.Reachable.confirmation {keys tkeys : K} {sessionSecret : HexId 64}
    {relayUrl : String} {now nowJoin nowOffer nowConfirm : Nat} {rng rng' : Entropy}
    {t s₁ s₂ : PairingSession K} {e₀ event : SignedEvent} {c : Call}
    {r : Except PairingError Reply}
    (hnew : newTarget N tkeys (newSource N keys sessionSecret relayUrl now).2 nowJoin rng =
      .ok (t, e₀))
    (hoffer : c.run N nowOffer (newSource N keys sessionSecret relayUrl now).1 = (r, s₁))
    (hpeer : s₁.peerPubkey = some (N.publicKey tkeys))
    (hconfirm : (Call.confirmSas rng').run N nowConfirm s₁ = (.ok (.event event), s₂))
    (hsign : ∀ rng message, buildEvent N rng message s₁ = .ok event →
      event.pubkey = N.publicKey s₁.keys ∧
        N.decrypt tkeys event.pubkey event.content = N.toJson message)
    (nowHandle : Nat) :
    ∃ sys : System N, sys.Reachable ∧
      sys.targets = [(Party.fresh N t).call nowHandle (.handleSasConfirm event)] := by
  obtain ⟨rng₁, peer, message, hencrypts, hpeer', hbuilt⟩ := Call.run_built hconfirm rfl
  obtain rfl := Option.some.inj (hpeer.symm.trans hpeer')
  obtain ⟨hpubkey, hplain⟩ := hsign rng₁ message hbuilt
  obtain ⟨_, _, ht⟩ := newTarget_eq_ok hnew
  have htkeys : t.keys = tkeys := by rw [ht]
  have hstart := System.Reachable.start (N := N) keys sessionSecret relayUrl now
  have hjoined := (hstart.step (.join hnew)).step (.source nowOffer c)
  have hdone := hjoined.step (.source nowConfirm (.confirmSas rng'))
  have htargets : [Party.fresh N t] = [] ++ Party.fresh N t :: [] := rfl
  refine ⟨_, hdone.step (.target nowHandle (.handleSasConfirm event) htargets ?_), rfl⟩
  intro e he _ text htext
  cases he
  change N.decrypt t.keys event.pubkey event.content = .ok text at htext
  refine ⟨message, .inr ⟨?_, ?_⟩, ?_⟩
  · dsimp only [Party.call, Party.fresh]
    rw [hoffer]
    exact hpubkey
  · dsimp only [Party.call, Party.fresh]
    rw [hoffer, htkeys]
    exact hencrypts
  · rw [← hplain, ← htkeys]
    exact htext

namespace PairingExample

theorem symmetricEcdh_crate : crate.SymmetricEcdh := by
  intro k k'
  have hcomm : List.zipWith (· + ·) k.nibbles k'.nibbles =
      List.zipWith (· + ·) k'.nibbles k.nibbles := by
    apply List.zipWith_comm_of_comm
    intro a b
    exact Fin.ext (by rw [Fin.val_add, Fin.val_add, Nat.add_comm])
  exact congrArg Except.ok (HexId.ext hcomm)

theorem jsonRoundTrip_crate : crate.JsonRoundTrip := by
  intro message text message' hwrite hread
  cases message with
  | offer sessionId version =>
    simp only [crate] at hwrite
    split at hwrite
    · rename_i hversion
      cases hwrite
      simp [crate] at hread
      rw [← hread, hversion]
    · cases hwrite
  | sasConfirm hash =>
    cases hwrite
    simp [crate] at hread
    exact hread.symm
  | payload payloadType payload =>
    cases payloadType with
    | nsec =>
      cases hwrite
      simp [crate] at hread
      exact hread.symm
    | _ => cases hwrite
  | complete success =>
    cases success with
    | true =>
      cases hwrite
      simp [crate] at hread
      exact hread.symm
    | false => cases hwrite
  | abort reason => cases hwrite

/-- The target that scans the code of the source. -/
def target : Except PairingError (PairingSession (HexId 64) × SignedEvent) :=
  newTarget crate targetKey source.2 0 rng

def confirmed : Except PairingError Reply × PairingSession (HexId 64) :=
  (Call.confirmSas rng).run crate 1 offered.2

theorem buildEvent_crate {s : PairingSession (HexId 64)}
    (h : buildEvent crate rng' message s = .ok event) :
    event.pubkey = crate.publicKey s.keys ∧
      crate.decrypt targetKey event.pubkey event.content = crate.toJson message := by
  unfold buildEvent at h
  split at h
  · cases h
  · split at h
    · cases h
    · rename_i text htext
      cases h
      refine ⟨rfl, ?_⟩
      rw [htext]
      simp [crate, padding]

theorem agreement_target {t : PairingSession (HexId 64)} {e₀ event : SignedEvent}
    (htarget : target = .ok (t, e₀)) (hconfirmed : confirmed.1 = .ok (.event event)) :
    ∃ sys : System crate, sys.Reachable ∧
      sys.targets = [(Party.fresh crate t).call 2 (.handleSasConfirm event)] := by
  have hoffer : (Call.handleOffer offer).run crate 0 source.1 = (offered.1, offered.2) :=
    Prod.mk.eta.symm
  have hpeer : offered.2.peerPubkey = some (crate.publicKey targetKey) := by decide +kernel
  have hconfirm : (Call.confirmSas rng).run crate 1 offered.2 =
      (.ok (.event event), confirmed.2) :=
    hconfirmed ▸ Prod.mk.eta.symm
  exact System.Reachable.confirmation htarget hoffer hpeer hconfirm
    (fun _ _ h => buildEvent_crate h) 2

/-- The target accepts the confirmation. -/
def targetConfirms : Bool :=
  match target, confirmed.1 with
  | .ok (t, _), .ok (.event event) =>
    Item.isOk ⟨2, .handleSasConfirm event, ((Call.handleSasConfirm event).run crate 2 t).1⟩
  | _, _ => false

end PairingExample

open PairingExample in
theorem pairing_agreement_target :
    ∃ sys : System crate, ∃ p ∈ sys.targets, p.Confirmed ∧ Agreed sys.source p := by
  have hconfirms : targetConfirms = true := by decide +kernel
  unfold targetConfirms at hconfirms
  split at hconfirms
  · rename_i t e₀ event htarget hconfirmed
    obtain ⟨sys, hreachable, htargets⟩ := agreement_target htarget hconfirmed
    have hp : (Party.fresh crate t).call 2 (.handleSasConfirm event) ∈ sys.targets := by
      rw [htargets]
      exact List.mem_singleton_self _
    have hc : ((Party.fresh crate t).call 2 (.handleSasConfirm event)).Confirmed :=
      ⟨_, List.mem_singleton_self _, hconfirms, event, rfl⟩
    obtain ⟨hagreed, _⟩ := pairing_agreement symmetricEcdh_crate jsonRoundTrip_crate hreachable
    exact ⟨sys, _, hp, hc, hagreed _ hp hc⟩
  · cases hconfirms

end Buzz.Pairing
