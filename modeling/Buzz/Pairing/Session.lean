import Buzz.Core.Nostr
import Buzz.Lib.Fallible
import Buzz.Lib.PrefixCode

namespace Buzz.Pairing
set_option autoImplicit true

/-- `u16` of the kind registry. -/
def PAIRING_KIND : Kind := 24134

/-- 120 seconds, in nanoseconds. -/
def DEFAULT_TIMEOUT : Nat := 120 * 1000000000

inductive PayloadType where
  | nsec
  | bunker
  | connect
  | custom
deriving DecidableEq

inductive AbortReason where
  | sasMismatch
  | userDenied
  | timeout
  | protocolError
  | unknown
deriving DecidableEq

inductive PairingMessage where
  | offer (sessionId : String) (version : UInt32)
  | sasConfirm (transcriptHash : String)
  | payload (payloadType : PayloadType) (payload : String)
  | complete (success : Bool)
  | abort (reason : AbortReason)
deriving DecidableEq

inductive PairingError where
  | invalidSessionId
  | sasMismatch
  | transcriptMismatch
  | unexpectedMessage (expected got : String)
  | sessionExpired
  | nip44 (error : String)
  | json (error : String)
  | invalidPubkey (text : String)
  | signingError (text : String)
deriving DecidableEq

structure SignedEvent extends Event where
  content : String
  sig : HexId 128
deriving DecidableEq

/-- An event before it is signed. -/
structure EventBuilder where
  kind : Kind
  content : String
  tags : List Tag
  createdAt : UInt64

/-- What a session takes from the `nostr` crate and from serde: keys of type `K`, signatures,
ECDH, NIP-44, HKDF and the JSON text of messages. The last argument of `encrypt` is its nonce. -/
structure Nostr (K : Type) where
  publicKey : K → PublicKey
  verify : SignedEvent → Except String Unit
  sign : K → EventBuilder → Except String SignedEvent
  generateSharedKey : K → PublicKey → Except String (HexId 64)
  encrypt : K → PublicKey → String → Nat → Except String String
  decrypt : K → PublicKey → String → Except String String
  hkdfExtract : List UInt8 → List UInt8 → HexId 64
  hkdfExpand : List UInt8 → List UInt8 → HexId 64
  toJson : PairingMessage → Except String String
  fromJson : String → Except String PairingMessage

variable {K : Type} (N : Nostr K)

def hkdf32 (salt ikm : List UInt8) (info : String) : HexId 64 :=
  N.hkdfExpand (N.hkdfExtract salt ikm).toBytes (utf8Bytes info.toList)

def deriveSessionId (sessionSecret : HexId 64) : HexId 64 :=
  hkdf32 N [] sessionSecret.toBytes "nostr-pair-session-id"

def beValue (bytes : List UInt8) : Nat :=
  bytes.foldl (fun n b => 256 * n + b.toNat) 0

def deriveSas (ecdhShared sessionSecret : HexId 64) : Nat × HexId 64 :=
  let sasInput := hkdf32 N sessionSecret.toBytes ecdhShared.toBytes "nostr-pair-sas-v1"
  (beValue (sasInput.toBytes.take 4) % 1000000, sasInput)

def deriveTranscriptHash (sessionId sourcePubkey targetPubkey sasInput sessionSecret : HexId 64) :
    HexId 64 :=
  hkdf32 N sessionSecret.toBytes
    (sessionId.toBytes ++ sourcePubkey.toBytes ++ targetPubkey.toBytes ++ sasInput.toBytes)
    "nostr-pair-transcript-v1"

/-- Six digits with leading zeros. -/
def formatSas (code : Nat) : String :=
  String.ofList ((Nat.toDigits 10 code).leftpad 6 '0')

inductive Role where
  | source
  | target
deriving DecidableEq

def Role.debug : Role → String
  | source => "Source"
  | target => "Target"

inductive SessionState where
  | waiting
  | confirming
  | awaitingConfirmation
  | transferring
  | payloadExchanged
  | completed
  | aborted
deriving DecidableEq

def SessionState.debug : SessionState → String
  | waiting => "Waiting"
  | confirming => "Confirming"
  | awaitingConfirmation => "AwaitingConfirmation"
  | transferring => "Transferring"
  | payloadExchanged => "PayloadExchanged"
  | completed => "Completed"
  | aborted => "Aborted"

def SessionState.isTerminal (s : SessionState) : Bool :=
  s = completed ∨ s = aborted

structure PairingSession (K : Type) where
  role : Role
  state : SessionState
  keys : K
  sessionSecret : HexId 64
  relayUrls : List String
  peerPubkey : Option PublicKey
  sessionId : HexId 64
  sasCode : Option Nat
  sasInput : Option (HexId 64)
  processedIds : Finset EventId
  createdAt : Nat
  timeout : Nat

structure QrPayload where
  version : UInt32
  sourcePubkey : PublicKey
  sessionSecret : HexId 64
  relays : List String

/-- The randomness and the wall clock of one call. -/
structure Entropy where
  nonce : Nat
  now : Nat
  jitter : Nat

abbrev Handler (K α : Type) := Fallible (PairingSession K) PairingError α

def unexpected (expected : String) (got : PairingMessage) : PairingError :=
  .unexpectedMessage expected <|
    match got with
    | .offer _ _ => "offer"
    | .sasConfirm _ => "sas-confirm"
    | .payload _ _ => "payload"
    | .complete _ => "complete"
    | .abort _ => "abort"

namespace PairingSession

/-- `created_at.elapsed() > timeout` on the monotonic clock. -/
def isExpired (now : Nat) (s : PairingSession K) : Bool :=
  s.timeout < now - s.createdAt

def checkExpired (now : Nat) (s : PairingSession K) : Except PairingError Unit :=
  if s.isExpired now then .error .sessionExpired else .ok ()

def expectState (expected : SessionState) (s : PairingSession K) : Except PairingError Unit :=
  if s.state ≠ expected then
    .error (.unexpectedMessage ("state " ++ expected.debug) ("state " ++ s.state.debug))
  else .ok ()

def expectRole (expected : Role) (s : PairingSession K) : Except PairingError Unit :=
  if s.role ≠ expected then
    .error (.unexpectedMessage ("role " ++ expected.debug) ("role " ++ s.role.debug))
  else .ok ()

def hasPTag (pubkey : PublicKey) (event : SignedEvent) : Bool :=
  event.tags.any fun t => t.asSlice.head? == some "p" && t.asSlice[1]? == some pubkey.toHex

def validateEventBasics (event : SignedEvent) (s : PairingSession K) : Except PairingError Unit :=
  match N.verify event with
  | .error e => .error (.invalidPubkey ("event verification failed: " ++ e))
  | .ok () =>
    if event.id ∈ s.processedIds then .error (.unexpectedMessage "new event" "duplicate event id")
    else if event.kind ≠ PAIRING_KIND then
      .error (.unexpectedMessage ("kind " ++ toString PAIRING_KIND) ("kind " ++ toString event.kind))
    else if !hasPTag (N.publicKey s.keys) event then
      .error (.invalidPubkey "event p-tag does not match our ephemeral pubkey")
    else .ok ()

def validateEventFromPeer (event : SignedEvent) (s : PairingSession K) : Except PairingError Unit :=
  match validateEventBasics N event s with
  | .error e => .error e
  | .ok () =>
    match s.peerPubkey with
    | some expected =>
      if event.pubkey ≠ expected then
        .error (.invalidPubkey
          ("event from " ++ event.pubkey.toHex ++ " but expected " ++ expected.toHex))
      else .ok ()
    | none => .ok ()

def decryptMessage (event : SignedEvent) (s : PairingSession K) :
    Except PairingError PairingMessage :=
  let contentLen := event.content.utf8ByteSize
  if ¬(132 ≤ contentLen ∧ contentLen ≤ 87472) then
    .error (.unexpectedMessage "NIP-44 content (132–87472 chars)" (toString contentLen ++ " chars"))
  else
    match N.decrypt s.keys event.pubkey event.content with
    | .error e => .error (.nip44 e)
    | .ok decrypted =>
      if 65535 < decrypted.utf8ByteSize then
        -- the text is zeroed before its length is reported
        .error (.unexpectedMessage "plaintext ≤ 65535 bytes" "0 bytes")
      else
        match N.fromJson decrypted with
        | .error e => .error (.json e)
        | .ok message => .ok message

/-- Encrypt a message for the peer and sign it. -/
def buildEvent (rng : Entropy) (message : PairingMessage) (s : PairingSession K) :
    Except PairingError SignedEvent :=
  match s.peerPubkey with
  | none => .error (.invalidPubkey "no peer pubkey set")
  | some peer =>
    match N.toJson message with
    | .error e => .error (.json e)
    | .ok plaintext =>
      match N.encrypt s.keys peer plaintext rng.nonce with
      | .error e => .error (.nip44 e)
      | .ok encrypted =>
        let ts := UInt64.ofNat (rng.now - rng.jitter % 31)
        (N.sign s.keys ⟨PAIRING_KIND, encrypted, [⟨"p", [peer.toHex]⟩], ts⟩).mapError .signingError

def recordEvent (event : SignedEvent) : Handler K Unit :=
  .modify fun s => { s with processedIds := insert event.id s.processedIds }

def setState (state : SessionState) : Handler K Unit :=
  .modify fun s => { s with state := state }

def newSource (keys : K) (sessionSecret : HexId 64) (relayUrl : String) (now : Nat) :
    PairingSession K × QrPayload :=
  ({ role := .source
     state := .waiting
     keys := keys
     sessionSecret := sessionSecret
     relayUrls := [relayUrl]
     peerPubkey := none
     sessionId := deriveSessionId N sessionSecret
     sasCode := none
     sasInput := none
     processedIds := ∅
     createdAt := now
     timeout := DEFAULT_TIMEOUT },
   { version := 1
     sourcePubkey := N.publicKey keys
     sessionSecret := sessionSecret
     relays := [relayUrl] })

def newTarget (keys : K) (qr : QrPayload) (now : Nat) (rng : Entropy) :
    Except PairingError (PairingSession K × SignedEvent) :=
  let sessionId := deriveSessionId N qr.sessionSecret
  match N.generateSharedKey keys qr.sourcePubkey with
  | .error e => .error (.signingError e)
  | .ok ecdh =>
    let sas := deriveSas N ecdh qr.sessionSecret
    let session : PairingSession K :=
      { role := .target
        state := .waiting
        keys := keys
        sessionSecret := qr.sessionSecret
        relayUrls := qr.relays
        peerPubkey := some qr.sourcePubkey
        sessionId := sessionId
        sasCode := some sas.1
        sasInput := some sas.2
        processedIds := ∅
        createdAt := now
        timeout := DEFAULT_TIMEOUT }
    match session.buildEvent N rng (.offer sessionId.toHex 1) with
    | .error e => .error e
    | .ok event => .ok ({ session with state := .confirming }, event)

def handleOffer (now : Nat) (event : SignedEvent) : Handler K String := do
  .check (checkExpired now)
  .check (expectState .waiting)
  .check (expectRole .source)
  .check (validateEventBasics N event)
  let msg ← .check (decryptMessage N event)
  match msg with
  | .offer sessionIdHex version =>
    if version ≠ 1 then
      .fail (.unexpectedMessage "version 1" ("version " ++ toString version))
    else do
      .check fun s =>
        if HexId.ofChars 64 sessionIdHex.toList = some s.sessionId then .ok ()
        else .error .invalidSessionId
      .modify fun s => { s with peerPubkey := some event.pubkey }
      let ecdh ← .check fun s =>
        (N.generateSharedKey s.keys event.pubkey).mapError .signingError
      let sas ← .check fun s => .ok (deriveSas N ecdh s.sessionSecret)
      .modify fun s => { s with sasCode := some sas.1, sasInput := some sas.2 }
      setState .confirming
      recordEvent event
      pure (formatSas sas.1)
  | other => .fail (unexpected "offer" other)

def requireSasInput (s : PairingSession K) : Except PairingError (HexId 64) :=
  match s.sasInput with
  | none => .error .sasMismatch
  | some sasInput => .ok sasInput

def requirePeer (s : PairingSession K) : Except PairingError PublicKey :=
  match s.peerPubkey with
  | none => .error (.invalidPubkey "no peer")
  | some peer => .ok peer

def confirmSas (now : Nat) (rng : Entropy) : Handler K SignedEvent := do
  .check (checkExpired now)
  .check (expectState .confirming)
  .check (expectRole .source)
  let sasInput ← .check requireSasInput
  let peer ← .check requirePeer
  let transcriptHash ← .check fun s => .ok
    (deriveTranscriptHash N s.sessionId (N.publicKey s.keys) peer sasInput s.sessionSecret)
  let event ← .check (buildEvent N rng (.sasConfirm transcriptHash.toHex))
  setState .transferring
  pure event

/-- The end that `handle_payload` and `handle_return_payload` share. -/
def acceptPayload (event : SignedEvent) : Handler K (PayloadType × String) := do
  let msg ← .check (decryptMessage N event)
  match msg with
  | .payload payloadType payload => do
    setState .payloadExchanged
    recordEvent event
    pure (payloadType, payload)
  | other => .fail (unexpected "payload" other)

def handleReturnPayload (now : Nat) (event : SignedEvent) :
    Handler K (PayloadType × String) := do
  .check (checkExpired now)
  .check (expectState .transferring)
  .check (expectRole .source)
  .check (validateEventFromPeer N event)
  acceptPayload N event

def sendSourceComplete (now : Nat) (rng : Entropy) (success : Bool) : Handler K SignedEvent := do
  .check (checkExpired now)
  .check (expectState .payloadExchanged)
  .check (expectRole .source)
  let event ← .check (buildEvent N rng (.complete success))
  setState (if success then .completed else .aborted)
  pure event

def sendPayload (now : Nat) (rng : Entropy) (payloadType : PayloadType) (payload : String) :
    Handler K SignedEvent := do
  .check (checkExpired now)
  .check (expectState .transferring)
  .check (expectRole .source)
  let event ← .check (buildEvent N rng (.payload payloadType payload))
  setState .payloadExchanged
  pure event

def handleComplete (now : Nat) (event : SignedEvent) : Handler K Unit := do
  .check (checkExpired now)
  .check (expectState .payloadExchanged)
  .check (expectRole .source)
  .check (validateEventFromPeer N event)
  let msg ← .check (decryptMessage N event)
  match msg with
  | .complete true => do
    setState .completed
    recordEvent event
  | .complete false => do
    setState .aborted
    .fail (.unexpectedMessage "complete(success=true)" "complete(success=false)")
  | other => .fail (unexpected "complete" other)

def handleSasConfirm (now : Nat) (event : SignedEvent) : Handler K String := do
  .check (checkExpired now)
  .check (expectState .confirming)
  .check (expectRole .target)
  .check (validateEventFromPeer N event)
  let msg ← .check (decryptMessage N event)
  match msg with
  | .sasConfirm receivedHash => do
    let sasInput ← .check requireSasInput
    let peer ← .check requirePeer
    -- the peer is the source here
    let expectedHash ← .check fun s => .ok
      (deriveTranscriptHash N s.sessionId peer (N.publicKey s.keys) sasInput s.sessionSecret)
    if HexId.ofChars 64 receivedHash.toList ≠ some expectedHash then do
      setState .aborted
      .fail .transcriptMismatch
    else do
      setState .awaitingConfirmation
      recordEvent event
      let code ← .check fun s => match s.sasCode with
        | none => .error .sasMismatch
        | some code => .ok code
      pure (formatSas code)
  | other => .fail (unexpected "sas-confirm" other)

def confirmTargetSas (now : Nat) : Handler K Unit := do
  .check (checkExpired now)
  .check (expectState .awaitingConfirmation)
  .check (expectRole .target)
  setState .transferring

def handlePayload (now : Nat) (event : SignedEvent) : Handler K (PayloadType × String) := do
  .check (checkExpired now)
  .check (expectState .transferring)
  .check (expectRole .target)
  .check (validateEventFromPeer N event)
  acceptPayload N event

def sendComplete (now : Nat) (rng : Entropy) : Handler K SignedEvent := do
  .check (checkExpired now)
  .check (expectState .payloadExchanged)
  .check (expectRole .target)
  let event ← .check (buildEvent N rng (.complete true))
  setState .completed
  pure event

def expectLive (s : PairingSession K) : Except PairingError Unit :=
  if s.state.isTerminal then
    .error (.unexpectedMessage "non-terminal state" ("state " ++ s.state.debug))
  else .ok ()

def abort (rng : Entropy) (reason : AbortReason) : Handler K (Option SignedEvent) := do
  .check expectLive
  let known ← .check fun s => .ok s.peerPubkey.isSome
  if known then do
    let event ← .check (buildEvent N rng (.abort reason))
    setState .aborted
    pure (some event)
  else do
    setState .aborted
    pure none

def handleAbort (event : SignedEvent) : Handler K AbortReason := do
  .check expectLive
  .check fun s =>
    if s.peerPubkey.isNone then
      .error (.invalidPubkey "cannot accept abort before peer is known")
    else .ok ()
  .check (validateEventFromPeer N event)
  let msg ← .check (decryptMessage N event)
  match msg with
  | .abort reason => do
    setState .aborted
    recordEvent event
    pure reason
  | other => .fail (unexpected "abort" other)

end PairingSession

/-- A call of one of the methods that may change a session. -/
inductive Call where
  | handleOffer (event : SignedEvent)
  | confirmSas (rng : Entropy)
  | handleReturnPayload (event : SignedEvent)
  | sendSourceComplete (rng : Entropy) (success : Bool)
  | sendPayload (rng : Entropy) (payloadType : PayloadType) (payload : String)
  | handleComplete (event : SignedEvent)
  | handleSasConfirm (event : SignedEvent)
  | confirmTargetSas
  | handlePayload (event : SignedEvent)
  | sendComplete (rng : Entropy)
  | abort (rng : Entropy) (reason : AbortReason)
  | handleAbort (event : SignedEvent)

inductive Reply where
  | sas (text : String)
  | event (event : SignedEvent)
  | payload (payloadType : PayloadType) (payload : String)
  | unit
  | abort (event : Option SignedEvent)
  | reason (reason : AbortReason)

def Call.run (now : Nat) : Call → Handler K Reply
  | handleOffer event => .sas <$> PairingSession.handleOffer N now event
  | confirmSas rng => .event <$> PairingSession.confirmSas N now rng
  | handleReturnPayload event =>
    (fun p => .payload p.1 p.2) <$> PairingSession.handleReturnPayload N now event
  | sendSourceComplete rng success =>
    .event <$> PairingSession.sendSourceComplete N now rng success
  | sendPayload rng payloadType payload =>
    .event <$> PairingSession.sendPayload N now rng payloadType payload
  | handleComplete event => (fun _ => .unit) <$> PairingSession.handleComplete N now event
  | handleSasConfirm event => .sas <$> PairingSession.handleSasConfirm N now event
  | confirmTargetSas => (fun _ => .unit) <$> PairingSession.confirmTargetSas now
  | handlePayload event => (fun p => .payload p.1 p.2) <$> PairingSession.handlePayload N now event
  | sendComplete rng => .event <$> PairingSession.sendComplete N now rng
  | abort rng reason => .abort <$> PairingSession.abort N rng reason
  | handleAbort event => .reason <$> PairingSession.handleAbort N event

/-- The event that a call hands to a handler. -/
def Call.event : Call → Option SignedEvent
  | handleOffer event => some event
  | handleReturnPayload event => some event
  | handleComplete event => some event
  | handleSasConfirm event => some event
  | handlePayload event => some event
  | handleAbort event => some event
  | _ => none

end Buzz.Pairing
