import Buzz.Pairing.Session

namespace Buzz.Pairing
set_option autoImplicit true
open PairingSession Fallible

variable {K : Type}

/-- What a call asks of a session in order to succeed, and what it makes of it. -/
inductive Accepts (N : Nostr K) (now : Nat) (s : PairingSession K) :
    Call → PairingSession K → Prop where
  | handleOffer {event : SignedEvent} {text : String} {ecdh : HexId 64}
      (hlive : s.isExpired now = false) (hstate : s.state = .waiting) (hrole : s.role = .source)
      (hvalid : validateEventBasics N event s = .ok ())
      (hmsg : decryptMessage N event s = .ok (.offer text 1))
      (hid : HexId.ofChars 64 text.toList = some s.sessionId)
      (hecdh : N.generateSharedKey s.keys event.pubkey = .ok ecdh) :
      Accepts N now s (.handleOffer event)
        { s with
          peerPubkey := some event.pubkey
          sasCode := some (deriveSas N ecdh s.sessionSecret).1
          sasInput := some (deriveSas N ecdh s.sessionSecret).2
          state := .confirming
          processedIds := insert event.id s.processedIds }
  | confirmSas {rng : Entropy} {event : SignedEvent} {sasInput : HexId 64} {peer : PublicKey}
      (hlive : s.isExpired now = false) (hstate : s.state = .confirming) (hrole : s.role = .source)
      (hinput : s.sasInput = some sasInput) (hpeer : s.peerPubkey = some peer)
      (hbuilt : buildEvent N rng (.sasConfirm (deriveTranscriptHash N s.sessionId
        (N.publicKey s.keys) peer sasInput s.sessionSecret).toHex) s = .ok event) :
      Accepts N now s (.confirmSas rng) { s with state := .transferring }
  | handleReturnPayload {event : SignedEvent} {payloadType : PayloadType} {payload : String}
      (hlive : s.isExpired now = false) (hstate : s.state = .transferring) (hrole : s.role = .source)
      (hvalid : validateEventFromPeer N event s = .ok ())
      (hmsg : decryptMessage N event s = .ok (.payload payloadType payload)) :
      Accepts N now s (.handleReturnPayload event)
        { s with
          state := .payloadExchanged
          processedIds := insert event.id s.processedIds }
  | sendSourceComplete {rng : Entropy} {success : Bool} {event : SignedEvent}
      (hlive : s.isExpired now = false) (hstate : s.state = .payloadExchanged)
      (hrole : s.role = .source) (hbuilt : buildEvent N rng (.complete success) s = .ok event) :
      Accepts N now s (.sendSourceComplete rng success)
        { s with state := if success then .completed else .aborted }
  | sendPayload {rng : Entropy} {payloadType : PayloadType} {payload : String} {event : SignedEvent}
      (hlive : s.isExpired now = false) (hstate : s.state = .transferring) (hrole : s.role = .source)
      (hbuilt : buildEvent N rng (.payload payloadType payload) s = .ok event) :
      Accepts N now s (.sendPayload rng payloadType payload) { s with state := .payloadExchanged }
  | handleComplete {event : SignedEvent}
      (hlive : s.isExpired now = false) (hstate : s.state = .payloadExchanged)
      (hrole : s.role = .source) (hvalid : validateEventFromPeer N event s = .ok ())
      (hmsg : decryptMessage N event s = .ok (.complete true)) :
      Accepts N now s (.handleComplete event)
        { s with
          state := .completed
          processedIds := insert event.id s.processedIds }
  | handleSasConfirm {event : SignedEvent} {text : String} {sasInput : HexId 64} {peer : PublicKey}
      (hlive : s.isExpired now = false) (hstate : s.state = .confirming) (hrole : s.role = .target)
      (hvalid : validateEventFromPeer N event s = .ok ())
      (hmsg : decryptMessage N event s = .ok (.sasConfirm text))
      (hinput : s.sasInput = some sasInput) (hpeer : s.peerPubkey = some peer)
      (hhash : HexId.ofChars 64 text.toList = some (deriveTranscriptHash N s.sessionId peer
        (N.publicKey s.keys) sasInput s.sessionSecret)) :
      Accepts N now s (.handleSasConfirm event)
        { s with
          state := .awaitingConfirmation
          processedIds := insert event.id s.processedIds }
  | confirmTargetSas (hlive : s.isExpired now = false) (hstate : s.state = .awaitingConfirmation)
      (hrole : s.role = .target) :
      Accepts N now s .confirmTargetSas { s with state := .transferring }
  | handlePayload {event : SignedEvent} {payloadType : PayloadType} {payload : String}
      (hlive : s.isExpired now = false) (hstate : s.state = .transferring) (hrole : s.role = .target)
      (hvalid : validateEventFromPeer N event s = .ok ())
      (hmsg : decryptMessage N event s = .ok (.payload payloadType payload)) :
      Accepts N now s (.handlePayload event)
        { s with
          state := .payloadExchanged
          processedIds := insert event.id s.processedIds }
  | sendComplete {rng : Entropy} {event : SignedEvent}
      (hlive : s.isExpired now = false) (hstate : s.state = .payloadExchanged)
      (hrole : s.role = .target) (hbuilt : buildEvent N rng (.complete true) s = .ok event) :
      Accepts N now s (.sendComplete rng) { s with state := .completed }
  | abort {rng : Entropy} {reason : AbortReason} (hlive : s.state.isTerminal = false) :
      Accepts N now s (.abort rng reason) { s with state := .aborted }
  | handleAbort {event : SignedEvent} {reason : AbortReason} (hlive : s.state.isTerminal = false)
      (hpeer : s.peerPubkey.isSome) (hvalid : validateEventFromPeer N event s = .ok ())
      (hmsg : decryptMessage N event s = .ok (.abort reason)) :
      Accepts N now s (.handleAbort event)
        { s with
          state := .aborted
          processedIds := insert event.id s.processedIds }

/-- The calls that fail and end the session: a wrong transcript hash and a failed import. -/
inductive Aborts (N : Nostr K) (now : Nat) (s : PairingSession K) : Call → Prop where
  | handleSasConfirm {event : SignedEvent} {text : String} {sasInput : HexId 64} {peer : PublicKey}
      (hlive : s.isExpired now = false) (hstate : s.state = .confirming) (hrole : s.role = .target)
      (hvalid : validateEventFromPeer N event s = .ok ())
      (hmsg : decryptMessage N event s = .ok (.sasConfirm text))
      (hinput : s.sasInput = some sasInput) (hpeer : s.peerPubkey = some peer)
      (hhash : HexId.ofChars 64 text.toList ≠ some (deriveTranscriptHash N s.sessionId peer
        (N.publicKey s.keys) sasInput s.sessionSecret)) :
      Aborts N now s (.handleSasConfirm event)
  | handleComplete {event : SignedEvent}
      (hlive : s.isExpired now = false) (hstate : s.state = .payloadExchanged)
      (hrole : s.role = .source) (hvalid : validateEventFromPeer N event s = .ok ())
      (hmsg : decryptMessage N event s = .ok (.complete false)) :
      Aborts N now s (.handleComplete event)

/-- Failures in the middle of an update: ECDH fails for a peer whose message was decrypted, or a
session that knows its SAS input has no SAS code. -/
inductive Spoils (N : Nostr K) (now : Nat) (s : PairingSession K) :
    Call → PairingSession K → Prop where
  | handleOffer {event : SignedEvent} {text : String} {err : String}
      (hlive : s.isExpired now = false) (hstate : s.state = .waiting) (hrole : s.role = .source)
      (hmsg : decryptMessage N event s = .ok (.offer text 1))
      (hecdh : N.generateSharedKey s.keys event.pubkey = .error err) :
      Spoils N now s (.handleOffer event) { s with peerPubkey := some event.pubkey }
  | handleSasConfirm {event : SignedEvent}
      (hlive : s.isExpired now = false) (hstate : s.state = .confirming) (hrole : s.role = .target)
      (hcode : s.sasCode = none) :
      Spoils N now s (.handleSasConfirm event)
        { s with
          state := .awaitingConfirmation
          processedIds := insert event.id s.processedIds }

/-- Everything that a call can do to a session. -/
inductive Outcome (N : Nostr K) (now : Nat) (s : PairingSession K) (c : Call) :
    Except PairingError α → PairingSession K → Prop where
  | refused (e : PairingError) : Outcome N now s c (.error e) s
  | aborted (e : PairingError) (h : Aborts N now s c) :
      Outcome N now s c (.error e) { s with state := .aborted }
  | spoiled {s' : PairingSession K} (e : PairingError) (h : Spoils N now s c s') :
      Outcome N now s c (.error e) s'
  | accepted {s' : PairingSession K} (a : α) (h : Accepts N now s c s') :
      Outcome N now s c (.ok a) s'

variable {N : Nostr K} {now : Nat} {s s' : PairingSession K}

theorem Outcome.map {x : Handler K α} {f : α → β}
    (hx : ∀ r s', x s = (r, s') → Outcome N now s c r s') (h : (f <$> x) s = (r, s')) :
    Outcome N now s c r s' := by
  rcases map_cases h with ⟨e, hrun, rfl⟩ | ⟨a, hrun, rfl⟩
  · cases hx _ _ hrun with
    | refused => exact .refused e
    | aborted _ ha => exact .aborted e ha
    | spoiled _ hs => exact .spoiled e hs
  · cases hx _ _ hrun with
    | accepted _ ha => exact .accepted _ ha

/-- A check leaves the session as it is when it fails. -/
theorem Outcome.check {f : PairingSession K → Except PairingError α} {g : α → Handler K β}
    (h : (Fallible.check f >>= g) s = (r, s'))
    (hok : ∀ a, f s = .ok a → g a s = (r, s') → Outcome N now s c r s') :
    Outcome N now s c r s' := by
  rcases check_bind_cases h with ⟨e, rfl, rfl⟩ | ⟨a, hf, hg⟩
  · exact .refused e
  · exact hok a hf hg

theorem checkExpired_eq_ok (h : checkExpired now s = .ok a) : s.isExpired now = false := by
  unfold checkExpired at h
  split at h
  · cases h
  · rename_i he
    exact Bool.eq_false_of_not_eq_true he

theorem expectState_eq_ok {st : SessionState} (h : expectState st s = .ok a) : s.state = st := by
  unfold expectState at h
  split at h
  · cases h
  · rename_i he
    exact not_not.mp he

theorem expectRole_eq_ok {ro : Role} (h : expectRole ro s = .ok a) : s.role = ro := by
  unfold expectRole at h
  split at h
  · cases h
  · rename_i he
    exact not_not.mp he

/-- The three checks in front of every method but `abort` and `handle_abort`. -/
theorem guarded_cases {g : Handler K β} {st : SessionState} {ro : Role}
    (h : (Fallible.check (checkExpired now) >>= fun _ => Fallible.check (expectState st) >>=
      fun _ => Fallible.check (expectRole ro) >>= fun _ => g) s = (r, s')) :
    (∃ e, r = .error e ∧ s' = s) ∨
      (s.isExpired now = false ∧ s.state = st ∧ s.role = ro ∧ g s = (r, s')) := by
  rcases check_bind_cases h with he | ⟨_, hlive, h⟩
  · exact .inl he
  rcases check_bind_cases h with he | ⟨_, hstate, h⟩
  · exact .inl he
  rcases check_bind_cases h with he | ⟨_, hrole, h⟩
  · exact .inl he
  exact .inr ⟨checkExpired_eq_ok hlive, expectState_eq_ok hstate, expectRole_eq_ok hrole, h⟩

theorem Outcome.guarded {g : Handler K β} {st : SessionState} {ro : Role}
    (h : (Fallible.check (checkExpired now) >>= fun _ => Fallible.check (expectState st) >>=
      fun _ => Fallible.check (expectRole ro) >>= fun _ => g) s = (r, s'))
    (hok : s.isExpired now = false → s.state = st → s.role = ro → g s = (r, s') →
      Outcome N now s c r s') : Outcome N now s c r s' := by
  rcases guarded_cases h with ⟨e, rfl, rfl⟩ | ⟨hlive, hstate, hrole, h⟩
  · exact .refused e
  · exact hok hlive hstate hrole h

/-- The methods that build an event and move on. -/
theorem guarded_build_cases {st st' : SessionState} {ro : Role}
    (h : (Fallible.check (checkExpired now) >>= fun _ => Fallible.check (expectState st) >>=
      fun _ => Fallible.check (expectRole ro) >>= fun _ =>
      Fallible.check (buildEvent N rng message) >>= fun e => setState st' >>= fun _ => pure e) s =
        (r, s')) :
    (∃ e, r = .error e ∧ s' = s) ∨ ∃ event, r = .ok event ∧ s' = { s with state := st' } ∧
      s.isExpired now = false ∧ s.state = st ∧ s.role = ro ∧
        buildEvent N rng message s = .ok event := by
  rcases guarded_cases h with he | ⟨hlive, hstate, hrole, h⟩
  · exact .inl he
  rcases check_bind_cases h with he | ⟨event, hbuilt, h⟩
  · exact .inl he
  obtain ⟨rfl, rfl⟩ := Prod.mk.inj h
  exact .inr ⟨event, rfl, rfl, hlive, hstate, hrole, hbuilt⟩

theorem requireSasInput_eq_ok (h : requireSasInput s = .ok a) : s.sasInput = some a := by
  unfold requireSasInput at h
  split at h
  · cases h
  · rename_i hinput
    cases h
    exact hinput

theorem requirePeer_eq_ok (h : requirePeer s = .ok a) : s.peerPubkey = some a := by
  unfold requirePeer at h
  split at h
  · cases h
  · rename_i hpeer
    cases h
    exact hpeer

theorem handleOffer_outcome (h : handleOffer N now event s = (r, s')) :
    Outcome N now s (.handleOffer event) r s' := by
  apply Outcome.guarded h
  intro hlive hstate hrole h
  apply Outcome.check h
  intro _ hvalid h
  apply Outcome.check h
  intro msg hmsg h
  cases msg with
  | offer text version =>
    dsimp only at h
    split at h
    · obtain ⟨rfl, rfl⟩ := fail_cases h
      exact .refused _
    · rename_i hversion
      obtain rfl := not_not.mp hversion
      apply Outcome.check h
      intro _ hid h
      have hid : HexId.ofChars 64 text.toList = some s.sessionId := by
        split at hid
        · assumption
        · cases hid
      rw [modify_bind] at h
      cases hecdh : N.generateSharedKey s.keys event.pubkey with
      | error e =>
        rw [check_bind_error (by rw [hecdh]; rfl)] at h
        obtain ⟨rfl, rfl⟩ := Prod.mk.inj h
        exact .spoiled _ (.handleOffer hlive hstate hrole hmsg hecdh)
      | ok ecdh =>
        rw [check_bind_ok (by rw [hecdh]; rfl), read_bind] at h
        obtain ⟨rfl, rfl⟩ := Prod.mk.inj h
        exact .accepted _ (.handleOffer hlive hstate hrole hvalid hmsg hid hecdh)
  | _ =>
    obtain ⟨rfl, rfl⟩ := fail_cases h
    exact .refused _

theorem confirmSas_outcome (h : confirmSas N now rng s = (r, s')) :
    Outcome N now s (.confirmSas rng) r s' := by
  apply Outcome.guarded h
  intro hlive hstate hrole h
  apply Outcome.check h
  intro sasInput hinput h
  apply Outcome.check h
  intro peer hpeer h
  rw [read_bind] at h
  apply Outcome.check h
  intro event hbuilt h
  obtain ⟨rfl, rfl⟩ := Prod.mk.inj h
  exact .accepted _ (.confirmSas hlive hstate hrole (requireSasInput_eq_ok hinput)
    (requirePeer_eq_ok hpeer) hbuilt)

theorem acceptPayload_cases (h : acceptPayload N event s = (r, s')) :
    (∃ e, r = .error e ∧ s' = s) ∨
      ∃ payloadType payload, r = .ok (payloadType, payload) ∧
        decryptMessage N event s = .ok (.payload payloadType payload) ∧
        s' = { s with
          state := .payloadExchanged
          processedIds := insert event.id s.processedIds } := by
  rcases check_bind_cases h with he | ⟨msg, hmsg, h⟩
  · exact .inl he
  · cases msg with
    | payload payloadType payload =>
      obtain ⟨rfl, rfl⟩ := Prod.mk.inj h
      exact .inr ⟨payloadType, payload, rfl, hmsg, rfl⟩
    | _ =>
      obtain ⟨rfl, rfl⟩ := fail_cases h
      exact .inl ⟨_, rfl, rfl⟩

theorem handleReturnPayload_outcome (h : handleReturnPayload N now event s = (r, s')) :
    Outcome N now s (.handleReturnPayload event) r s' := by
  apply Outcome.guarded h
  intro hlive hstate hrole h
  apply Outcome.check h
  intro _ hvalid h
  rcases acceptPayload_cases h with ⟨e, rfl, rfl⟩ | ⟨payloadType, payload, rfl, hmsg, rfl⟩
  · exact .refused e
  · exact .accepted _ (.handleReturnPayload hlive hstate hrole hvalid hmsg)

theorem handlePayload_outcome (h : handlePayload N now event s = (r, s')) :
    Outcome N now s (.handlePayload event) r s' := by
  apply Outcome.guarded h
  intro hlive hstate hrole h
  apply Outcome.check h
  intro _ hvalid h
  rcases acceptPayload_cases h with ⟨e, rfl, rfl⟩ | ⟨payloadType, payload, rfl, hmsg, rfl⟩
  · exact .refused e
  · exact .accepted _ (.handlePayload hlive hstate hrole hvalid hmsg)

theorem sendSourceComplete_outcome (h : sendSourceComplete N now rng success s = (r, s')) :
    Outcome N now s (.sendSourceComplete rng success) r s' := by
  rcases guarded_build_cases h with ⟨e, rfl, rfl⟩ | ⟨event, rfl, rfl, hlive, hstate, hrole, hbuilt⟩
  · exact .refused e
  · exact .accepted event (.sendSourceComplete hlive hstate hrole hbuilt)

theorem sendPayload_outcome {payloadType : PayloadType} {payload : String}
    (h : sendPayload N now rng payloadType payload s = (r, s')) :
    Outcome N now s (.sendPayload rng payloadType payload) r s' := by
  rcases guarded_build_cases h with ⟨e, rfl, rfl⟩ | ⟨event, rfl, rfl, hlive, hstate, hrole, hbuilt⟩
  · exact .refused e
  · exact .accepted event (.sendPayload hlive hstate hrole hbuilt)

theorem sendComplete_outcome (h : sendComplete N now rng s = (r, s')) :
    Outcome N now s (.sendComplete rng) r s' := by
  rcases guarded_build_cases h with ⟨e, rfl, rfl⟩ | ⟨event, rfl, rfl, hlive, hstate, hrole, hbuilt⟩
  · exact .refused e
  · exact .accepted event (.sendComplete hlive hstate hrole hbuilt)

theorem confirmTargetSas_outcome (h : confirmTargetSas now s = (r, s')) :
    Outcome N now s .confirmTargetSas r s' := by
  apply Outcome.guarded h
  intro hlive hstate hrole h
  obtain ⟨rfl, rfl⟩ := Prod.mk.inj h
  exact .accepted _ (.confirmTargetSas hlive hstate hrole)

theorem handleComplete_outcome (h : handleComplete N now event s = (r, s')) :
    Outcome N now s (.handleComplete event) r s' := by
  apply Outcome.guarded h
  intro hlive hstate hrole h
  apply Outcome.check h
  intro _ hvalid h
  apply Outcome.check h
  intro msg hmsg h
  cases msg with
  | complete success =>
    cases success with
    | true =>
      obtain ⟨rfl, rfl⟩ := Prod.mk.inj h
      exact .accepted _ (.handleComplete hlive hstate hrole hvalid hmsg)
    | false =>
      obtain ⟨rfl, rfl⟩ := Prod.mk.inj h
      exact .aborted _ (.handleComplete hlive hstate hrole hvalid hmsg)
  | _ =>
    obtain ⟨rfl, rfl⟩ := fail_cases h
    exact .refused _

theorem handleSasConfirm_outcome (h : handleSasConfirm N now event s = (r, s')) :
    Outcome N now s (.handleSasConfirm event) r s' := by
  apply Outcome.guarded h
  intro hlive hstate hrole h
  apply Outcome.check h
  intro _ hvalid h
  apply Outcome.check h
  intro msg hmsg h
  cases msg with
  | sasConfirm text =>
    apply Outcome.check h
    intro sasInput hinput h
    apply Outcome.check h
    intro peer hpeer h
    have hinput := requireSasInput_eq_ok hinput
    have hpeer := requirePeer_eq_ok hpeer
    rw [read_bind] at h
    split at h
    · rename_i hhash
      obtain ⟨rfl, rfl⟩ := Prod.mk.inj h
      exact .aborted _ (.handleSasConfirm hlive hstate hrole hvalid hmsg hinput hpeer hhash)
    · rename_i hhash
      cases hcode : s.sasCode with
      | none =>
        change (Fallible.check _ >>= _) _ = _ at h
        rw [check_bind_error (by dsimp only; rw [hcode])] at h
        obtain ⟨rfl, rfl⟩ := Prod.mk.inj h
        exact .spoiled _ (.handleSasConfirm hlive hstate hrole hcode)
      | some code =>
        change (Fallible.check _ >>= _) _ = _ at h
        rw [check_bind_ok (by dsimp only; rw [hcode])] at h
        obtain ⟨rfl, rfl⟩ := Prod.mk.inj h
        exact .accepted _ (.handleSasConfirm hlive hstate hrole hvalid hmsg hinput hpeer
          (not_not.mp hhash))
  | _ =>
    obtain ⟨rfl, rfl⟩ := fail_cases h
    exact .refused _

theorem expectLive_eq_ok (h : expectLive s = .ok a) : s.state.isTerminal = false := by
  unfold expectLive at h
  split at h
  · cases h
  · rename_i he
    exact Bool.eq_false_of_not_eq_true he

theorem abort_outcome {reason : AbortReason} (h : abort N rng reason s = (r, s')) :
    Outcome N now s (.abort rng reason) r s' := by
  apply Outcome.check h
  intro _ hlive h
  have hlive := expectLive_eq_ok hlive
  rw [read_bind] at h
  split at h
  · apply Outcome.check h
    intro event _ h
    obtain ⟨rfl, rfl⟩ := Prod.mk.inj h
    exact .accepted _ (.abort hlive)
  · obtain ⟨rfl, rfl⟩ := Prod.mk.inj h
    exact .accepted _ (.abort hlive)

theorem handleAbort_outcome (h : handleAbort N event s = (r, s')) :
    Outcome N now s (.handleAbort event) r s' := by
  apply Outcome.check h
  intro _ hlive h
  apply Outcome.check h
  intro _ hpeer h
  have hpeer : s.peerPubkey.isSome := by
    split at hpeer
    · cases hpeer
    · rename_i hsome
      exact Option.isSome_iff_ne_none.mpr fun hnone => hsome (by rw [hnone]; rfl)
  apply Outcome.check h
  intro _ hvalid h
  apply Outcome.check h
  intro msg hmsg h
  cases msg with
  | abort reason =>
    obtain ⟨rfl, rfl⟩ := Prod.mk.inj h
    exact .accepted _ (.handleAbort (expectLive_eq_ok hlive) hpeer hvalid hmsg)
  | _ =>
    obtain ⟨rfl, rfl⟩ := fail_cases h
    exact .refused _

/-- Every call does one of the things that its method can do. -/
theorem Call.outcome {c : Call} (h : c.run N now s = (r, s')) : Outcome N now s c r s' := by
  cases c with
  | handleOffer => exact Outcome.map (fun _ _ => handleOffer_outcome) h
  | confirmSas => exact Outcome.map (fun _ _ => confirmSas_outcome) h
  | handleReturnPayload => exact Outcome.map (fun _ _ => handleReturnPayload_outcome) h
  | sendSourceComplete => exact Outcome.map (fun _ _ => sendSourceComplete_outcome) h
  | sendPayload => exact Outcome.map (fun _ _ => sendPayload_outcome) h
  | handleComplete => exact Outcome.map (fun _ _ => handleComplete_outcome) h
  | handleSasConfirm => exact Outcome.map (fun _ _ => handleSasConfirm_outcome) h
  | confirmTargetSas => exact Outcome.map (fun _ _ => confirmTargetSas_outcome) h
  | handlePayload => exact Outcome.map (fun _ _ => handlePayload_outcome) h
  | sendComplete => exact Outcome.map (fun _ _ => sendComplete_outcome) h
  | abort => exact Outcome.map (fun _ _ => abort_outcome) h
  | handleAbort => exact Outcome.map (fun _ _ => handleAbort_outcome) h

end Buzz.Pairing
