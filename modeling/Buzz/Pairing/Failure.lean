import Buzz.Pairing.Order

namespace Buzz.Pairing
set_option autoImplicit true
open PairingSession

variable {K : Type} {N : Nostr K} {s₀ s s' : PairingSession K} {items : List Item}

/-- NIP-44 derives its key from the ECDH of the two parties, so what decrypts has one. -/
def Nostr.DecryptsByEcdh (N : Nostr K) : Prop :=
  ∀ keys pubkey content text, N.decrypt keys pubkey content = .ok text →
    ∃ ecdh, N.generateSharedKey keys pubkey = .ok ecdh

theorem decryptMessage_eq_ok (h : decryptMessage N event s = .ok msg) :
    ∃ text, N.decrypt s.keys event.pubkey event.content = .ok text ∧ N.fromJson text = .ok msg := by
  unfold decryptMessage at h
  dsimp only at h
  split at h
  · cases h
  · split at h
    · cases h
    · rename_i text htext
      split at h
      · cases h
      · split at h
        · cases h
        · rename_i msg' hmsg
          cases h
          exact ⟨text, htext, hmsg⟩

/-- On a session that was created and used through its methods, no call stops half way. -/
theorem Inv.not_spoils (hinv : Inv N s₀ items s) (hecdh : N.DecryptsByEcdh) :
    ¬Spoils N now s c s' := by
  intro h
  cases h with
  | handleOffer hlive hstate hrole hmsg herror =>
    obtain ⟨text, htext, _⟩ := decryptMessage_eq_ok hmsg
    obtain ⟨ecdh, hok⟩ := hecdh _ _ _ _ htext
    rw [herror] at hok
    cases hok
  | handleSasConfirm hlive hstate hrole hcode =>
    obtain ⟨_, _, hcode₀, _, hsome⟩ := hinv.target hrole
    rw [← hcode₀, hcode] at hsome
    cases hsome

theorem Inv.failed (hinv : Inv N s₀ items s) (hecdh : N.DecryptsByEcdh)
    (h : c.run N now s = (.error e, s')) :
    s' = s ∨ Aborts N now s c ∧ s' = { s with state := .aborted } := by
  cases Call.outcome h with
  | refused => exact .inl rfl
  | aborted _ ha => exact .inr ⟨ha, rfl⟩
  | spoiled _ hs => exact (hinv.not_spoils hecdh hs).elim

theorem guarded_eq {g : Handler K α} {st : SessionState} {ro : Role}
    (hlive : s.isExpired now = false) (hstate : s.state = st) (hrole : s.role = ro) :
    (Fallible.check (checkExpired now) >>= fun _ => Fallible.check (expectState st) >>=
      fun _ => Fallible.check (expectRole ro) >>= fun _ => g) s = g s := by
  have h1 : checkExpired now s = .ok () := by
    rw [checkExpired, hlive]
    rfl
  have h2 : expectState st s = .ok () := by
    rw [expectState, if_neg (not_not.mpr hstate)]
  have h3 : expectRole ro s = .ok () := by
    rw [expectRole, if_neg (not_not.mpr hrole)]
  rw [Fallible.check_bind_ok h1, Fallible.check_bind_ok h2, Fallible.check_bind_ok h3]

/-- The two failures that end a session do end it. -/
theorem Aborts.run (h : Aborts N now s c) :
    ∃ e, c.run N now s = (.error e, { s with state := .aborted }) := by
  cases h with
  | @handleSasConfirm event text sasInput peer hlive hstate hrole hvalid hmsg hinput hpeer hhash =>
    have h1 : requireSasInput s = .ok sasInput := by
      rw [requireSasInput, hinput]
    have h2 : requirePeer s = .ok peer := by
      rw [requirePeer, hpeer]
    have hrun : PairingSession.handleSasConfirm N now event s =
        (.error .transcriptMismatch, { s with state := .aborted }) := by
      rw [PairingSession.handleSasConfirm, guarded_eq hlive hstate hrole,
        Fallible.check_bind_ok hvalid, Fallible.check_bind_ok hmsg]
      dsimp only
      rw [Fallible.check_bind_ok h1, Fallible.check_bind_ok h2, Fallible.read_bind, if_pos hhash]
      rfl
    exact ⟨_, Fallible.map_error hrun _⟩
  | @handleComplete event hlive hstate hrole hvalid hmsg =>
    have hrun : PairingSession.handleComplete N now event s =
        (.error (.unexpectedMessage "complete(success=true)" "complete(success=false)"),
          { s with state := .aborted }) := by
      rw [PairingSession.handleComplete, guarded_eq hlive hstate hrole,
        Fallible.check_bind_ok hvalid, Fallible.check_bind_ok hmsg]
      rfl
    exact ⟨_, Fallible.map_error hrun _⟩

/-- A handler accepted an event with this id. -/
def HandledEvent (id : EventId) (x : Item) : Prop :=
  x.isOk = true ∧ ∃ event, x.call.event = some event ∧ event.id = id

theorem Accepts.processedIds (h : Accepts N now s c s') :
    s'.processedIds = match c.event with
      | some event => insert event.id s.processedIds
      | none => s.processedIds := by
  cases h with
  | _ => rfl

/-- Exactly the accepted events are remembered. -/
theorem Trace.mem_processedIds (h : Trace N s₀ items s) (hstart : Started N s₀)
    (hecdh : N.DecryptsByEcdh) (id : EventId) :
    id ∈ s.processedIds ↔ ∃ x ∈ items, HandledEvent id x := by
  induction h with
  | nil =>
    have hempty : s₀.processedIds = ∅ := by
      rcases hstart with ⟨_, _, _, _, rfl⟩ | ⟨_, _, _, _, _, hnew⟩
      · rfl
      · obtain ⟨_, _, rfl⟩ := newTarget_eq_ok hnew
        rfl
    simp [hempty]
  | @snoc items s s' now c r htrace hrun ih =>
    have hsplit : (∃ x ∈ items ++ [⟨now, c, r⟩], HandledEvent id x) ↔
        (∃ x ∈ items, HandledEvent id x) ∨ HandledEvent id ⟨now, c, r⟩ := by
      simp only [List.mem_append, List.mem_singleton, or_and_right, exists_or, exists_eq_left]
    rw [hsplit, ← ih]
    cases r with
    | error e =>
      have hids : s'.processedIds = s.processedIds := by
        rcases (htrace.inv hstart).failed hecdh hrun with rfl | ⟨_, rfl⟩
        · rfl
        · rfl
      have hnot : ¬HandledEvent id ⟨now, c, .error e⟩ := fun h => Bool.noConfusion h.1
      rw [hids, or_iff_left hnot]
    | ok a =>
      rw [((Call.outcome hrun).accepts).processedIds]
      cases hevent : c.event with
      | none =>
        have hnot : ¬HandledEvent id ⟨now, c, .ok a⟩ := by
          rintro ⟨_, event, he, _⟩
          rw [hevent] at he
          cases he
        exact (or_iff_left hnot).symm
      | some event =>
        have hhandled : HandledEvent id ⟨now, c, .ok a⟩ ↔ id = event.id := by
          constructor
          · rintro ⟨_, event', he, rfl⟩
            rw [hevent] at he
            cases he
            rfl
          · rintro rfl
            exact ⟨rfl, event, hevent, rfl⟩
        rw [hhandled, Finset.mem_insert, or_comm]

/-- A call that fails leaves the session as it was, but for a wrong transcript hash and a failed
import, which end it, and the ids of exactly the accepted events are remembered. -/
theorem failure_keeps_session (hecdh : N.DecryptsByEcdh) (hstart : Started N s₀)
    (h : Trace N s₀ items s) :
    (∀ now c e s', Call.run N now c s = (.error e, s') →
      s' = s ∨ Aborts N now s c ∧ s' = { s with state := .aborted }) ∧
    (∀ now c, Aborts N now s c →
      ∃ e, Call.run N now c s = (.error e, { s with state := .aborted })) ∧
    ∀ id, id ∈ s.processedIds ↔ ∃ x ∈ items, HandledEvent id x := by
  refine ⟨?_, ?_, h.mem_processedIds hstart hecdh⟩
  · intro now c e s' hrun
    exact (h.inv hstart).failed hecdh hrun
  · intro now c haborts
    exact haborts.run

theorem trace_single (N : Nostr K) (s : PairingSession K) (now : Nat) (c : Call) :
    Trace N s [⟨now, c, (c.run N now s).1⟩] (c.run N now s).2 :=
  .snoc .nil rfl

namespace PairingExample

/-- The source session after the offer. -/
def offered : Except PairingError Reply × PairingSession (HexId 64) :=
  (Call.handleOffer offer).run crate 0 source.1

end PairingExample

open PairingExample in
theorem failure_keeps_session_source :
    Item.isOk ⟨0, .handleOffer offer, offered.1⟩ = true ∧
    ∀ now c e s', Call.run crate now c offered.2 = (.error e, s') →
      s' = offered.2 ∨ Aborts crate now offered.2 c ∧ s' = { offered.2 with state := .aborted } := by
  have hecdh : crate.DecryptsByEcdh := fun _ _ _ _ _ => ⟨_, rfl⟩
  have htrace : Trace crate source.1 [⟨0, .handleOffer offer, offered.1⟩] offered.2 :=
    trace_single crate source.1 0 (.handleOffer offer)
  obtain ⟨hfailed, _⟩ := failure_keeps_session hecdh (.inl ⟨_, _, _, _, rfl⟩) htrace
  exact ⟨by decide +kernel, hfailed⟩

end Buzz.Pairing
