import Buzz.Audio.Room
import Buzz.Lib.Ring
import Buzz.Lib.Run

namespace Buzz.Audio
set_option autoImplicit true

/-- The operations of a room. An admission draws an identifier for the peer. -/
inductive Call where
  | addPeer (newId : Uuid) (pubkey : String) (requestedVersion : UInt8)
  | addPeerAtIndex (newId : Uuid) (pubkey : String) (requestedVersion peerIndex : UInt8)
  | removePeer (peerId : Uuid)
  | removePeerAndCheckEnded (peerId : Uuid)
  | markEnded
  | clearEnded

inductive Reply where
  | admission (result : Except AdmissionError PeerAdmission)
  | indexedAdmission (result : Except AdmissionError IndexedPeerAdmission)
  | removed (delta : Option RosterDelta)
  | removedAndChecked (result : Option (RosterDelta × Bool))
  | marked (empty : Bool)
  | cleared

def Call.run (room : Room) : Call → Reply × Room
  | addPeer newId pubkey version => (room.addPeer newId pubkey version).map .admission id
  | addPeerAtIndex newId pubkey version index =>
    (room.addPeerAtIndex newId pubkey version index).map .indexedAdmission id
  | removePeer peerId => (room.removePeer peerId).map .removed id
  | removePeerAndCheckEnded peerId =>
    (room.removePeerAndCheckEnded peerId).map .removedAndChecked id
  | markEnded => room.markEnded.map .marked id
  | clearEnded => (.cleared, room.clearEnded)

/-- A drawn identifier is not in use, and an index that an owner assigns is at most 254. -/
def Call.Valid (room : Room) : Call → Prop
  | addPeer newId _ _ => room.peers.lookup newId = none
  | addPeerAtIndex newId _ _ index => room.peers.lookup newId = none ∧ index.toNat ≤ 254
  | _ => True

structure Item where
  call : Call
  reply : Reply

def Step (room : Room) (x : Item) (room' : Room) : Prop :=
  x.call.Valid room ∧ x.call.run room = (x.reply, room')

theorem step_run {room : Room} {call : Call} (h : call.Valid room) :
    Step room ⟨call, (call.run room).1⟩ (call.run room).2 :=
  ⟨h, rfl⟩

namespace Item

/-- The index and the epoch that an admission gave to its peer. -/
def assigned (x : Item) : Option (UInt8 × UInt8) :=
  match x.call, x.reply with
  | .addPeer _ _ _, .admission (.ok a) => some (a.peerIndex, a.epoch)
  | .addPeerAtIndex _ _ _ index, .indexedAdmission (.ok a) => some (index, a.epoch)
  | _, _ => none

def assigns (index : UInt8) (x : Item) : Bool :=
  x.assigned.any fun a => a.1 == index

/-- `remove_peer_and_check_ended` answered that the room ends. -/
def autoEnds (x : Item) : Bool :=
  match x.reply with
  | .removedAndChecked (some (_, shouldEnd)) => shouldEnd
  | _ => false

def clears (x : Item) : Bool :=
  match x.call with
  | .clearEnded => true
  | _ => false

end Item

/-- What every reachable room looks like. -/
structure Room.Inv (room : Room) : Prop where
  indices : room.peers.contents (fun _ p => {p.peerIndex}) = room.guard.activeIndices.val
  cursor : room.guard.nextCandidate.toNat < 255
  cap : room.len ≤ MAX_PEERS_PER_ROOM
  version : room.peers.All fun p => room.guard.pinnedVersion = some p.protocolVersion

theorem Room.len_eq_card (room : Room) :
    room.len = (room.peers.contents fun _ p => ({p.peerIndex} : Multiset UInt8)).card := by
  rw [Table.contents_singleton, Multiset.coe_card, List.length_map]
  rfl

theorem Room.Inv.len_eq {room : Room} (h : room.Inv) :
    room.len = room.guard.activeIndices.card := by
  rw [room.len_eq_card, h.indices]
  rfl

theorem toNat_candidateAfter {idx : UInt8} (h : idx.toNat < 255) :
    (candidateAfter idx).toNat = (idx.toNat + 1) % 255 := by
  unfold candidateAfter
  split
  · rename_i hidx
    rw [hidx]
    rfl
  · rename_i hidx
    have hne : idx.toNat ≠ 254 := fun hn => hidx (UInt8.toNat_inj.mp hn)
    rw [UInt8.toNat_add, UInt8.toNat_one]
    omega

theorem candidateAfter_lt {idx : UInt8} (h : idx.toNat < 255) :
    (candidateAfter idx).toNat < 255 := by
  rw [toNat_candidateAfter h]
  exact Nat.mod_lt _ (by decide)

theorem toNat_iterate_candidateAfter {c : UInt8} (h : c.toNat < 255) (i : Nat) :
    (candidateAfter^[i] c).toNat = (c.toNat + i) % 255 := by
  induction i with
  | zero => exact (Nat.mod_eq_of_lt h).symm
  | succ i ih =>
    have hi : (candidateAfter^[i] c).toNat < 255 := by
      rw [ih]
      exact Nat.mod_lt _ (by decide)
    rw [Function.iterate_succ_apply', toNat_candidateAfter hi, ih]
    omega

theorem injOn_candidateAfter {c : UInt8} (h : c.toNat < 255) :
    Set.InjOn (fun i => candidateAfter^[i] c) (Finset.range 255) := by
  intro i hi j hj heq
  have hnat := congrArg UInt8.toNat heq
  simp only [toNat_iterate_candidateAfter h] at hnat
  rw [Finset.mem_coe, Finset.mem_range] at hi hj
  omega

namespace AdmissionGuard

/-- The guard once an index has got a new occupant. -/
def occupied (idx : UInt8) (g : AdmissionGuard) : AdmissionGuard :=
  { g with
    nextCandidate := candidateAfter idx
    activeIndices := insert idx g.activeIndices
    indexEpochs := g.indexEpochs.insert idx ((g.indexEpochs.lookup idx).getD 0 + 1) }

theorem allocLoop_eq {g : AdmissionGuard}
    (h : Ring.search candidateAfter g.activeIndices n g.nextCandidate = some idx) :
    g.allocLoop n = (some (idx, (g.indexEpochs.lookup idx).getD 0), g.occupied idx) := by
  induction n generalizing g with
  | zero => cases h
  | succ n ih =>
    rw [Ring.search] at h
    rw [allocLoop]
    dsimp only
    split at h
    · rename_i htaken
      rw [if_pos htaken]
      exact ih h
    · rename_i hfree
      cases h
      rw [if_neg hfree]
      rfl

/-- With an index to spare, allocation finds one. -/
theorem alloc_eq {g : AdmissionGuard} (hcursor : g.nextCandidate.toNat < 255)
    (hcard : g.activeIndices.card < 255) :
    ∃ idx, idx ∉ g.activeIndices ∧ idx.toNat < 255 ∧
      g.alloc = (some (idx, (g.indexEpochs.lookup idx).getD 0), g.occupied idx) := by
  cases h : Ring.search candidateAfter g.activeIndices 255 g.nextCandidate with
  | none => exact absurd h (Ring.search_ne_none (injOn_candidateAfter hcursor) hcard)
  | some idx =>
    have hlt : idx.toNat < 255 :=
      Ring.search_invariant (P := fun a => a.toNat < 255) (fun _ => candidateAfter_lt) hcursor h
    exact ⟨idx, Ring.not_mem_of_search_eq_some h, hlt, allocLoop_eq h⟩

end AdmissionGuard

/-- Why a peer may enter. -/
structure Admits (room : Room) (peer : AudioPeer) : Prop where
  live : room.guard.ended = false
  space : room.len < MAX_PEERS_PER_ROOM
  version : room.guard.mismatch peer.protocolVersion = none
  free : peer.peerIndex ∉ room.guard.activeIndices
  range : peer.peerIndex.toNat < 255
  epoch : peer.epoch = (room.guard.indexEpochs.lookup peer.peerIndex).getD 0

/-- The room with the peer. -/
def Room.admitted (newId : Uuid) (peer : AudioPeer) (room : Room) : Room :=
  ({ room with
      guard := (room.guard.occupied peer.peerIndex).pin peer.protocolVersion }.enter newId peer).2

def Room.ended (room : Room) : Room :=
  { room with guard := { room.guard with ended := true } }

/-- All that a call can do to a room. -/
inductive Change (room : Room) (x : Item) : Room → Prop where
  | refused (hassigned : x.assigned = none) (hends : x.autoEnds = false) : Change room x room
  | admitted {newId : Uuid} {peer : AudioPeer} (h : Admits room peer)
      (hfresh : room.peers.lookup newId = none)
      (hassigned : x.assigned = some (peer.peerIndex, peer.epoch)) (hends : x.autoEnds = false) :
      Change room x (room.admitted newId peer)
  | left {peerId : Uuid} {peer : AudioPeer} (hlookup : room.peers.lookup peerId = some peer)
      (hassigned : x.assigned = none) (hends : x.autoEnds = false) :
      Change room x (room.leave peerId peer).2
  | emptied {peerId : Uuid} {peer : AudioPeer} (hlookup : room.peers.lookup peerId = some peer)
      (hlive : room.guard.ended = false) (hempty : (room.leave peerId peer).2.isEmpty = true)
      (hassigned : x.assigned = none) : Change room x (room.leave peerId peer).2.ended
  | marked (hassigned : x.assigned = none) (hends : x.autoEnds = false) : Change room x room.ended
  | cleared (hclears : x.clears = true) (hassigned : x.assigned = none)
      (hends : x.autoEnds = false) : Change room x room.clearEnded

theorem Room.addPeer_cases {room : Room} (h : room.Inv)
    (hrun : room.addPeer newId pubkey version = (result, room')) :
    (∃ e, result = .error e ∧ room' = room ∧
      (e = .full → room.len = MAX_PEERS_PER_ROOM)) ∨
    ∃ idx revision, Admits room
        ⟨pubkey, idx, (room.guard.indexEpochs.lookup idx).getD 0, version⟩ ∧
      result = .ok ⟨newId, idx, (room.guard.indexEpochs.lookup idx).getD 0, revision⟩ ∧
      room' = room.admitted newId
        ⟨pubkey, idx, (room.guard.indexEpochs.lookup idx).getD 0, version⟩ := by
  unfold Room.addPeer at hrun
  split at hrun
  · cases hrun
    exact .inl ⟨_, rfl, rfl, nofun⟩
  · rename_i hlive
    split at hrun
    · rename_i hfull
      cases hrun
      exact .inl ⟨_, rfl, rfl, fun _ => Nat.le_antisymm h.cap hfull⟩
    · rename_i hspace
      split at hrun
      · cases hrun
        exact .inl ⟨_, rfl, rfl, nofun⟩
      · rename_i hversion
        have hlen : room.len < MAX_PEERS_PER_ROOM := Nat.not_le.mp hspace
        have hcard : room.guard.activeIndices.card < 255 := by
          rw [← h.len_eq]
          exact Nat.lt_trans hlen (by decide)
        obtain ⟨idx, hfree, hrange, halloc⟩ := AdmissionGuard.alloc_eq h.cursor hcard
        rw [halloc] at hrun
        cases hrun
        exact .inr ⟨idx, _,
          ⟨Bool.eq_false_of_not_eq_true hlive, hlen, hversion, hfree, hrange, rfl⟩, rfl, rfl⟩

theorem Room.addPeerAtIndex_cases {room : Room}
    (hrun : room.addPeerAtIndex newId pubkey version idx = (result, room'))
    (hrange : idx.toNat ≤ 254) :
    (∃ e, result = .error e ∧ room' = room) ∨
    ∃ revision, Admits room
        ⟨pubkey, idx, (room.guard.indexEpochs.lookup idx).getD 0, version⟩ ∧
      result = .ok ⟨newId, (room.guard.indexEpochs.lookup idx).getD 0, revision⟩ ∧
      room' = room.admitted newId
        ⟨pubkey, idx, (room.guard.indexEpochs.lookup idx).getD 0, version⟩ := by
  unfold Room.addPeerAtIndex at hrun
  split at hrun
  · cases hrun
    exact .inl ⟨_, rfl, rfl⟩
  · rename_i hlive
    split at hrun
    · cases hrun
      exact .inl ⟨_, rfl, rfl⟩
    · rename_i hspace
      rw [not_or, Nat.not_le] at hspace
      split at hrun
      · cases hrun
        exact .inl ⟨_, rfl, rfl⟩
      · rename_i hversion
        cases hrun
        exact .inr ⟨_, ⟨Bool.eq_false_of_not_eq_true hlive, hspace.1, hversion, hspace.2,
          Nat.lt_succ_of_le hrange, rfl⟩, rfl, rfl⟩

theorem of_map_eq {f : α → β} {p : α × γ} (h : p.map f id = (b, c)) :
    ∃ a, p = (a, c) ∧ b = f a := by
  cases h
  exact ⟨p.1, rfl, rfl⟩

theorem Step.change {room room' : Room} {x : Item} (hstep : Step room x room') (h : room.Inv) :
    Change room x room' := by
  obtain ⟨call, reply⟩ := x
  obtain ⟨hvalid, hrun⟩ := hstep
  cases call with
  | addPeer newId pubkey version =>
    obtain ⟨result, hadd, rfl⟩ := of_map_eq hrun
    rcases Room.addPeer_cases h hadd with
      ⟨e, rfl, rfl, _⟩ | ⟨idx, revision, hadmits, rfl, rfl⟩
    · exact .refused rfl rfl
    · exact .admitted hadmits hvalid rfl rfl
  | addPeerAtIndex newId pubkey version index =>
    obtain ⟨result, hadd, rfl⟩ := of_map_eq hrun
    rcases Room.addPeerAtIndex_cases hadd hvalid.2 with
      ⟨e, rfl, rfl⟩ | ⟨revision, hadmits, rfl, rfl⟩
    · exact .refused rfl rfl
    · exact .admitted hadmits hvalid.1 rfl rfl
  | removePeer peerId =>
    obtain ⟨result, hremove, rfl⟩ := of_map_eq hrun
    split at hremove
    · cases hremove
      exact .refused rfl rfl
    · rename_i peer hlookup
      cases hremove
      exact .left hlookup rfl rfl
  | removePeerAndCheckEnded peerId =>
    obtain ⟨result, hremove, rfl⟩ := of_map_eq hrun
    split at hremove
    · cases hremove
      exact .refused rfl rfl
    · rename_i peer hlookup
      dsimp only at hremove
      split at hremove
      · rename_i hend
        cases hremove
        rw [Bool.and_eq_true, Bool.not_eq_true'] at hend
        exact .emptied hlookup hend.1 hend.2 rfl
      · cases hremove
        exact .left hlookup rfl rfl
  | markEnded =>
    cases hrun
    exact .marked rfl rfl
  | clearEnded =>
    cases hrun
    exact .cleared rfl rfl rfl

theorem Room.Inv.new (c : CommunityId) (s : Uuid) : (Room.new c s).Inv where
  indices := rfl
  cursor := (by decide : (0 : UInt8).toNat < 255)
  cap := Nat.zero_le _
  version := .empty _

theorem AdmissionGuard.pinnedVersion_pin {g : AdmissionGuard} (h : g.mismatch version = none) :
    (g.pin version).pinnedVersion = some version := by
  unfold mismatch at h
  unfold pin
  cases hpinned : g.pinnedVersion with
  | none => rfl
  | some pinned =>
    rw [hpinned] at h
    dsimp only at h
    split at h
    · cases h
    · rename_i heq
      exact congrArg some (not_not.mp heq)

theorem Room.contents_admitted {room : Room} (h : room.Inv) (hadmits : Admits room peer)
    (hfresh : room.peers.lookup newId = none) :
    (room.admitted newId peer).peers.contents (fun _ p => ({p.peerIndex} : Multiset UInt8)) =
      (insert peer.peerIndex room.guard.activeIndices).val := by
  rw [Finset.insert_val_of_notMem hadmits.free, ← Multiset.singleton_add, ← h.indices]
  have hinsert : (room.admitted newId peer).peers = room.peers.insert newId peer := rfl
  rw [hinsert, Table.contents_insert, Table.erase_of_lookup_eq_none hfresh]

theorem Room.Inv.admitted {room : Room} (h : room.Inv) (hadmits : Admits room peer)
    (hfresh : room.peers.lookup newId = none) : (room.admitted newId peer).Inv where
  indices := Room.contents_admitted h hadmits hfresh
  cursor := candidateAfter_lt hadmits.range
  cap := by
    have hspace := hadmits.space
    rw [h.len_eq] at hspace
    rw [Room.len_eq_card, Room.contents_admitted h hadmits hfresh]
    change (insert peer.peerIndex room.guard.activeIndices).card ≤ MAX_PEERS_PER_ROOM
    rw [Finset.card_insert_of_notMem hadmits.free]
    exact hspace
  version := by
    have hpinned := AdmissionGuard.pinnedVersion_pin hadmits.version
    -- the pin of the room is the version of the peer, so it is also that of the others
    have hold : room.peers.All fun p => some peer.protocolVersion = some p.protocolVersion := by
      intro k p hp
      have hp' := h.version k p hp
      rw [← hpinned]
      change some (room.guard.pinnedVersion.getD peer.protocolVersion) = some p.protocolVersion
      rw [hp']
      rfl
    have hall := hold.insert newId (v := peer) rfl
    intro k p hp
    exact hpinned.trans (hall k p hp)

theorem Room.contents_leave {room : Room} (h : room.Inv)
    (hlookup : room.peers.lookup peerId = some peer) :
    (room.leave peerId peer).2.peers.contents (fun _ p => ({p.peerIndex} : Multiset UInt8)) =
      (room.guard.activeIndices.erase peer.peerIndex).val := by
  have hsplit := Table.contents_erase (fun _ p => ({p.peerIndex} : Multiset UInt8)) room.peers peerId
  rw [hlookup, Option.elim_some, h.indices] at hsplit
  rw [Finset.erase_val, hsplit, Multiset.singleton_add, Multiset.erase_cons_head]
  rfl

theorem Room.Inv.leave {room : Room} (h : room.Inv)
    (hlookup : room.peers.lookup peerId = some peer) : (room.leave peerId peer).2.Inv where
  indices := Room.contents_leave h hlookup
  cursor := h.cursor
  cap := by
    rw [Room.len_eq_card, Room.contents_leave h hlookup]
    have hle : (room.guard.activeIndices.erase peer.peerIndex).card ≤
        room.guard.activeIndices.card := Finset.card_erase_le
    rw [← h.len_eq] at hle
    exact Nat.le_trans hle h.cap
  version := h.version.erase peerId

theorem Room.Inv.change {room room' : Room} {x : Item} (h : room.Inv)
    (hchange : Change room x room') : room'.Inv := by
  cases hchange with
  | refused => exact h
  | admitted hadmits hfresh => exact h.admitted hadmits hfresh
  | left hlookup => exact h.leave hlookup
  | emptied hlookup =>
    have hleft := h.leave hlookup
    exact ⟨hleft.indices, hleft.cursor, hleft.cap, hleft.version⟩
  | marked => exact ⟨h.indices, h.cursor, h.cap, h.version⟩
  | cleared => exact ⟨h.indices, h.cursor, h.cap, h.version⟩

/-- What holds of a room and the calls that made it. -/
structure History (items : List Item) (room : Room) : Prop where
  inv : room.Inv
  epochs : ∀ idx, (room.guard.indexEpochs.lookup idx).getD 0 =
    UInt8.ofNat (items.countP (Item.assigns idx))
  ended : ∀ before x after, items = before ++ x :: after → x.autoEnds = true →
    (∀ y ∈ after, Item.clears y = false) → room.guard.ended = true

/-- Only an admission touches the epochs, and only of its index. -/
theorem Change.indexEpochs {room room' : Room} {x : Item} (h : Change room x room') :
    x.assigned = none ∧ room'.guard.indexEpochs = room.guard.indexEpochs ∨
    ∃ idx epoch, x.assigned = some (idx, epoch) ∧
      epoch = (room.guard.indexEpochs.lookup idx).getD 0 ∧
      room'.guard.indexEpochs = room.guard.indexEpochs.insert idx (epoch + 1) := by
  cases h with
  | @admitted newId peer hadmits _ hassigned =>
    refine .inr ⟨peer.peerIndex, peer.epoch, hassigned, hadmits.epoch, ?_⟩
    rw [hadmits.epoch]
    rfl
  | refused hassigned => exact .inl ⟨hassigned, rfl⟩
  | left _ hassigned => exact .inl ⟨hassigned, rfl⟩
  | emptied _ _ _ hassigned => exact .inl ⟨hassigned, rfl⟩
  | marked hassigned => exact .inl ⟨hassigned, rfl⟩
  | cleared _ hassigned => exact .inl ⟨hassigned, rfl⟩

theorem Change.ended_of_autoEnds {room room' : Room} {x : Item} (h : Change room x room')
    (hends : x.autoEnds = true) :
    room.guard.ended = false ∧ room'.guard.ended = true ∧ room'.isEmpty = true := by
  cases h with
  | emptied _ hlive hempty => exact ⟨hlive, rfl, hempty⟩
  | refused _ hnot => exact absurd (hends.symm.trans hnot) (by decide)
  | admitted _ _ _ hnot => exact absurd (hends.symm.trans hnot) (by decide)
  | left _ _ hnot => exact absurd (hends.symm.trans hnot) (by decide)
  | marked _ hnot => exact absurd (hends.symm.trans hnot) (by decide)
  | cleared _ _ hnot => exact absurd (hends.symm.trans hnot) (by decide)

/-- A room that has ended stays so until it is cleared, and lets nobody in. -/
theorem Change.of_ended {room room' : Room} {x : Item} (h : Change room x room')
    (hended : room.guard.ended = true) :
    x.assigned = none ∧ x.autoEnds = false ∧ (x.clears = false → room'.guard.ended = true) := by
  cases h with
  | refused hassigned hnot => exact ⟨hassigned, hnot, fun _ => hended⟩
  | admitted hadmits => exact absurd (hended.symm.trans hadmits.live) (by decide)
  | left _ hassigned hnot => exact ⟨hassigned, hnot, fun _ => hended⟩
  | emptied _ hlive => exact absurd (hended.symm.trans hlive) (by decide)
  | marked hassigned hnot => exact ⟨hassigned, hnot, fun _ => rfl⟩
  | cleared hclears hassigned hnot =>
    refine ⟨hassigned, hnot, ?_⟩
    intro hnever
    exact absurd (hclears.symm.trans hnever) (by decide)

theorem History.new (c : CommunityId) (s : Uuid) : History [] (Room.new c s) where
  inv := .new c s
  epochs := fun _ => rfl
  ended := by
    intro before x after hitems
    exact absurd hitems (by simp)

theorem History.step_epochs {items : List Item} {room room' : Room} {x : Item}
    (h : History items room) (hchange : Change room x room') (idx : UInt8) :
    (room'.guard.indexEpochs.lookup idx).getD 0 =
      UInt8.ofNat ((items ++ [x]).countP (Item.assigns idx)) := by
  rw [List.countP_append, List.countP_singleton]
  rcases hchange.indexEpochs with ⟨hassigned, hsame⟩ | ⟨idx', epoch, hassigned, hepoch, hnew⟩
  · have hnot : x.assigns idx = false := by
      rw [Item.assigns, hassigned]
      rfl
    rw [hsame, hnot]
    exact h.epochs idx
  · have hassigns : x.assigns idx = (idx' == idx) := by
      rw [Item.assigns, hassigned]
      rfl
    rw [hnew, hassigns]
    by_cases hidx : idx = idx'
    · subst hidx
      rw [AList.lookup_insert, beq_self_eq_true, if_pos rfl, UInt8.ofNat_add, ← h.epochs idx,
        ← hepoch]
      rfl
    · rw [AList.lookup_insert_ne hidx, beq_eq_false_iff_ne.mpr (Ne.symm hidx)]
      exact h.epochs idx

theorem History.step {items : List Item} {room room' : Room} {x : Item} (h : History items room)
    (hstep : Step room x room') : History (items ++ [x]) room' := by
  have hchange := hstep.change h.inv
  refine ⟨h.inv.change hchange, h.step_epochs hchange, ?_⟩
  intro before y after hitems hends hnever
  rcases List.eq_nil_or_concat after with rfl | ⟨after, z, rfl⟩
  · obtain ⟨_, hlast⟩ := List.append_inj' hitems rfl
    cases hlast
    exact (hchange.ended_of_autoEnds hends).2.1
  · rw [List.concat_eq_append, ← List.cons_append, ← List.append_assoc] at hitems
    obtain ⟨hbefore, hlast⟩ := List.append_inj' hitems rfl
    cases hlast
    rw [List.concat_eq_append] at hnever
    have hended := h.ended before y after hbefore hends
      fun z hz => hnever z (List.mem_append_left _ hz)
    exact (hchange.of_ended hended).2.2 (hnever x (List.mem_append_right _ List.mem_cons_self))

theorem history {c : CommunityId} {s : Uuid} {items : List Item} {room : Room}
    (h : Run Step (Room.new c s) items room) : History items room :=
  h.history (History.new c s) fun _ _ _ _ hhistory hstep => hhistory.step hstep

/-- The epoch of an admission counts the earlier ones to its index. -/
theorem epoch_eq {c : CommunityId} {s : Uuid} {before after : List Item} {x : Item} {room : Room}
    (h : Run Step (Room.new c s) (before ++ x :: after) room)
    (hx : x.assigned = some (idx, epoch)) :
    epoch = UInt8.ofNat (before.countP (Item.assigns idx)) := by
  obtain ⟨t, t', hbefore, hstep, _⟩ := h.split
  have hhistory := history hbefore
  rcases (hstep.change hhistory.inv).indexEpochs with
    ⟨hnone, _⟩ | ⟨idx', epoch', hassigned, hepoch, _⟩
  · exact absurd (hx.symm.trans hnone) (by simp)
  · obtain ⟨rfl, rfl⟩ := Prod.mk.inj (Option.some.inj (hx.symm.trans hassigned))
    rw [hepoch, hhistory.epochs]

/-- What a room promises after any operations. -/
structure RoomSafe (c : CommunityId) (s : Uuid) (items : List Item) (room : Room) : Prop where
  indices : ∀ i, i ∈ room.guard.activeIndices ↔
    ∃ id peer, room.peers.lookup id = some peer ∧ peer.peerIndex = i
  distinct : ∀ id id' peer peer', room.peers.lookup id = some peer →
    room.peers.lookup id' = some peer' → peer.peerIndex = peer'.peerIndex → id = id'
  cap : room.len ≤ MAX_PEERS_PER_ROOM
  full : ∀ newId pubkey version, (room.addPeer newId pubkey version).1 = .error .full →
    room.len = MAX_PEERS_PER_ROOM
  version : ∀ id peer, room.peers.lookup id = some peer →
    room.guard.pinnedVersion = some peer.protocolVersion
  /-- Fewer than 256 assignments of an index apart, two occupants have different epochs. -/
  epochs : ∀ before x between y after idx epoch epoch',
    items = before ++ x :: (between ++ y :: after) →
    Item.assigned x = some (idx, epoch) → Item.assigned y = some (idx, epoch') →
    (x :: between).countP (Item.assigns idx) < 256 → epoch ≠ epoch'
  /-- The room ends by itself only when it is empty. -/
  autoEnd : ∀ before x after, items = before ++ x :: after → Item.autoEnds x = true →
    ∃ room', Run Step (Room.new c s) (before ++ [x]) room' ∧ Run Step room' after room ∧
      room'.isEmpty = true
  /-- Until it is cleared, it neither ends again nor admits anybody. -/
  once : ∀ before x between y after, items = before ++ x :: (between ++ y :: after) →
    Item.autoEnds x = true → (∀ z ∈ between, Item.clears z = false) →
    Item.autoEnds y = false ∧ Item.assigned y = none

theorem room_safe {c : CommunityId} {s : Uuid} {items : List Item} {room : Room}
    (h : Run Step (Room.new c s) items room) : RoomSafe c s items room where
  indices := by
    intro i
    rw [← Finset.mem_val, ← (history h).inv.indices]
    exact Table.mem_contents_singleton
  distinct := by
    intro id id' peer peer' hpeer hpeer' hindex
    have hnodup := room.guard.activeIndices.nodup
    rw [← (history h).inv.indices] at hnodup
    exact Table.eq_of_nodup_contents hnodup hpeer hpeer' hindex
  cap := (history h).inv.cap
  full := by
    intro newId pubkey version hfull
    rcases Room.addPeer_cases (history h).inv (Prod.ext hfull rfl) with
      ⟨e, he, _, hcap⟩ | ⟨_, _, _, hok, _⟩
    · cases he
      exact hcap rfl
    · cases hok
  version := (history h).inv.version
  epochs := by
    rintro before x between y after idx epoch epoch' rfl hx hy hcount
    have hepoch := epoch_eq h hx
    rw [← List.cons_append, ← List.append_assoc] at h
    have hepoch' := epoch_eq h hy
    rw [List.countP_append] at hepoch'
    have hpos : 0 < (x :: between).countP (Item.assigns idx) := by
      rw [List.countP_pos_iff]
      refine ⟨x, List.mem_cons_self, ?_⟩
      rw [Item.assigns, hx]
      exact beq_self_eq_true idx
    intro heq
    rw [hepoch, hepoch'] at heq
    have hnat := congrArg UInt8.toNat heq
    rw [UInt8.toNat_ofNat', UInt8.toNat_ofNat'] at hnat
    omega
  autoEnd := by
    rintro before x after rfl hends
    obtain ⟨t, t', hbefore, hstep, hafter⟩ := h.split
    have hchange := hstep.change (history hbefore).inv
    exact ⟨t', .snoc hbefore hstep, hafter, (hchange.ended_of_autoEnds hends).2.2⟩
  once := by
    rintro before x between y after rfl hends hnever
    rw [← List.cons_append, ← List.append_assoc] at h
    obtain ⟨t, t', hbefore, hstep, _⟩ := h.split
    have hhistory := history hbefore
    have hended := hhistory.ended before x between rfl hends hnever
    obtain ⟨hassigned, hnot, _⟩ := (hstep.change hhistory.inv).of_ended hended
    exact ⟨hnot, hassigned⟩

namespace RoomExample

def community : CommunityId := ⟨HexId.ofNat 32 1⟩
def channel : Uuid := HexId.ofNat 32 2
def peerId : Uuid := HexId.ofNat 32 3

def start : Room := .new community channel
def join : Call := .addPeer peerId "alice" 3
def quit : Call := .removePeerAndCheckEnded peerId

def joined : Room := (join.run start).2

/-- The only peer comes and goes. -/
def items : List Item :=
  [⟨join, (join.run start).1⟩, ⟨quit, (quit.run joined).1⟩]

theorem run_items : Run Step start items (quit.run joined).2 := by
  have hjoin : join.Valid start := (rfl : start.peers.lookup peerId = none)
  have hquit : quit.Valid joined := trivial
  exact .snoc (.snoc .nil (step_run hjoin)) (step_run hquit)

end RoomExample

open RoomExample in
theorem room_safe_emptied :
    items.map Item.assigned = [some (0, 0), none] ∧ items.map Item.autoEnds = [false, true] ∧
      RoomSafe community channel items (quit.run joined).2 :=
  ⟨by decide +kernel, by decide +kernel, room_safe run_items⟩

end Buzz.Audio
