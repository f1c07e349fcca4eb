import Buzz.Core.Nostr
import Buzz.Lib.Table

namespace Buzz.Audio
set_option autoImplicit true

/-- A connected peer. -/
structure AudioPeer where
  pubkey : String
  peerIndex : UInt8
  epoch : UInt8
  protocolVersion : UInt8
deriving DecidableEq

def MAX_PEERS_PER_ROOM : Nat := 25

structure RosterPeer where
  pubkey : String
  peerIndex : UInt8
  epoch : UInt8
deriving DecidableEq

def AudioPeer.toRoster (p : AudioPeer) : RosterPeer :=
  ⟨p.pubkey, p.peerIndex, p.epoch⟩

/-- A complete roster at one revision. -/
structure RosterSnapshot where
  revision : UInt64
  peers : List RosterPeer
deriving DecidableEq

structure RosterDelta where
  revision : UInt64
  joined : Option RosterPeer
  left : Option RosterPeer
deriving DecidableEq

structure PeerAdmission where
  peerId : Uuid
  peerIndex : UInt8
  epoch : UInt8
  revision : UInt64
deriving DecidableEq

structure IndexedPeerAdmission where
  peerId : Uuid
  epoch : UInt8
  revision : UInt64
deriving DecidableEq

inductive AdmissionError where
  | ended
  | full
  | versionMismatch (pinned requested : UInt8)
deriving DecidableEq

/-- What is changed only under the admission lock. -/
structure AdmissionGuard where
  nextCandidate : UInt8
  activeIndices : Finset UInt8
  indexEpochs : Table UInt8 UInt8
  ended : Bool
  pinnedVersion : Option UInt8
  rosterRevision : UInt64
deriving DecidableEq

/-- The routing identities are 0 to 254. -/
def candidateAfter (idx : UInt8) : UInt8 :=
  if idx = 254 then 0 else idx + 1

namespace AdmissionGuard

def new : AdmissionGuard :=
  ⟨0, ∅, ∅, false, none, 0⟩

/-- The epoch of the next occupant of an index. -/
def nextEpochFor (idx : UInt8) (g : AdmissionGuard) : UInt8 × AdmissionGuard :=
  let epoch := (g.indexEpochs.lookup idx).getD 0
  (epoch, { g with indexEpochs := g.indexEpochs.insert idx (epoch + 1) })

/-- The loop of `alloc`, with `n` probes left. -/
def allocLoop : Nat → AdmissionGuard → Option (UInt8 × UInt8) × AdmissionGuard
  | 0, g => (none, g)
  | n + 1, g =>
    let idx := g.nextCandidate
    let g := { g with nextCandidate := candidateAfter idx }
    if idx ∈ g.activeIndices then allocLoop n g
    else
      let g := { g with activeIndices := insert idx g.activeIndices }
      let (epoch, g) := g.nextEpochFor idx
      (some (idx, epoch), g)

def alloc (g : AdmissionGuard) : Option (UInt8 × UInt8) × AdmissionGuard :=
  allocLoop 255 g

/-- The version of the first peer is the version of the room. -/
def pin (version : UInt8) (g : AdmissionGuard) : AdmissionGuard :=
  { g with pinnedVersion := some (g.pinnedVersion.getD version) }

/-- The version that a peer would break. -/
def mismatch (requested : UInt8) (g : AdmissionGuard) : Option UInt8 :=
  match g.pinnedVersion with
  | some pinned => if pinned ≠ requested then some pinned else none
  | none => none

end AdmissionGuard

/-- An audio room, with the roster changes in the order in which it has published them. -/
structure Room where
  communityId : CommunityId
  channelId : Uuid
  peers : Table Uuid AudioPeer
  guard : AdmissionGuard
  published : List RosterDelta

namespace Room

def new (communityId : CommunityId) (channelId : Uuid) : Room :=
  ⟨communityId, channelId, ∅, .new, []⟩

def isEmpty (room : Room) : Bool :=
  room.peers.entries.isEmpty

def len (room : Room) : Nat :=
  room.peers.entries.length

def markEnded (room : Room) : Bool × Room :=
  (room.isEmpty, { room with guard := { room.guard with ended := true } })

def clearEnded (room : Room) : Room :=
  { room with guard := { room.guard with ended := false } }

/-- Count and send a change of the roster. -/
def publish (joined left : Option RosterPeer) (room : Room) : RosterDelta × Room :=
  let revision := room.guard.rosterRevision + 1
  let delta := ⟨revision, joined, left⟩
  (delta,
    { room with
      guard := { room.guard with rosterRevision := revision }
      published := room.published ++ [delta] })

/-- The end of both admissions. -/
def enter (peerId : Uuid) (peer : AudioPeer) (room : Room) : RosterDelta × Room :=
  publish (some peer.toRoster) none { room with peers := room.peers.insert peerId peer }

/-- The start of both removals. -/
def leave (peerId : Uuid) (peer : AudioPeer) (room : Room) : RosterDelta × Room :=
  publish none (some peer.toRoster)
    { room with
      peers := room.peers.erase peerId
      guard := { room.guard with activeIndices := room.guard.activeIndices.erase peer.peerIndex } }

/-- `newId` is the identifier that was drawn for the peer. -/
def addPeer (newId : Uuid) (pubkey : String) (requestedVersion : UInt8) (room : Room) :
    Except AdmissionError PeerAdmission × Room :=
  if room.guard.ended then (.error .ended, room)
  else if MAX_PEERS_PER_ROOM ≤ room.len then (.error .full, room)
  else
    match room.guard.mismatch requestedVersion with
    | some pinned => (.error (.versionMismatch pinned requestedVersion), room)
    | none =>
      match room.guard.alloc with
      | (none, g) => (.error .full, { room with guard := g })
      | (some (peerIndex, epoch), g) =>
        let (delta, room) := { room with guard := g.pin requestedVersion }.enter newId
          ⟨pubkey, peerIndex, epoch, requestedVersion⟩
        (.ok ⟨newId, peerIndex, epoch, delta.revision⟩, room)

def addPeerAtIndex (newId : Uuid) (pubkey : String) (requestedVersion peerIndex : UInt8)
    (room : Room) : Except AdmissionError IndexedPeerAdmission × Room :=
  if room.guard.ended then (.error .ended, room)
  else if MAX_PEERS_PER_ROOM ≤ room.len ∨ peerIndex ∈ room.guard.activeIndices then
    (.error .full, room)
  else
    match room.guard.mismatch requestedVersion with
    | some pinned => (.error (.versionMismatch pinned requestedVersion), room)
    | none =>
      let g := room.guard.pin requestedVersion
      let g := { g with activeIndices := insert peerIndex g.activeIndices }
      let (epoch, g) := g.nextEpochFor peerIndex
      let g := { g with nextCandidate := candidateAfter peerIndex }
      let (delta, room) := { room with guard := g }.enter newId
        ⟨pubkey, peerIndex, epoch, requestedVersion⟩
      (.ok ⟨newId, epoch, delta.revision⟩, room)

def removePeer (peerId : Uuid) (room : Room) : Option RosterDelta × Room :=
  match room.peers.lookup peerId with
  | none => (none, room)
  | some peer =>
    let (delta, room) := room.leave peerId peer
    (some delta, room)

/-- The first removal that leaves the room empty ends it. -/
def removePeerAndCheckEnded (peerId : Uuid) (room : Room) : Option (RosterDelta × Bool) × Room :=
  match room.peers.lookup peerId with
  | none => (none, room)
  | some peer =>
    let (delta, room) := room.leave peerId peer
    if !room.guard.ended && room.isEmpty then
      (some (delta, true), { room with guard := { room.guard with ended := true } })
    else (some (delta, false), room)

def rosterSnapshot (room : Room) : RosterSnapshot :=
  ⟨room.guard.rosterRevision,
    (room.peers.entries.map fun e => e.2.toRoster).insertionSort
      fun p q => p.peerIndex ≤ q.peerIndex⟩

end Room

end Buzz.Audio
