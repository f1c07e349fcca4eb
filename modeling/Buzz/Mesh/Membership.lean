import Buzz.Lib.LastWins
import Buzz.Lib.Table
import Buzz.Tunnel.Directory

namespace Buzz.Mesh
set_option autoImplicit true
open LastWins
open Tunnel (RuntimeId)

/-- What one runtime tells about itself. -/
structure GossipRecord where
  runtimeId : RuntimeId
  endpointAddrs : List String
  protoVersion : UInt16
  -- the bits of a float
  load : UInt32
  draining : Bool
  capabilities : List String
  version : UInt64
  heartbeatMillis : UInt64
deriving DecidableEq

def GossipRecord.new (runtimeId : RuntimeId) (endpointAddrs : List String)
    (protoVersion : UInt16) (nowMillis : UInt64) : GossipRecord :=
  ⟨runtimeId, endpointAddrs, protoVersion, 0, false, [], 1, nowMillis⟩

structure GossipDigestEntry where
  runtimeId : RuntimeId
  version : UInt64
deriving DecidableEq

def gossipPayloadVersion : UInt8 := 1

inductive GossipMessage where
  | digest (version : UInt8) (entries : List GossipDigestEntry)
  | delta (version : UInt8) (records : List GossipRecord)
deriving DecidableEq

/-- The intervals between heartbeats, in milliseconds. -/
structure PhiAccrual where
  samples : List Nat
  lastHeartbeat : Option Nat
  maxSamples : Nat
deriving DecidableEq

def PhiAccrual.new (maxSamples : Nat) : PhiAccrual :=
  ⟨[], none, max maxSamples 1⟩

def PhiAccrual.observe (at_ : Nat) (phi : PhiAccrual) : PhiAccrual :=
  let samples := match phi.lastHeartbeat with
    | some prev =>
      -- a heartbeat from before the last one gives no interval
      if prev < at_ then
        let samples := phi.samples ++ [at_ - prev]
        if phi.maxSamples < samples.length then samples.tail else samples
      else phi.samples
    | none => phi.samples
  ⟨samples, some at_, phi.maxSamples⟩

inductive ConnectionState where
  | disconnected
  | connecting
  | connected
  | suspect
deriving DecidableEq

structure MeshPeerCounters where
  runtimeId : String
  streamsOpened : UInt64
  streamsReceived : UInt64
  datagramsSent : UInt64
  datagramsReceived : UInt64
  gossipFramesSent : UInt64
  gossipFramesReceived : UInt64
  staleGenerationRejections : UInt64
deriving DecidableEq

structure PeerState where
  record : GossipRecord
  phi : PhiAccrual
  connectionState : ConnectionState
  counters : MeshPeerCounters
deriving DecidableEq

/-- The view that a relay has of the mesh. -/
structure MeshMembership where
  localRuntimeId : RuntimeId
  localRecord : GossipRecord
  peers : Table RuntimeId PeerState

namespace MeshMembership

def new (localRecord : GossipRecord) : MeshMembership :=
  ⟨localRecord.runtimeId, localRecord, ∅⟩

/-- Apply a gossiped record if it is newer than the local copy. -/
def applyGossipRecord (record : GossipRecord) (m : MeshMembership) : Bool × MeshMembership :=
  if record.runtimeId = m.localRuntimeId then (false, m)
  else
    let heartbeat := record.heartbeatMillis.toNat
    match m.peers.lookup record.runtimeId with
    | some peer =>
      if record.version ≤ peer.record.version then (false, m)
      else
        let peer := { peer with
          record, connectionState := .connected, phi := peer.phi.observe heartbeat }
        (true, { m with peers := m.peers.insert record.runtimeId peer })
    | none =>
      let peer := ⟨record, (PhiAccrual.new 100).observe heartbeat, .connected,
        ⟨record.runtimeId.toHex, 0, 0, 0, 0, 0, 0, 0⟩⟩
      (true, { m with peers := m.peers.insert record.runtimeId peer })

def saturatingSucc (version : UInt64) : UInt64 :=
  if version.toNat + 1 < UInt64.size then version + 1 else version

def updateLocal (update : GossipRecord → GossipRecord) (nowMillis : UInt64)
    (m : MeshMembership) : GossipRecord × MeshMembership :=
  let updated := update m.localRecord
  let record := { updated with
    version := saturatingSucc updated.version, heartbeatMillis := nowMillis }
  (record, { m with localRecord := record })

/-- All known gossip records. -/
def records (m : MeshMembership) : List GossipRecord :=
  (m.peers.entries.map fun e => e.2.record) ++ [m.localRecord]

/-- A digest entry for every record this runtime knows. -/
def digestEntries (m : MeshMembership) : List GossipDigestEntry :=
  (m.records.map fun record => ⟨record.runtimeId, record.version⟩).insertionSort
    fun a b => a.runtimeId.toHex ≤ b.runtimeId.toHex

def digest (m : MeshMembership) : GossipMessage :=
  .digest gossipPayloadVersion m.digestEntries

/-- The version of each runtime in a digest, its last one. -/
def remoteVersions (entries : List GossipDigestEntry) : Table RuntimeId UInt64 :=
  entries.foldl (fun remote entry => remote.insert entry.runtimeId entry.version) ∅

/-- Records the remote digest is missing or behind on. -/
def deltaRecords (entries : List GossipDigestEntry) (m : MeshMembership) : List GossipRecord :=
  let remote := remoteVersions entries
  let records := m.records.filter fun record =>
    (remote.lookup record.runtimeId).all (· < record.version)
  records.insertionSort fun a b => a.runtimeId.toHex ≤ b.runtimeId.toHex

def deltaFor (entries : List GossipDigestEntry) (m : MeshMembership) : GossipMessage :=
  .delta gossipPayloadVersion (m.deltaRecords entries)

end MeshMembership

def versioned : Versioned RuntimeId GossipRecord :=
  ⟨GossipRecord.runtimeId, fun r => r.version.toNat⟩

namespace MeshMembership

/-- What a membership knows of a runtime. -/
def known (m : MeshMembership) (id : RuntimeId) : Option GossipRecord :=
  if id = m.localRuntimeId then some m.localRecord else (m.peers.lookup id).map PeerState.record

/-- The records of a membership are under the runtimes that they tell of. -/
structure Keyed (m : MeshMembership) : Prop where
  own : m.localRecord.runtimeId = m.localRuntimeId
  notOwn : m.peers.lookup m.localRuntimeId = none
  peer : ∀ id p, m.peers.lookup id = some p → p.record.runtimeId = id

variable {m : MeshMembership} {id : RuntimeId} {r : GossipRecord}

theorem Keyed.new (r : GossipRecord) : (new r).Keyed where
  own := rfl
  notOwn := rfl
  peer _ _ h := by cases h

theorem known_local (m : MeshMembership) : m.known m.localRuntimeId = some m.localRecord :=
  if_pos rfl

theorem known_of_ne (h : id ≠ m.localRuntimeId) :
    m.known id = (m.peers.lookup id).map PeerState.record :=
  if_neg h

theorem Keyed.runtimeId_of_known (h : m.Keyed) (hknown : m.known id = some r) :
    r.runtimeId = id := by
  by_cases hid : id = m.localRuntimeId
  · subst hid
    rw [known_local, Option.some.injEq] at hknown
    rw [← hknown, h.own]
  · rw [known_of_ne hid, Option.map_eq_some_iff] at hknown
    obtain ⟨p, hlookup, rfl⟩ := hknown
    exact h.peer id p hlookup

theorem Keyed.mem_records (h : m.Keyed) : r ∈ m.records ↔ m.known r.runtimeId = some r := by
  rw [MeshMembership.records, List.mem_append, List.mem_map, List.mem_singleton]
  constructor
  · intro hr
    rcases hr with ⟨⟨id, p⟩, he, rfl⟩ | rfl
    · have hlookup := AList.mem_lookup_iff.mpr he
      have hid : p.record.runtimeId ≠ m.localRuntimeId := by
        intro hid
        rw [h.peer id p hlookup] at hid
        rw [hid, h.notOwn] at hlookup
        cases hlookup
      rw [known_of_ne hid, h.peer id p hlookup, hlookup]
      rfl
    · rw [h.own, known_local]
  · intro hr
    by_cases hid : r.runtimeId = m.localRuntimeId
    · rw [hid, known_local, Option.some.injEq] at hr
      exact .inr hr.symm
    · rw [known_of_ne hid, Option.map_eq_some_iff] at hr
      obtain ⟨p, hlookup, hp⟩ := hr
      exact .inl ⟨⟨r.runtimeId, p⟩, AList.mem_lookup_iff.mp hlookup, hp⟩

/-- A record is kept where it is of another runtime and newer, and changes nothing else. -/
theorem applyGossipRecord_cases (r : GossipRecord) (m : MeshMembership) :
    (m.applyGossipRecord r = (false, m) ∧ (r.runtimeId = m.localRuntimeId ∨
      ¬rank versioned (m.known r.runtimeId) < versioned.version r)) ∨
    (r.runtimeId ≠ m.localRuntimeId ∧ rank versioned (m.known r.runtimeId) < versioned.version r ∧
      ∃ p : PeerState, p.record = r ∧
        m.applyGossipRecord r = (true, { m with peers := m.peers.insert r.runtimeId p })) := by
  by_cases hid : r.runtimeId = m.localRuntimeId
  · exact .inl ⟨if_pos hid, .inl hid⟩
  · have hknown := known_of_ne hid
    rw [applyGossipRecord, if_neg hid, hknown]
    cases hlookup : m.peers.lookup r.runtimeId with
    | none => exact .inr ⟨hid, WithBot.bot_lt_coe _, _, rfl, rfl⟩
    | some p =>
      rw [Option.map_some, rank_some, Nat.cast_lt]
      by_cases hle : r.version ≤ p.record.version
      · exact .inl ⟨if_pos hle, .inr (not_lt.mpr (UInt64.le_iff_toNat_le.mp hle))⟩
      · have hlt : p.record.version.toNat < r.version.toNat :=
          not_le.mp fun h => hle (UInt64.le_iff_toNat_le.mpr h)
        exact .inr ⟨hid, hlt, _, rfl, if_neg hle⟩

theorem own_applyGossipRecord (r : GossipRecord) (m : MeshMembership) :
    (m.applyGossipRecord r).2.localRuntimeId = m.localRuntimeId ∧
      (m.applyGossipRecord r).2.localRecord = m.localRecord := by
  obtain ⟨happly, _⟩ | ⟨_, _, p, _, happly⟩ := applyGossipRecord_cases r m
  · rw [happly]
    exact ⟨rfl, rfl⟩
  · rw [happly]
    exact ⟨rfl, rfl⟩

theorem Keyed.applyGossipRecord (h : m.Keyed) (r : GossipRecord) :
    (m.applyGossipRecord r).2.Keyed := by
  obtain ⟨happly, _⟩ | ⟨hid, _, p, hp, happly⟩ := applyGossipRecord_cases r m
  · rw [happly]
    exact h
  · rw [happly]
    refine ⟨h.own, ?_, ?_⟩
    · rw [AList.lookup_insert_ne (Ne.symm hid)]
      exact h.notOwn
    · intro id p' hlookup
      by_cases hkey : id = r.runtimeId
      · subst hkey
        rw [AList.lookup_insert, Option.some.injEq] at hlookup
        rw [← hlookup, hp]
      · rw [AList.lookup_insert_ne hkey] at hlookup
        exact h.peer id p' hlookup

theorem known_insert {p : PeerState} (hid : r.runtimeId ≠ m.localRuntimeId) (hp : p.record = r) :
    { m with peers := m.peers.insert r.runtimeId p }.known =
      Function.update m.known r.runtimeId (some r) := by
  funext id
  rw [known]
  by_cases hown : id = m.localRuntimeId
  · rw [if_pos hown, Function.update_of_ne (hown.trans_ne (Ne.symm hid)), hown, known_local]
  · rw [if_neg hown]
    by_cases hkey : id = r.runtimeId
    · subst hkey
      rw [AList.lookup_insert, Option.map_some, hp, Function.update_self]
    · rw [AList.lookup_insert_ne hkey, Function.update_of_ne hkey, known_of_ne hown]

/-- A gossiped record is accepted, unless it is of the runtime itself. -/
theorem known_applyGossipRecord (r : GossipRecord) (m : MeshMembership) :
    (m.applyGossipRecord r).2.known =
      if r.runtimeId = m.localRuntimeId then m.known else accept versioned r m.known := by
  obtain ⟨happly, hwhy⟩ | ⟨hid, hlt, p, hp, happly⟩ := applyGossipRecord_cases r m
  · rw [happly]
    rcases hwhy with hid | hge
    · exact (if_pos hid).symm
    · have hsame : accept versioned r m.known = m.known := if_neg hge
      rw [hsame, ite_self]
  · have hnew : accept versioned r m.known = Function.update m.known r.runtimeId (some r) :=
      if_pos hlt
    rw [happly, if_neg hid, hnew]
    exact known_insert hid hp

theorem le_saturatingSucc (version : UInt64) :
    version.toNat ≤ (saturatingSucc version).toNat := by
  rw [saturatingSucc]
  split
  · rename_i h
    have hone : (1 : UInt64).toNat = 1 := rfl
    rw [UInt64.toNat_add, hone, Nat.mod_eq_of_lt h]
    exact Nat.le_succ _
  · exact le_refl _

theorem known_updateLocal (f : GossipRecord → GossipRecord) (now : UInt64) (m : MeshMembership) :
    (m.updateLocal f now).2.known =
      Function.update m.known m.localRuntimeId (some (m.updateLocal f now).1) := by
  funext id
  rw [known]
  by_cases hown : id = m.localRuntimeId
  · subst hown
    rw [Function.update_self]
    exact if_pos rfl
  · rw [Function.update_of_ne hown, known_of_ne hown]
    exact if_neg hown

/-- What a record of a delta is, to the digest that it answers. -/
theorem Keyed.mem_deltaRecords (h : m.Keyed) {entries : List GossipDigestEntry} :
    r ∈ m.deltaRecords entries ↔ m.known r.runtimeId = some r ∧
      ∀ v, (remoteVersions entries).lookup r.runtimeId = some v → v < r.version := by
  rw [deltaRecords, List.mem_insertionSort, List.mem_filter, h.mem_records, Option.all_eq_true]
  simp only [decide_eq_true_eq]

theorem mem_of_remoteVersions {entries : List GossipDigestEntry} {v : UInt64}
    (h : (remoteVersions entries).lookup id = some v) : ⟨id, v⟩ ∈ entries := by
  induction entries using List.reverseRecOn with
  | nil => cases h
  | append_singleton entries entry ih =>
    rw [remoteVersions, List.foldl_append, List.foldl_cons, List.foldl_nil] at h
    rw [List.mem_append, List.mem_singleton]
    by_cases hid : id = entry.runtimeId
    · subst hid
      rw [AList.lookup_insert, Option.some.injEq] at h
      rw [← h]
      exact .inr rfl
    · rw [AList.lookup_insert_ne hid] at h
      exact .inl (ih h)

theorem Keyed.mem_digestEntries (h : m.Keyed) {v : UInt64} (hv : ⟨id, v⟩ ∈ m.digestEntries) :
    ∃ r, m.known id = some r ∧ r.version = v := by
  rw [digestEntries, List.mem_insertionSort, List.mem_map] at hv
  obtain ⟨r, hr, heq⟩ := hv
  rw [GossipDigestEntry.mk.injEq] at heq
  rw [h.mem_records, heq.1] at hr
  exact ⟨r, hr, heq.2⟩

end MeshMembership

end Buzz.Mesh
