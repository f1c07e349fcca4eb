import Buzz.Audio.RoomRuns
import Buzz.Lib.Replica

namespace Buzz.Audio
set_option autoImplicit true
open Replica

/-- Add who joined and remove who left. -/
def RosterDelta.apply (d : RosterDelta) (roster : Finset RosterPeer) : Finset RosterPeer :=
  (roster ∪ d.joined.toFinset) \ d.left.toFinset

def rosterChanges : Changes RosterDelta (Finset RosterPeer) :=
  ⟨RosterDelta.revision, RosterDelta.apply⟩

/-- A snapshot, with its peers as a set. -/
def RosterSnapshot.view (s : RosterSnapshot) : View (Finset RosterPeer) :=
  ⟨s.revision, s.peers.toFinset⟩

def Room.rosterView (room : Room) : View (Finset RosterPeer) :=
  room.rosterSnapshot.view

/-- What a room has published makes its roster. -/
structure Logged (room : Room) : Prop where
  numbered : Numbered rosterChanges room.published
  roster : room.rosterView = view rosterChanges ∅ room.published room.published.length

theorem Room.rosterView_eq (room : Room) :
    room.rosterView =
      ⟨room.guard.rosterRevision, (room.peers.contents fun _ p => {p.toRoster}).toFinset⟩ := by
  rw [Table.contents_singleton, List.toFinset_coe]
  exact congrArg (View.mk _) (List.toFinset_eq_of_perm _ _ (List.perm_insertionSort ..))

theorem Logged.new (c : CommunityId) (s : Uuid) : Logged (Room.new c s) where
  numbered := rfl
  roster := rfl

/-- A change that is counted, sent and made to the roster keeps the log. -/
theorem Logged.publish {room room' : Room} {d : RosterDelta} (h : Logged room)
    (hpublished : room'.published = room.published ++ [d])
    (hrevision : d.revision = room.guard.rosterRevision + 1)
    (hview : room'.rosterView = ⟨d.revision, d.apply room.rosterView.state⟩) : Logged room' := by
  have hcount : d.revision = UInt64.ofNat (room.published.length + 1) := by
    have hold : room.guard.rosterRevision = UInt64.ofNat room.published.length :=
      congrArg View.revision h.roster
    rw [hrevision, hold, UInt64.ofNat_add]
    rfl
  refine ⟨?_, ?_⟩
  · rw [hpublished]
    exact h.numbered.snoc hcount
  · have hlast : (room.published ++ [d]).take (room.published.length + 1) = room.published ++ [d] := by
      rw [← List.length_singleton (a := d), ← List.length_append, List.take_length]
    rw [hview, hpublished, h.roster, hcount, List.length_append, List.length_singleton, view, view,
      List.take_length, hlast, replay_append]
    rfl

theorem Logged.same {room room' : Room} (h : Logged room)
    (hpublished : room'.published = room.published) (hview : room'.rosterView = room.rosterView) :
    Logged room' := by
  refine ⟨?_, ?_⟩
  · rw [hpublished]
    exact h.numbered
  · rw [hview, hpublished]
    exact h.roster

theorem Logged.admitted {room : Room} (h : Logged room)
    (hfresh : room.peers.lookup newId = none) : Logged (room.admitted newId peer) := by
  apply h.publish (d := ⟨room.guard.rosterRevision + 1, some peer.toRoster, none⟩) rfl rfl
  rw [Room.rosterView_eq, Room.rosterView_eq]
  have hinsert : (room.admitted newId peer).peers = room.peers.insert newId peer := rfl
  rw [hinsert, Table.contents_insert, Table.erase_of_lookup_eq_none hfresh, Multiset.toFinset_add,
    Multiset.toFinset_singleton, Finset.union_comm]
  apply congrArg (View.mk _)
  rw [RosterDelta.apply]
  simp

/-- The indices tell the entries of the roster apart. -/
theorem Room.Inv.nodup_roster {room : Room} (h : room.Inv) :
    (room.peers.contents fun _ p => ({p.toRoster} : Multiset RosterPeer)).Nodup := by
  have hnodup := room.guard.activeIndices.nodup
  rw [← h.indices, Table.contents_singleton, Multiset.coe_nodup] at hnodup
  rw [Table.contents_singleton, Multiset.coe_nodup]
  apply List.Nodup.of_map RosterPeer.peerIndex
  rw [List.map_map]
  exact hnodup

theorem Logged.leave {room : Room} (h : Logged room) (hinv : room.Inv)
    (hlookup : room.peers.lookup peerId = some peer) : Logged (room.leave peerId peer).2 := by
  apply h.publish (d := ⟨room.guard.rosterRevision + 1, none, some peer.toRoster⟩) rfl rfl
  rw [Room.rosterView_eq, Room.rosterView_eq]
  have hsplit := Table.contents_erase (fun _ p => ({p.toRoster} : Multiset RosterPeer))
    room.peers peerId
  have hnodup := hinv.nodup_roster
  rw [hlookup, Option.elim_some] at hsplit
  rw [hsplit, Multiset.singleton_add, Multiset.nodup_cons] at hnodup
  have herase : (room.leave peerId peer).2.peers = room.peers.erase peerId := rfl
  rw [herase, hsplit]
  apply congrArg (View.mk _)
  have hnot : peer.toRoster ∉ (Table.contents (fun _ p => ({p.toRoster} : Multiset RosterPeer))
      (room.peers.erase peerId)).toFinset := by
    rw [Multiset.mem_toFinset]
    exact hnodup.1
  rw [RosterDelta.apply, Multiset.singleton_add, Multiset.toFinset_cons]
  change _ = (insert peer.toRoster _ ∪ ∅) \ {peer.toRoster}
  rw [Finset.union_empty, Finset.sdiff_singleton_eq_erase, Finset.erase_insert hnot]

theorem Logged.change {room room' : Room} {x : Item} (h : Logged room) (hinv : room.Inv)
    (hchange : Change room x room') : Logged room' := by
  cases hchange with
  | refused => exact h
  | admitted _ hfresh => exact h.admitted hfresh
  | left hlookup => exact h.leave hinv hlookup
  | emptied hlookup => exact (h.leave hinv hlookup).same rfl rfl
  | marked => exact h.same rfl rfl
  | cleared => exact h.same rfl rfl

theorem logged {c : CommunityId} {s : Uuid} {items : List Item} {room : Room}
    (h : Run Step (Room.new c s) items room) : Logged room := by
  induction h with
  | nil => exact .new c s
  | snoc hrun hstep ih =>
    have hinv := (history hrun).inv
    exact ih.change hinv (hstep.change hinv)

/-- A call publishes at most one delta. -/
theorem Change.published {room room' : Room} {x : Item} (h : Change room x room') :
    room'.published = room.published ∨ ∃ d, room'.published = room.published ++ [d] := by
  cases h with
  | refused => exact .inl rfl
  | admitted => exact .inr ⟨_, rfl⟩
  | left => exact .inr ⟨_, rfl⟩
  | emptied => exact .inr ⟨_, rfl⟩
  | marked => exact .inl rfl
  | cleared => exact .inl rfl

theorem exists_published_append {c : CommunityId} {s : Uuid} {items more : List Item}
    {room room' : Room} (h : Run Step (Room.new c s) items room) (hmore : Run Step room more room') :
    ∃ deltas, room'.published = room.published ++ deltas := by
  induction hmore with
  | nil => exact ⟨[], (List.append_nil _).symm⟩
  | snoc hrun hstep ih =>
    obtain ⟨deltas, hdeltas⟩ := ih
    rcases (hstep.change (history (h.append hrun)).inv).published with hsame | ⟨d, hd⟩
    · exact ⟨deltas, hsame.trans hdeltas⟩
    · exact ⟨deltas ++ [d], by rw [hd, hdeltas, List.append_assoc]⟩

/-- What a room showed after its first `n` deltas. -/
theorem exists_room {c : CommunityId} {s : Uuid} {items : List Item} {room : Room}
    (h : Run Step (Room.new c s) items room) (hn : n ≤ room.published.length) :
    ∃ past rest room', items = past ++ rest ∧ Run Step (Room.new c s) past room' ∧
      Run Step room' rest room ∧ room'.published = room.published.take n := by
  induction h with
  | nil =>
    have hnil : (Room.new c s).published = [] := rfl
    exact ⟨[], [], _, rfl, .nil, .nil, by rw [hnil, List.take_nil]⟩
  | @snoc items t u x hrun hstep ih =>
    have hlast : n = u.published.length →
        ∃ past rest room', items ++ [x] = past ++ rest ∧ Run Step (Room.new c s) past room' ∧
          Run Step room' rest u ∧ room'.published = u.published.take n := by
      rintro rfl
      exact ⟨items ++ [x], [], u, (List.append_nil _).symm, hrun.snoc hstep, .nil,
        (List.take_length).symm⟩
    have hearlier : n ≤ t.published.length → u.published.take n = t.published.take n →
        ∃ past rest room', items ++ [x] = past ++ rest ∧ Run Step (Room.new c s) past room' ∧
          Run Step room' rest u ∧ room'.published = u.published.take n := by
      intro hle htake
      obtain ⟨past, rest, room', rfl, hpast, hrest, hpublished⟩ := ih hle
      exact ⟨past, rest ++ [x], room', List.append_assoc .., hpast, hrest.snoc hstep,
        hpublished.trans htake.symm⟩
    rcases (hstep.change (history hrun).inv).published with hsame | ⟨d, hd⟩
    · rw [hsame] at hn
      exact hearlier hn (by rw [hsame])
    · rw [hd, List.length_append, List.length_singleton] at hn
      rcases Nat.lt_or_ge t.published.length n with hgt | hle
      · apply hlast
        rw [hd, List.length_append, List.length_singleton]
        omega
      · exact hearlier hle (by rw [hd, List.take_append_of_le_length hle])

def deltasBetween (s₁ s₂ : RosterSnapshot) (published : List RosterDelta) : List RosterDelta :=
  published.filter fun d => s₁.revision < d.revision ∧ d.revision ≤ s₂.revision

/-- The deltas between two snapshots make the second one of the first one. -/
structure Replicates (s₁ s₂ : RosterSnapshot) (published : List RosterDelta) : Prop where
  peers : (deltasBetween s₁ s₂ published).foldl (fun roster d => d.apply roster)
    s₁.peers.toFinset = s₂.peers.toFinset
  revision : (deltasBetween s₁ s₂ published).getLast?.elim s₁.revision RosterDelta.revision =
    s₂.revision
  once : ∀ r, s₁.revision < r → r ≤ s₂.revision →
    published.countP (fun d => d.revision == r) = 1

theorem Logged.replicates {room₁ room₂ : Room} (h₁ : Logged room₁) (h₂ : Logged room₂)
    (hnumbered : Numbered rosterChanges published) (hcount : published.length < 2 ^ 64)
    (hle : room₁.published.length ≤ room₂.published.length)
    (hpublished₁ : room₁.published = published.take room₁.published.length)
    (hpublished₂ : room₂.published = published.take room₂.published.length) :
    Replicates room₁.rosterSnapshot room₂.rosterSnapshot published := by
  have hview₁ := h₁.roster
  have hview₂ := h₂.roster
  generalize room₁.published.length = n at hle hpublished₁ hview₁
  generalize hm : room₂.published.length = m at hle hpublished₂ hview₂
  have hlength : m ≤ published.length := by
    rw [← hm, hpublished₂]
    exact List.length_take_le' ..
  rw [hpublished₁, view, List.take_take, Nat.min_self, ← view] at hview₁
  rw [hpublished₂, view, List.take_take, Nat.min_self, ← view] at hview₂
  have hrevision₁ : room₁.rosterSnapshot.revision = UInt64.ofNat n :=
    congrArg View.revision hview₁
  have hrevision₂ : room₂.rosterSnapshot.revision = UInt64.ofNat m :=
    congrArg View.revision hview₂
  have hbetween : deltasBetween room₁.rosterSnapshot room₂.rosterSnapshot published =
      (published.take m).drop n := by
    rw [deltasBetween, hrevision₁, hrevision₂]
    exact hnumbered.filter_eq hcount hle hlength
  refine ⟨?_, ?_, ?_⟩
  · have hpeers₁ : room₁.rosterSnapshot.peers.toFinset = (view rosterChanges ∅ published n).state :=
      congrArg View.state hview₁
    have hpeers₂ : room₂.rosterSnapshot.peers.toFinset = (view rosterChanges ∅ published m).state :=
      congrArg View.state hview₂
    rw [hbetween, hpeers₁, hpeers₂]
    exact replay_slice (C := rosterChanges) published ∅ hle
  · rw [hbetween, hrevision₁, hrevision₂]
    exact hnumbered.getLast_slice hle hlength
  · intro r hlow hhigh
    rw [hrevision₁] at hlow
    rw [hrevision₂] at hhigh
    apply hnumbered.countP_eq_one hcount
    · exact UInt64.lt_of_le_of_lt UInt64.zero_le hlow
    · exact UInt64.le_trans hhigh ((ofNat_le_ofNat hlength (Nat.le_refl _) hcount).mpr hlength)

/-- How many published deltas a receiver may be behind before the oldest ones are lost. -/
def ROSTER_CHANNEL_CAPACITY : Nat := 64

/-- A run with a receiver: the deltas that it has taken from the channel, and what it shows. It
subscribes and then takes a snapshot; when it has lagged, it needs a snapshot again. -/
inductive Receives (c : CommunityId) (s : Uuid) :
    List Item → Room → Nat → Option (View (Finset RosterPeer)) → Prop where
  | subscribe (h : Run Step (Room.new c s) items room) :
      Receives c s items room room.published.length none
  | call (h : Receives c s items room cursor shown) (hstep : Step room x room') :
      Receives c s (items ++ [x]) room' cursor shown
  | snapshot (h : Receives c s items room cursor shown) :
      Receives c s items room cursor (some room.rosterView)
  | delta (h : Receives c s items room cursor (some v))
      (hkept : room.published.length ≤ cursor + ROSTER_CHANNEL_CAPACITY)
      (hdelta : room.published[cursor]? = some d) :
      Receives c s items room (cursor + 1) (some (v.receive rosterChanges d))
  | lagged (h : Receives c s items room cursor shown)
      (hlost : cursor + ROSTER_CHANNEL_CAPACITY < room.published.length) :
      Receives c s items room (room.published.length - ROSTER_CHANNEL_CAPACITY) none

/-- What a receiver shows is the roster after some deltas, and it has taken no more than these. -/
structure Tracks (room : Room) (cursor : Nat) (shown : Option (View (Finset RosterPeer))) :
    Prop where
  taken : cursor ≤ room.published.length
  view : ∀ v ∈ shown, ∃ n, cursor ≤ n ∧ n ≤ room.published.length ∧
    v = Replica.view rosterChanges ∅ room.published n

theorem Receives.run {c : CommunityId} {s : Uuid} {items : List Item} {room : Room}
    (h : Receives c s items room cursor shown) : Run Step (Room.new c s) items room := by
  induction h with
  | subscribe hrun => exact hrun
  | call _ hstep ih => exact ih.snoc hstep
  | snapshot _ ih => exact ih
  | delta _ _ _ ih => exact ih
  | lagged _ _ ih => exact ih

theorem Receives.tracks {c : CommunityId} {s : Uuid} {items : List Item} {room : Room}
    (h : Receives c s items room cursor shown) (hcount : room.published.length < 2 ^ 64) :
    Tracks room cursor shown := by
  induction h with
  | subscribe => exact ⟨Nat.le_refl _, nofun⟩
  | @call items room cursor shown x room' hreceives hstep ih =>
    obtain ⟨deltas, hdeltas⟩ := exists_published_append hreceives.run (Run.nil.snoc hstep)
    have hle : room.published.length ≤ room'.published.length := by
      rw [hdeltas, List.length_append]
      exact Nat.le_add_right _ _
    have htracks := ih (Nat.lt_of_le_of_lt hle hcount)
    refine ⟨Nat.le_trans htracks.taken hle, ?_⟩
    intro v hv
    obtain ⟨n, hcursor, hn, hview⟩ := htracks.view v hv
    refine ⟨n, hcursor, Nat.le_trans hn hle, ?_⟩
    rw [hdeltas, view_append _ _ hn]
    exact hview
  | snapshot hreceives ih =>
    have htracks := ih hcount
    refine ⟨htracks.taken, ?_⟩
    rintro _ ⟨⟩
    exact ⟨_, htracks.taken, Nat.le_refl _, (logged hreceives.run).roster⟩
  | delta hreceives _ hdelta ih =>
    have htracks := ih hcount
    obtain ⟨hlt, rfl⟩ := List.getElem?_eq_some_iff.mp hdelta
    refine ⟨hlt, ?_⟩
    rintro _ ⟨⟩
    obtain ⟨n, hcursor, hn, rfl⟩ := htracks.view _ rfl
    refine ⟨max n _, Nat.le_max_right _ _, Nat.max_le.mpr ⟨hn, hlt⟩, ?_⟩
    exact (logged hreceives.run).numbered.receive_view hcount ∅ hn hlt hcursor
  | lagged _ _ ih => exact ⟨Nat.sub_le _ _, nofun⟩

/-- What a receiver shows, the owner has shown; once the receiver has taken every delta, it is
what the owner shows. -/
def Follows (c : CommunityId) (s : Uuid) (items : List Item) (room : Room) (cursor : Nat)
    (v : View (Finset RosterPeer)) : Prop :=
  (∃ past rest room', items = past ++ rest ∧ Run Step (Room.new c s) past room' ∧
    Run Step room' rest room ∧ v = room'.rosterView) ∧
  (cursor = room.published.length → v = room.rosterView)

theorem Receives.follows {c : CommunityId} {s : Uuid} {items : List Item} {room : Room}
    (h : Receives c s items room cursor (some v)) (hcount : room.published.length < 2 ^ 64) :
    Follows c s items room cursor v := by
  obtain ⟨n, hcursor, hn, rfl⟩ := (h.tracks hcount).view v rfl
  refine ⟨?_, ?_⟩
  · obtain ⟨past, rest, room', rfl, hpast, hrest, hpublished⟩ := exists_room h.run hn
    refine ⟨past, rest, room', rfl, hpast, hrest, ?_⟩
    rw [(logged hpast).roster, hpublished, List.length_take, Nat.min_eq_left hn, view, view,
      List.take_take, Nat.min_self]
  · rintro rfl
    rw [(logged h.run).roster, Nat.le_antisymm hn hcursor]

/-- In a run with fewer than 2^64 changes of the roster, the deltas between two snapshots make the
second one of the first one, and no receiver diverges. -/
theorem roster_replicates {c : CommunityId} {s : Uuid} {before between after : List Item}
    {room₁ room₂ room₃ : Room} (h₁ : Run Step (Room.new c s) before room₁)
    (h₂ : Run Step room₁ between room₂) (h₃ : Run Step room₂ after room₃)
    (hcount : room₃.published.length < 2 ^ 64) :
    Replicates room₁.rosterSnapshot room₂.rosterSnapshot room₃.published ∧
    ∀ items cursor v, Receives c s items room₃ cursor (some v) →
      Follows c s items room₃ cursor v := by
  refine ⟨?_, fun items cursor v h => h.follows hcount⟩
  have hrun₂ := h₁.append h₂
  obtain ⟨deltas, hdeltas⟩ := exists_published_append h₁ h₂
  obtain ⟨deltas', hdeltas'⟩ := exists_published_append hrun₂ h₃
  have htake₂ : room₂.published = room₃.published.take room₂.published.length := by
    rw [hdeltas', List.take_left]
  have htake₁ : room₁.published = room₃.published.take room₁.published.length := by
    rw [hdeltas', hdeltas, List.append_assoc, List.take_left]
  have hle : room₁.published.length ≤ room₂.published.length := by
    rw [hdeltas, List.length_append]
    exact Nat.le_add_right _ _
  exact (logged h₁).replicates (logged hrun₂) (logged (hrun₂.append h₃)).numbered hcount hle
    htake₁ htake₂

namespace RosterExample

open RoomExample

theorem run_join : Run Step start [⟨join, (join.run start).1⟩] joined := by
  have hjoin : join.Valid start := (rfl : start.peers.lookup peerId = none)
  exact Run.nil.snoc (step_run hjoin)

theorem run_quit :
    Run Step joined [⟨quit, (quit.run joined).1⟩] (quit.run joined).2 := by
  have hquit : quit.Valid joined := trivial
  exact Run.nil.snoc (step_run hquit)

end RosterExample

open RoomExample RosterExample in
theorem roster_replicates_emptied :
    joined.rosterSnapshot.peers = [⟨"alice", 0, 0⟩] ∧
      Replicates joined.rosterSnapshot (quit.run joined).2.rosterSnapshot
        (quit.run joined).2.published :=
  ⟨by decide +kernel, (roster_replicates run_join run_quit .nil (by decide +kernel)).1⟩

/-- Without peers, a room that has not ended admits one of its version. -/
structure Open (version : UInt8) (room : Room) : Prop where
  empty : room.peers = ∅
  live : room.guard.ended = false
  agrees : room.guard.mismatch version = none

theorem Room.addPeer_eq {room : Room} (hinv : room.Inv) (h : Open version room) (newId : Uuid)
    (pubkey : String) :
    ∃ peer, (room.addPeer newId pubkey version).2 = room.admitted newId peer ∧
      peer.protocolVersion = version := by
  have hlen : room.len = 0 := by
    rw [Room.len, h.empty]
    rfl
  have hcard : room.guard.activeIndices.card < 255 := by
    rw [← hinv.len_eq, hlen]
    decide
  obtain ⟨idx, _, _, halloc⟩ := AdmissionGuard.alloc_eq hinv.cursor hcard
  have hspace : ¬MAX_PEERS_PER_ROOM ≤ room.len := by
    rw [hlen]
    decide
  refine ⟨⟨pubkey, idx, (room.guard.indexEpochs.lookup idx).getD 0, version⟩, ?_, rfl⟩
  rw [Room.addPeer, h.live, if_neg Bool.false_ne_true, if_neg hspace, h.agrees]
  dsimp only
  rw [halloc]
  rfl

theorem AdmissionGuard.mismatch_pin {g : AdmissionGuard} (h : g.mismatch version = none) :
    (g.pin version).mismatch version = none := by
  rw [mismatch, pinnedVersion_pin h]
  exact if_neg (not_not.mpr rfl)

/-- A peer comes, and goes again. -/
theorem Open.round {c : CommunityId} {s : Uuid} {items : List Item} {room : Room}
    (h : Open version room) (hrun : Run Step (Room.new c s) items room) (newId : Uuid)
    (pubkey : String) :
    ∃ peer x y, Run Step room [x] (room.admitted newId peer) ∧
      Run Step (room.admitted newId peer) [y] ((room.admitted newId peer).leave newId peer).2 ∧
      Open version ((room.admitted newId peer).leave newId peer).2 := by
  obtain ⟨peer, hadd, hversion⟩ := Room.addPeer_eq (history hrun).inv h newId pubkey
  have hfresh : room.peers.lookup newId = none := by
    rw [h.empty]
    rfl
  have hlookup : (room.admitted newId peer).peers.lookup newId = some peer :=
    AList.lookup_insert _
  have hleave := @step_run (room.admitted newId peer) (.removePeer newId) trivial
  have hleft : ((Call.removePeer newId).run (room.admitted newId peer)).2 =
      ((room.admitted newId peer).leave newId peer).2 := by
    rw [Call.run, Room.removePeer, hlookup]
    rfl
  rw [hleft] at hleave
  have hjoin := @step_run room (.addPeer newId pubkey version) hfresh
  have hjoined : ((Call.addPeer newId pubkey version).run room).2 = room.admitted newId peer := hadd
  rw [hjoined] at hjoin
  refine ⟨peer, _, _, Run.nil.snoc hjoin, Run.nil.snoc hleave, ?_, h.live, ?_⟩
  · change (room.peers.insert newId peer).erase newId = ∅
    rw [h.empty]
    apply AList.ext
    exact List.kerase_cons_eq rfl
  · change ((room.guard.occupied peer.peerIndex).pin peer.protocolVersion).mismatch version = none
    rw [hversion]
    exact AdmissionGuard.mismatch_pin h.agrees

theorem exists_rounds (c : CommunityId) (s newId : Uuid) (pubkey : String) (version : UInt8)
    (k : Nat) :
    ∃ items room, Run Step (Room.new c s) items room ∧ Open version room ∧
      room.published.length = 2 * k := by
  induction k with
  | zero => exact ⟨[], _, .nil, ⟨rfl, rfl, rfl⟩, rfl⟩
  | succ k ih =>
    obtain ⟨items, room, hrun, hopen, hlength⟩ := ih
    obtain ⟨peer, x, y, hjoin, hleave, hopen'⟩ := hopen.round hrun newId pubkey
    refine ⟨_, _, (hrun.append hjoin).append hleave, hopen', ?_⟩
    change ((room.published ++ [_]) ++ [_]).length = 2 * (k + 1)
    rw [List.length_append, List.length_append, hlength]
    rfl

open RoomExample in
/-- The last of 2^64 changes of the roster has the revision zero, so its delta lies in no interval
of revisions. -/
theorem roster_wraps :
    ¬∀ (c : CommunityId) (s : Uuid) (before between after : List Item) (room₁ room₂ room₃ : Room),
      Run Step (Room.new c s) before room₁ → Run Step room₁ between room₂ →
      Run Step room₂ after room₃ →
      Replicates room₁.rosterSnapshot room₂.rosterSnapshot room₃.published := by
  intro hall
  obtain ⟨k, hk⟩ : ∃ k, 2 * k + 1 + 1 = 2 ^ 64 := ⟨2 ^ 63 - 1, by norm_num⟩
  obtain ⟨items, room, hrun, hopen, hlength⟩ :=
    exists_rounds community channel peerId "alice" 3 k
  obtain ⟨peer, x, y, hjoin, hleave, hopen'⟩ := hopen.round hrun peerId "alice"
  have hreplicates := hall _ _ _ _ _ _ _ _ (hrun.append hjoin) hleave .nil
  have hlogged := logged ((hrun.append hjoin).append hleave)
  have hzero : ((room.admitted peerId peer).leave peerId peer).2.rosterSnapshot.revision = 0 := by
    have hcount : ((room.admitted peerId peer).leave peerId peer).2.published.length =
        2 * k + 1 + 1 := by
      change ((room.published ++ [_]) ++ [_]).length = _
      rw [List.length_append, List.length_append, hlength, List.length_singleton,
        List.length_singleton]
    have hrevision : _ = UInt64.ofNat _ := congrArg View.revision hlogged.roster
    rw [hcount, hk] at hrevision
    exact hrevision.trans (by decide +kernel)
  have hnone (published : List RosterDelta) :
      deltasBetween (room.admitted peerId peer).rosterSnapshot
        ((room.admitted peerId peer).leave peerId peer).2.rosterSnapshot published = [] := by
    rw [deltasBetween, hzero, List.filter_eq_nil_iff]
    intro d _ hd
    have hbounds := of_decide_eq_true hd
    exact absurd (UInt64.lt_of_lt_of_le hbounds.1 hbounds.2) (UInt64.not_lt.mpr UInt64.zero_le)
  have hpeers := hreplicates.peers
  rw [hnone] at hpeers
  have hempty : ((room.admitted peerId peer).leave peerId peer).2.rosterSnapshot.peers = [] := by
    rw [Room.rosterSnapshot, hopen'.empty]
    rfl
  have hsingle : (room.admitted peerId peer).rosterSnapshot.peers = [peer.toRoster] := by
    have hpeers : (room.admitted peerId peer).peers = (∅ : Table Uuid AudioPeer).insert peerId peer := by
      change room.peers.insert peerId peer = _
      rw [hopen.empty]
    rw [Room.rosterSnapshot, hpeers]
    rfl
  rw [hempty, hsingle] at hpeers
  exact absurd hpeers (by simp)

end Buzz.Audio
