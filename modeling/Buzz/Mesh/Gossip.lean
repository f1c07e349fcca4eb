import Buzz.Lib.Run
import Buzz.Mesh.Membership

namespace Buzz.Mesh
set_option autoImplicit true
open LastWins
open Tunnel (RuntimeId)

/-- The nodes, and all that each has ever sent: a message may be lost, repeated or overtaken. -/
structure System where
  node : RuntimeId → Option MeshMembership
  sent : List (RuntimeId × GossipMessage)

namespace System

def set (s : System) (i : RuntimeId) (m : MeshMembership) : System :=
  { s with node := Function.update s.node i (some m) }

def send (s : System) (i : RuntimeId) (message : GossipMessage) : System :=
  { s with sent := s.sent ++ [(i, message)] }

/-- What each runtime knows of itself. -/
def own (s : System) (id : RuntimeId) : Option GossipRecord :=
  (s.node id).map MeshMembership.localRecord

end System

inductive Event where
  | update (i : RuntimeId)
  | digest (i : RuntimeId) (entries : List GossipDigestEntry)
  | answer (i : RuntimeId) (entries : List GossipDigestEntry) (records : List GossipRecord)
  | receive (i source : RuntimeId) (r : GossipRecord)

/-- The mesh, where `content` is the one record that a runtime makes of a version. -/
inductive Step (content : RuntimeId → UInt64 → GossipRecord) : System → Event → System → Prop where
  | update {s : System} {i : RuntimeId} {m : MeshMembership} {f : GossipRecord → GossipRecord}
      {now : UInt64} (hnode : s.node i = some m)
      -- the closures set the draining flag or nothing
      (hid : (f m.localRecord).runtimeId = m.localRecord.runtimeId)
      (hversion : (f m.localRecord).version = m.localRecord.version)
      (hcontent : (m.updateLocal f now).1 = content i (m.updateLocal f now).1.version) :
      Step content s (.update i) (s.set i (m.updateLocal f now).2)
  | digest {s : System} {i : RuntimeId} {m : MeshMembership} (hnode : s.node i = some m) :
      Step content s (.digest i m.digestEntries) (s.send i m.digest)
  | answer {s : System} {i j : RuntimeId} {m : MeshMembership} {version : UInt8}
      {entries : List GossipDigestEntry} (hnode : s.node i = some m)
      (hsent : (j, .digest version entries) ∈ s.sent) :
      Step content s (.answer i entries (m.deltaRecords entries)) (s.send i (m.deltaFor entries))
  -- the records of a delta are applied one by one, with others in between
  | receive {s : System} {i j : RuntimeId} {m : MeshMembership} {version : UInt8}
      {delta : List GossipRecord} {r : GossipRecord} (hnode : s.node i = some m)
      (hsent : (j, .delta version delta) ∈ s.sent) (hr : r ∈ delta) :
      Step content s (.receive i j r) (s.set i (m.applyGossipRecord r).2)

/-- Every node is new, with its own record only. -/
def Start (content : RuntimeId → UInt64 → GossipRecord) (s : System) : Prop :=
  s.sent = [] ∧ ∀ i m, s.node i = some m →
    ∃ r, m = .new r ∧ r.runtimeId = i ∧ r = content i r.version

def Genuine (content : RuntimeId → UInt64 → GossipRecord)
    (known : RuntimeId → Option GossipRecord) : Prop :=
  ∀ id r, known id = some r → r = content id r.version

/-- What a node holds is genuine, and no newer than what each runtime has made of itself. -/
structure Sound (content : RuntimeId → UInt64 → GossipRecord) (own : RuntimeId → Option GossipRecord)
    (i : RuntimeId) (m : MeshMembership) : Prop where
  keyed : m.Keyed
  named : m.localRuntimeId = i
  genuine : Genuine content m.known
  newest : Le versioned m.known own

/-- A node has sent no record that it does not know, or a newer one for it. -/
def Sent (content : RuntimeId → UInt64 → GossipRecord) (known : RuntimeId → Option GossipRecord)
    (r : GossipRecord) : Prop :=
  r = content r.runtimeId r.version ∧
    (versioned.version r : WithBot Nat) ≤ rank versioned (known r.runtimeId)

structure Inv (content : RuntimeId → UInt64 → GossipRecord) (s : System) : Prop where
  sound : ∀ i m, s.node i = some m → Sound content s.own i m
  sent : ∀ i version records, (i, .delta version records) ∈ s.sent →
    ∃ m, s.node i = some m ∧ ∀ r ∈ records, Sent content m.known r

variable {content : RuntimeId → UInt64 → GossipRecord} {s t : System}

theorem Inv.start (h : Start content s) : Inv content s := by
  obtain ⟨hsent, hnew⟩ := h
  refine ⟨?_, ?_⟩
  · intro i m hnode
    obtain ⟨r, rfl, rfl, hr⟩ := hnew i m hnode
    have hempty : ∀ id ≠ r.runtimeId, (MeshMembership.new r).known id = none :=
      fun id hid => MeshMembership.known_of_ne hid
    refine ⟨.new r, rfl, ?_, ?_⟩
    · intro id r' hknown
      by_cases hid : id = r.runtimeId
      · subst hid
        cases hknown.symm.trans (MeshMembership.known_local (.new r))
        exact hr
      · rw [hempty id hid] at hknown
        cases hknown
    · intro id
      by_cases hid : id = r.runtimeId
      · subst hid
        rw [System.own, hnode]
        exact le_of_eq (congrArg _ (MeshMembership.known_local (.new r)))
      · rw [hempty id hid]
        exact bot_le
  · intro i version records hmem
    rw [hsent] at hmem
    cases hmem

theorem Sent.mono {f g : RuntimeId → Option GossipRecord} (h : Sent content f r)
    (hle : Le versioned f g) : Sent content g r :=
  ⟨h.1, h.2.trans (hle _)⟩

theorem Sound.mono {f g : RuntimeId → Option GossipRecord} (h : Sound content f i m)
    (hle : Le versioned f g) : Sound content g i m :=
  ⟨h.keyed, h.named, h.genuine, h.newest.trans hle⟩

theorem Sound.known_self (h : Sound content f i m) : m.known i = some m.localRecord := by
  rw [← h.named]
  exact m.known_local

theorem System.node_set_self (s : System) (i : RuntimeId) (m : MeshMembership) :
    (s.set i m).node i = some m :=
  Function.update_self ..

theorem System.node_set_of_ne (s : System) (m : MeshMembership) (h : j ≠ i) :
    (s.set i m).node j = s.node j :=
  Function.update_of_ne h ..

theorem System.own_set (s : System) (i : RuntimeId) (m : MeshMembership) :
    (s.set i m).own = Function.update s.own i (some m.localRecord) := by
  funext id
  rw [System.own]
  by_cases hid : id = i
  · subst hid
    rw [node_set_self, Function.update_self, Option.map_some]
  · rw [node_set_of_ne s m hid, Function.update_of_ne hid, System.own]

/-- A node that comes to know more, all of it genuine. -/
theorem Inv.set {m m' : MeshMembership} (h : Inv content s) (hnode : s.node i = some m)
    (hle : Le versioned m.known m'.known) (hsound : Sound content (s.set i m').own i m') :
    Inv content (s.set i m') := by
  have hown : Le versioned s.own (s.set i m').own := by
    intro id
    rw [s.own_set]
    by_cases hid : id = i
    · subst hid
      have hrank := hle id
      rw [(h.sound id m hnode).known_self, hsound.known_self] at hrank
      rw [Function.update_self, System.own, hnode]
      exact hrank
    · rw [Function.update_of_ne hid]
  refine ⟨?_, ?_⟩
  · intro j mj hj
    by_cases hji : j = i
    · subst hji
      rw [s.node_set_self, Option.some.injEq] at hj
      rw [← hj]
      exact hsound
    · rw [s.node_set_of_ne m' hji] at hj
      exact (h.sound j mj hj).mono hown
  · intro j version records hmem
    obtain ⟨mj, hj, hrecords⟩ := h.sent j version records hmem
    by_cases hji : j = i
    · subst hji
      rw [hnode, Option.some.injEq] at hj
      subst hj
      exact ⟨m', s.node_set_self j m', fun r hr => (hrecords r hr).mono hle⟩
    · exact ⟨mj, (s.node_set_of_ne m' hji).trans hj, hrecords⟩

theorem Inv.send {m : MeshMembership} (h : Inv content s) (hnode : s.node i = some m)
    (hmessage : ∀ version records, message = .delta version records →
      ∀ r ∈ records, Sent content m.known r) : Inv content (s.send i message) := by
  refine ⟨h.sound, ?_⟩
  intro j version records hmem
  rw [System.send, List.mem_append, List.mem_singleton] at hmem
  rcases hmem with hold | hnew
  · exact h.sent j version records hold
  · rw [Prod.mk.injEq] at hnew
    obtain ⟨rfl, hnew⟩ := hnew
    exact ⟨m, hnode, hmessage version records hnew.symm⟩

/-- What a node knows of any runtime is of the version that it tells. -/
theorem Sound.sent (h : Sound content own i m) (hknown : m.known r.runtimeId = some r) :
    Sent content m.known r := by
  refine ⟨h.genuine _ r hknown, ?_⟩
  rw [hknown, rank_some]

theorem Sound.updateLocal {m : MeshMembership} {f : GossipRecord → GossipRecord} {now : UInt64}
    (h : Sound content s.own i m) (hid : (f m.localRecord).runtimeId = m.localRecord.runtimeId)
    (hcontent : (m.updateLocal f now).1 = content i (m.updateLocal f now).1.version) :
    Sound content (s.set i (m.updateLocal f now).2).own i (m.updateLocal f now).2 := by
  refine ⟨⟨hid.trans h.keyed.own, h.keyed.notOwn, h.keyed.peer⟩, h.named, ?_, ?_⟩
  · intro id r hknown
    rw [m.known_updateLocal, h.named] at hknown
    by_cases hid : id = i
    · subst hid
      rw [Function.update_self, Option.some.injEq] at hknown
      rw [← hknown]
      exact hcontent
    · rw [Function.update_of_ne hid] at hknown
      exact h.genuine id r hknown
  · intro id
    rw [m.known_updateLocal, h.named, s.own_set]
    by_cases hid : id = i
    · subst hid
      rw [Function.update_self, Function.update_self]
      exact le_refl _
    · rw [Function.update_of_ne hid, Function.update_of_ne hid]
      exact h.newest id

theorem le_updateLocal {m : MeshMembership} {f : GossipRecord → GossipRecord} {now : UInt64}
    (hversion : (f m.localRecord).version = m.localRecord.version) :
    Le versioned m.known (m.updateLocal f now).2.known := by
  intro id
  rw [m.known_updateLocal]
  by_cases hid : id = m.localRuntimeId
  · subst hid
    rw [Function.update_self, m.known_local, rank_some, rank_some, Nat.cast_le]
    have hle := MeshMembership.le_saturatingSucc (f m.localRecord).version
    rw [hversion] at hle
    change _ ≤ (MeshMembership.saturatingSucc (f m.localRecord).version).toNat
    rw [hversion]
    exact hle
  · rw [Function.update_of_ne hid]

theorem le_applyGossipRecord (r : GossipRecord) (m : MeshMembership) :
    Le versioned m.known (m.applyGossipRecord r).2.known := by
  rw [MeshMembership.known_applyGossipRecord]
  split
  · exact .refl _
  · exact le_accept r _

theorem applyGossipRecord_le {m : MeshMembership} {f : RuntimeId → Option GossipRecord}
    (h : Le versioned m.known f) (hr : Sent content f r) :
    Le versioned (m.applyGossipRecord r).2.known f := by
  rw [MeshMembership.known_applyGossipRecord]
  split
  · exact h
  · exact accept_le h hr.2

theorem Sound.applyGossipRecord (h : Sound content own i m) (hr : Sent content own r) :
    Sound content own i (m.applyGossipRecord r).2 := by
  refine ⟨h.keyed.applyGossipRecord r, ?_, ?_, applyGossipRecord_le h.newest hr⟩
  · rw [(MeshMembership.own_applyGossipRecord r m).1, h.named]
  · intro id r' hknown
    rw [MeshMembership.known_applyGossipRecord] at hknown
    split_ifs at hknown
    · exact h.genuine id r' hknown
    · obtain hsame | ⟨hid, hnew⟩ := accept_cases r m.known id
      · rw [hsame] at hknown
        exact h.genuine id r' hknown
      · rw [hnew, Option.some.injEq] at hknown
        rw [← hknown, hid]
        exact hr.1

theorem System.own_set_applyGossipRecord (hnode : s.node i = some m) :
    (s.set i (m.applyGossipRecord r).2).own = s.own := by
  rw [s.own_set, (MeshMembership.own_applyGossipRecord r m).2, Function.update_eq_self_iff, own, hnode,
    Option.map_some]

theorem Inv.step (h : Inv content s) (hstep : Step content s e t) : Inv content t := by
  cases hstep with
  | update hnode hid hversion hcontent =>
    exact h.set hnode (le_updateLocal hversion) ((h.sound _ _ hnode).updateLocal hid hcontent)
  | digest hnode => exact h.send hnode (fun _ _ hmessage => by cases hmessage)
  | @answer i j m version entries hnode hsent =>
    apply h.send hnode
    intro version records hmessage r hr
    cases hmessage
    have hsound := h.sound i m hnode
    exact hsound.sent (hsound.keyed.mem_deltaRecords.mp hr).1
  | @receive i j m version delta r hnode hsent hr =>
    apply h.set hnode (le_applyGossipRecord r m)
    rw [s.own_set_applyGossipRecord hnode]
    obtain ⟨mj, hj, hrecords⟩ := h.sent j version delta hsent
    exact (h.sound i m hnode).applyGossipRecord ((hrecords r hr).mono (h.sound j mj hj).newest)

theorem Inv.run {events : List Event} (h : Inv content s) (hrun : Run (Step content) s events t) :
    Inv content t := by
  induction hrun with
  | nil => exact h
  | snoc _ hstep ih => exact ih.step hstep

/-- A node that knows a record knows it or a newer one afterwards. -/
def Advances (f g : RuntimeId → Option GossipRecord) : Prop :=
  ∀ id r, f id = some r → g id = some r ∨ ∃ r', g id = some r' ∧ r.version < r'.version

theorem Genuine.eq {id : RuntimeId} {f g : RuntimeId → Option GossipRecord} (hf : Genuine content f)
    (hg : Genuine content g) (hr : f id = some r) (hr' : g id = some r')
    (hversion : versioned.version r = versioned.version r') : r = r' := by
  rw [hf id r hr, hg id r' hr', UInt64.toNat_inj.mp hversion]

theorem Genuine.advances {f g : RuntimeId → Option GossipRecord} (hf : Genuine content f)
    (hg : Genuine content g) (h : Le versioned f g) : Advances f g := by
  intro id r hr
  have hrank := h id
  rw [hr] at hrank
  cases hr' : g id with
  | none =>
    rw [hr'] at hrank
    exact absurd hrank (not_le.mpr (WithBot.bot_lt_coe _))
  | some r' =>
    rw [hr', rank_some, rank_some, Nat.cast_le] at hrank
    rcases hrank.eq_or_lt with heq | hlt
    · rw [hf.eq hg hr hr' heq]
      exact .inl rfl
    · exact .inr ⟨r', rfl, UInt64.lt_iff_toNat_lt.mpr hlt⟩

/-- What a step can do to a node. -/
theorem Step.node (h : Step content s e t) (hnode : s.node i = some m) :
    ∃ m', t.node i = some m' ∧ (m' = m ∨
      (e = .update i ∧ Le versioned m.known m'.known) ∨
      ∃ j r version delta, e = .receive i j r ∧ (j, .delta version delta) ∈ s.sent ∧ r ∈ delta ∧
        m' = (m.applyGossipRecord r).2) := by
  cases h with
  | @update j mj f now hj hid hversion hcontent =>
    by_cases hij : i = j
    · subst hij
      rw [hnode, Option.some.injEq] at hj
      subst hj
      exact ⟨_, s.node_set_self i _, .inr (.inl ⟨rfl, le_updateLocal hversion⟩)⟩
    · exact ⟨m, (s.node_set_of_ne _ hij).trans hnode, .inl rfl⟩
  | digest => exact ⟨m, hnode, .inl rfl⟩
  | answer => exact ⟨m, hnode, .inl rfl⟩
  | @receive j source mj version delta r hj hsent hr =>
    by_cases hij : i = j
    · subst hij
      rw [hnode, Option.some.injEq] at hj
      subst hj
      exact ⟨_, s.node_set_self i _, .inr (.inr ⟨source, r, version, delta, rfl, hsent, hr, rfl⟩)⟩
    · exact ⟨m, (s.node_set_of_ne _ hij).trans hnode, .inl rfl⟩

/-- A node stays, never knows less, and keeps its own record but for its own updates. -/
theorem Run.node {events : List Event} (h : Run (Step content) s events t)
    (hnode : s.node i = some m) :
    ∃ m', t.node i = some m' ∧ Le versioned m.known m'.known ∧
      (.update i ∉ events → m'.localRecord = m.localRecord) := by
  induction h with
  | nil => exact ⟨m, hnode, .refl _, fun _ => rfl⟩
  | @snoc items t u e _ hstep ih =>
    obtain ⟨m', hm', hle, hown⟩ := ih
    obtain ⟨m'', hm'', hm⟩ := hstep.node hm'
    refine ⟨m'', hm'', ?_, ?_⟩
    · rcases hm with rfl | ⟨_, hle'⟩ | ⟨_, r, _, _, _, _, _, rfl⟩
      · exact hle
      · exact hle.trans hle'
      · exact hle.trans (le_applyGossipRecord r m')
    · intro hquiet
      rw [List.mem_append, List.mem_singleton, not_or] at hquiet
      rw [← hown hquiet.1]
      rcases hm with rfl | ⟨rfl, _⟩ | ⟨_, r, _, _, _, _, _, rfl⟩
      · rfl
      · exact absurd rfl hquiet.2
      · exact (MeshMembership.own_applyGossipRecord r m').2

/-- `a` sends its digest, `b` answers it, and each record of the answer reaches `a`. -/
def Pulls (a b : RuntimeId) (events : List Event) : Prop :=
  ∃ entries records before between after,
    events = before ++ .digest a entries :: (between ++ .answer b entries records :: after) ∧
      ∀ r ∈ records, .receive a b r ∈ after

/-- Two nodes exchange digests and their answers, with no update and no other sender. -/
structure Exchange (a b : RuntimeId) (events : List Event) : Prop where
  quiet : .update a ∉ events ∧ .update b ∉ events
  closed : ∀ i source r, .receive i source r ∈ events → i = a ∨ i = b → source = a ∨ source = b
  pulls : Pulls a b events
  pulled : Pulls b a events

/-- Nodes that hear from each other only come to know no more than they did together. -/
theorem Step.bounded {nodes : Set RuntimeId} {f : RuntimeId → Option GossipRecord}
    (hstep : Step content s e t) (h : Inv content s)
    (hle : ∀ i ∈ nodes, ∃ m, s.node i = some m ∧ Le versioned m.known f)
    (hquiet : ∀ i ∈ nodes, .update i ≠ e)
    (hclosed : ∀ i source r, .receive i source r = e → i ∈ nodes → source ∈ nodes) :
    ∀ i ∈ nodes, ∃ m, t.node i = some m ∧ Le versioned m.known f := by
  intro i hi
  obtain ⟨m, hnode, hm⟩ := hle i hi
  obtain ⟨m', hnode', heffect⟩ := hstep.node hnode
  refine ⟨m', hnode', ?_⟩
  rcases heffect with rfl | ⟨rfl, _⟩ | ⟨j, r, version, delta, rfl, hsent, hr, rfl⟩
  · exact hm
  · exact absurd rfl (hquiet i hi)
  · -- what the sender has sent it knew itself
    obtain ⟨mj, hj, hrecords⟩ := h.sent j version delta hsent
    obtain ⟨_, hj', hmj⟩ := hle j (hclosed i j r rfl hi)
    rw [hj, Option.some.injEq] at hj'
    subst hj'
    exact applyGossipRecord_le hm ((hrecords r hr).mono hmj)

theorem Run.bounded {nodes : Set RuntimeId} {f : RuntimeId → Option GossipRecord}
    {events : List Event} (hrun : Run (Step content) s events t) (h : Inv content s)
    (hle : ∀ i ∈ nodes, ∃ m, s.node i = some m ∧ Le versioned m.known f)
    (hquiet : ∀ i ∈ nodes, .update i ∉ events)
    (hclosed : ∀ i source r, .receive i source r ∈ events → i ∈ nodes → source ∈ nodes) :
    ∀ i ∈ nodes, ∃ m, t.node i = some m ∧ Le versioned m.known f := by
  induction hrun with
  | nil => exact hle
  | @snoc items t u e hrun hstep ih =>
    have hmem : e ∈ items ++ [e] := List.mem_append_right _ (List.mem_singleton_self e)
    have hbefore := ih
      (fun i hi hupdate => hquiet i hi (List.mem_append_left _ hupdate))
      (fun i source r hreceive => hclosed i source r (List.mem_append_left _ hreceive))
    apply hstep.bounded (Inv.run h hrun) hbefore
    · rintro i hi rfl
      exact hquiet i hi hmem
    · rintro i source r rfl
      exact hclosed i source r hmem

/-- A node that received a record knows it, or a newer one. -/
theorem Run.received {events : List Event} (h : Inv content s)
    (hrun : Run (Step content) s events t) (hnode : t.node i = some m)
    (hmem : .receive i j r ∈ events) (hid : r.runtimeId ≠ i) :
    (versioned.version r : WithBot Nat) ≤ rank versioned (m.known r.runtimeId) := by
  obtain ⟨before, after, rfl⟩ := List.append_of_mem hmem
  obtain ⟨u, u', hbefore, hstep, hafter⟩ := hrun.split
  have hu := Inv.run h hbefore
  cases hstep with
  | @receive _ _ mu version delta _ hnodeu hsent hr =>
    have hnamed := (hu.sound i mu hnodeu).named
    obtain ⟨m', hm', hle, _⟩ := Run.node hafter (u.node_set_self i _)
    rw [hnode, Option.some.injEq] at hm'
    subst hm'
    apply le_trans _ (hle r.runtimeId)
    rw [MeshMembership.known_applyGossipRecord, hnamed, if_neg hid]
    exact version_le_accept r mu.known

/-- The records that a node leaves out of its answer are known where the digest is from. -/
theorem known_or_sent {ma mb : MeshMembership} (ha : ma.Keyed) (hb : mb.Keyed)
    (hr : mb.known r.runtimeId = some r) : r ∈ mb.deltaRecords ma.digestEntries ∨
      (versioned.version r : WithBot Nat) ≤ rank versioned (ma.known r.runtimeId) := by
  by_cases hmem : r ∈ mb.deltaRecords ma.digestEntries
  · exact .inl hmem
  · rw [hb.mem_deltaRecords] at hmem
    obtain ⟨v, hv, hge⟩ : ∃ v, (MeshMembership.remoteVersions ma.digestEntries).lookup
        r.runtimeId = some v ∧ ¬v < r.version := by
      by_contra hnone
      exact hmem ⟨hr, fun v hv => not_not.mp fun hge => hnone ⟨v, hv, hge⟩⟩
    obtain ⟨r', hr', rfl⟩ := ha.mem_digestEntries (MeshMembership.mem_of_remoteVersions hv)
    rw [hr', rank_some, Nat.cast_le]
    exact .inr (UInt64.le_iff_toNat_le.mp (UInt64.not_lt.mp hge))

/-- A node that pulls from another one comes to know what that one knew. -/
theorem Run.pulls {events : List Event} {ma' mb : MeshMembership} (h : Inv content s)
    (hrun : Run (Step content) s events t) (hpulls : Pulls a b events)
    (hb : s.node b = some mb) (ha' : t.node a = some ma') :
    Le versioned mb.known ma'.known := by
  obtain ⟨entries, records, before, between, after, rfl, hreceived⟩ := hpulls
  obtain ⟨s₁, s₁', hbefore, hdigest, hrest⟩ := hrun.split
  obtain ⟨s₂, s₂', hbetween, hanswer, hafter⟩ := hrest.split
  have hdigested := (Run.nil.snoc hdigest).append hbetween
  have hanswered := (Run.nil.snoc hanswer).append hafter
  have hinv₁ := Inv.run h hbefore
  have hinv₂ := Inv.run hinv₁ hdigested
  have hinv₂' := hinv₂.step hanswer
  obtain ⟨mb₂, hb₂, hle_b, _⟩ := Run.node (hbefore.append hdigested) hb
  apply hle_b.trans
  obtain ⟨ma₁, ha₁, rfl⟩ : ∃ ma₁, s₁.node a = some ma₁ ∧ entries = ma₁.digestEntries := by
    cases hdigest with
    | digest ha₁ => exact ⟨_, ha₁, rfl⟩
  obtain rfl : records = mb₂.deltaRecords ma₁.digestEntries := by
    cases hanswer with
    | answer hnode _ =>
      cases hb₂.symm.trans hnode
      rfl
  obtain ⟨ma₂, ha₂, hle₁, _⟩ := Run.node hdigested ha₁
  obtain ⟨_, hlast, hle₂, _⟩ := Run.node hanswered ha₂
  cases ha'.symm.trans hlast
  have hsound_b := hinv₂.sound b mb₂ hb₂
  intro id
  cases hknown : mb₂.known id with
  | none => exact bot_le
  | some r =>
    obtain rfl := hsound_b.keyed.runtimeId_of_known hknown
    by_cases hid : r.runtimeId = a
    · -- nobody knows more of a node than itself
      have hown := hsound_b.newest r.runtimeId
      rw [hid] at hknown hown ⊢
      rw [hknown, System.own, ha₂, Option.map_some, ← (hinv₂.sound a ma₂ ha₂).known_self] at hown
      exact hown.trans (hle₂ a)
    · rcases known_or_sent (hinv₁.sound a ma₁ ha₁).keyed hsound_b.keyed hknown with hmem | hle
      · exact Run.received hinv₂' hafter ha' (hreceived r hmem) hid
      · exact (hle.trans (hle₁ _)).trans (hle₂ _)

theorem Genuine.join {f g : RuntimeId → Option GossipRecord} (hf : Genuine content f)
    (hg : Genuine content g) : Genuine content (join versioned f g) := by
  intro id r hr
  obtain hsame | hsame := join_cases f g id
  · rw [hsame] at hr
    exact hf id r hr
  · rw [hsame] at hr
    exact hg id r hr

/-- Two nodes that exchange what they know know the join of it. -/
theorem Run.exchange {events : List Event} {ma mb : MeshMembership} (h : Inv content s)
    (hrun : Run (Step content) s events t) (hexchange : Exchange a b events)
    (ha : s.node a = some ma) (hb : s.node b = some mb) (ha' : t.node a = some ma') :
    ma'.known = join versioned ma.known mb.known := by
  have hsound_a := h.sound a ma ha
  have hsound_b := h.sound b mb hb
  have hbounded : ∀ i ∈ ({a, b} : Set RuntimeId), ∃ m, t.node i = some m ∧
      Le versioned m.known (join versioned ma.known mb.known) := by
    apply Run.bounded hrun h
    · rintro i (rfl | rfl)
      · exact ⟨ma, ha, left_le_join _ _⟩
      · exact ⟨mb, hb, right_le_join _ _⟩
    · rintro i (rfl | rfl)
      · exact hexchange.quiet.1
      · exact hexchange.quiet.2
    · exact hexchange.closed
  obtain ⟨_, hlast, hupper⟩ := hbounded a (.inl rfl)
  cases ha'.symm.trans hlast
  obtain ⟨_, hlast', hlower, _⟩ := Run.node hrun ha
  cases ha'.symm.trans hlast'
  apply eq_of_le_of_le hupper
  · exact join_le hlower (Run.pulls h hrun hexchange.pulls hb ha')
  · intro id r r' hr hr'
    exact (((Inv.run h hrun).sound a ma' ha').genuine).eq
      (hsound_a.genuine.join hsound_b.genuine) hr hr'

theorem Exchange.symm {events : List Event} (h : Exchange a b events) : Exchange b a events where
  quiet := h.quiet.symm
  closed i source r hreceive hi := (h.closed i source r hreceive hi.symm).symm
  pulls := h.pulled
  pulled := h.pulls

/-- Where a version has one record, gossip never goes back and never writes a node's own record,
and an exchange leaves both nodes with the newest of what either knew. -/
theorem gossip_converges {start : System} {before after : List Event}
    (hstart : Start content start) (hbefore : Run (Step content) start before s)
    (hafter : Run (Step content) s after t) (hnode : s.node a = some ma) :
    ∃ ma', t.node a = some ma' ∧ Advances ma.known ma'.known ∧
      (.update a ∉ after → ma'.localRecord = ma.localRecord) ∧
      ∀ b mb, s.node b = some mb → Exchange a b after →
        ma'.known = join versioned ma.known mb.known ∧
          ∃ mb', t.node b = some mb' ∧ mb'.known = ma'.known := by
  have hinv := Inv.run (.start hstart) hbefore
  have hinv' := Inv.run hinv hafter
  obtain ⟨ma', hnode', hle, hown⟩ := Run.node hafter hnode
  have hgenuine := (hinv.sound a ma hnode).genuine
  have hgenuine' := (hinv'.sound a ma' hnode').genuine
  refine ⟨ma', hnode', hgenuine.advances hgenuine' hle, hown, ?_⟩
  intro b mb hb hexchange
  have ha := Run.exchange hinv hafter hexchange hnode hb hnode'
  obtain ⟨mb', hb', _, _⟩ := Run.node hafter hb
  have hb := Run.exchange hinv hafter hexchange.symm hb hnode hb'
  refine ⟨ha, mb', hb', ?_⟩
  rw [hb, ha]
  apply eq_of_le_of_le
  · exact join_le (right_le_join _ _) (left_le_join _ _)
  · exact join_le (right_le_join _ _) (left_le_join _ _)
  · intro id r r' hr hr'
    have hgenuine_b := (hinv.sound b mb ‹_›).genuine
    exact (hgenuine_b.join hgenuine).eq (hgenuine.join hgenuine_b) hr hr'

def first : RuntimeId := HexId.ofNat 64 1
def second : RuntimeId := HexId.ofNat 64 2

def firstVersions (id : RuntimeId) (version : UInt64) : GossipRecord :=
  { GossipRecord.new id [] 1 0 with version }

def newNode (id : RuntimeId) : MeshMembership := .new (firstVersions id 1)

def pair : System where
  node id := if id = first ∨ id = second then some (newNode id) else none
  sent := []

/-- The first node with what the second one tells. -/
def informed : MeshMembership := ((newNode first).applyGossipRecord (firstVersions second 1)).2

def exchanged : List Event :=
  [.digest first (newNode first).digestEntries,
    .answer second (newNode first).digestEntries [firstVersions second 1],
    .receive first second (firstVersions second 1),
    .digest second (newNode second).digestEntries,
    .answer first (newNode second).digestEntries [firstVersions first 1],
    .receive second first (firstVersions first 1)]

theorem pair_start : Start firstVersions pair := by
  refine ⟨rfl, ?_⟩
  intro i m hnode
  rw [pair, Option.ite_none_right_eq_some, Option.some.injEq] at hnode
  exact ⟨firstVersions i 1, hnode.2.symm, rfl, rfl⟩

theorem exchange_exchanged : Exchange first second exchanged where
  quiet := by simp [exchanged]
  closed i source r hreceive _ := by
    simp only [exchanged, List.mem_cons, reduceCtorEq, Event.receive.injEq, List.not_mem_nil,
      false_or, or_false] at hreceive
    rcases hreceive with ⟨_, rfl, _⟩ | ⟨_, rfl, _⟩
    · exact .inr rfl
    · exact .inl rfl
  pulls := ⟨_, [firstVersions second 1], [], [], _, rfl, by simp⟩
  pulled := ⟨_, [firstVersions first 1], exchanged.take 3, [], _, rfl, by simp⟩

theorem pair_node_first : pair.node first = some (newNode first) := by
  simp [pair]

theorem pair_node_second : pair.node second = some (newNode second) := by
  simp [pair]

/-- A node pulls the one record that it lacks. -/
theorem run_pull {ma mb : MeshMembership} (ha : s.node a = some ma) (hb : s.node b = some mb)
    (hdelta : mb.deltaRecords ma.digestEntries = [r]) :
    Run (Step content) s
      [.digest a ma.digestEntries, .answer b ma.digestEntries [r], .receive a b r]
      (((s.send a ma.digest).send b (mb.deltaFor ma.digestEntries)).set a
        (ma.applyGossipRecord r).2) := by
  have hmem : r ∈ mb.deltaRecords ma.digestEntries := by
    rw [hdelta]
    exact List.mem_singleton_self r
  have hdigest : Step content s _ (s.send a ma.digest) := .digest ha
  have hanswer : Step content (s.send a ma.digest) _
      ((s.send a ma.digest).send b (mb.deltaFor ma.digestEntries)) :=
    .answer hb (List.mem_append_right _ (List.mem_singleton_self _))
  rw [hdelta] at hanswer
  apply ((Run.nil.snoc hdigest).snoc hanswer).snoc
  exact .receive ha (List.mem_append_right _ (List.mem_singleton_self _)) hmem

theorem run_exchanged : ∃ t, Run (Step firstVersions) pair exchanged t := by
  have hne : second ≠ first := by decide
  have hdelta : (newNode second).deltaRecords (newNode first).digestEntries =
      [firstVersions second 1] := by decide
  have hdelta' : informed.deltaRecords (newNode second).digestEntries =
      [firstVersions first 1] := by decide
  exact ⟨_, (run_pull pair_node_first pair_node_second hdelta).append
    (run_pull ((System.node_set_of_ne _ _ hne).trans pair_node_second)
      (System.node_set_self ..) hdelta')⟩

theorem gossip_converges_pair : ∃ (t : System) (ma' : MeshMembership),
    t.node first = some ma' ∧
      ma'.known = join versioned (newNode first).known (newNode second).known := by
  obtain ⟨t, hrun⟩ := run_exchanged
  obtain ⟨ma', hnode, _, _, hexchange⟩ :=
    gossip_converges pair_start .nil hrun pair_node_first
  exact ⟨t, ma', hnode, (hexchange second _ pair_node_second exchange_exchanged).1⟩

end Buzz.Mesh
