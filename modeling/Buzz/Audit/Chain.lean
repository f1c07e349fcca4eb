import Buzz.Audit.Service

namespace Buzz.Audit
set_option autoImplicit true
open Json

variable {F : Type} {fmt : FloatFormat F} {sha256 : ByteArray → HexId 64}

/-- The row reads as an entry, and its hash is the hash of that entry. -/
def Hashed (fmt : FloatFormat F) (sha256 : ByteArray → HexId 64) (r : Row F) : Prop :=
  ∃ e, rowToAuditEntry r = .ok e ∧ computeHash fmt sha256 e = r.hash

/-- The rows of one community as calls of `log` leave them. -/
inductive Sound (fmt : FloatFormat F) (sha256 : ByteArray → HexId 64) : List (Row F) → Prop where
  | nil : Sound fmt sha256 []
  | snoc {rows : List (Row F)} {r : Row F} (h : Sound fmt sha256 rows)
      (hseq : r.seq.toInt = rows.length + 1)
      (hprev : r.prevHash = rows.getLast?.map Row.hash) (hhash : Hashed fmt sha256 r) :
      Sound fmt sha256 (rows ++ [r])

namespace Sound

variable {rows : List (Row F)} {r : Row F}

theorem chain (h : Sound fmt sha256 rows) : HashChain.Chain Row.hash Row.prevHash rows := by
  induction h with
  | nil => exact .nil
  | snoc _ _ hprev _ ih => exact .snoc ih hprev

theorem seqs (h : Sound fmt sha256 rows) :
    rows.map (fun r => r.seq.toInt) = (List.range rows.length).map fun i : Nat => (i : Int) + 1 := by
  induction h with
  | nil => rfl
  | @snoc rows r _ hseq _ _ ih =>
    rw [List.map_append, ih, List.length_append, List.length_singleton, List.range_succ,
      List.map_append, List.map_singleton, List.map_singleton, hseq]

theorem hashed (h : Sound fmt sha256 rows) : ∀ r ∈ rows, Hashed fmt sha256 r := by
  induction h with
  | nil => exact fun r hr => (List.not_mem_nil hr).elim
  | snoc _ _ _ hhash ih =>
    intro r hr
    rcases List.mem_append.mp hr with hr | hr
    · exact ih r hr
    · rw [List.mem_singleton.mp hr]
      exact hhash

theorem seq_range (h : Sound fmt sha256 rows) :
    ∀ r ∈ rows, 1 ≤ r.seq.toInt ∧ r.seq.toInt ≤ rows.length := by
  intro r hr
  have hm : r.seq.toInt ∈ rows.map fun r => r.seq.toInt := List.mem_map_of_mem hr
  rw [h.seqs] at hm
  obtain ⟨i, hi, he⟩ := List.mem_map.mp hm
  rw [List.mem_range] at hi
  omega

theorem pairwise (h : Sound fmt sha256 rows) :
    rows.Pairwise fun r s => r.seq.toInt < s.seq.toInt := by
  induction h with
  | nil => exact List.Pairwise.nil
  | snoc hs hseq _ _ ih =>
    rw [List.pairwise_append]
    refine ⟨ih, List.pairwise_singleton _ _, ?_⟩
    intro s hs' r hr
    rw [List.mem_singleton.mp hr, hseq]
    have hle := (hs.seq_range s hs').2
    omega

/-- The row with the highest `seq` is the last one. -/
theorem head_eq {db : AuditLog F} (h : Sound fmt sha256 (db.ofCommunity c)) :
    db.head c = (db.ofCommunity c).getLast? := by
  rw [AuditLog.head]
  generalize db.ofCommunity c = rows at h
  cases h with
  | nil => rfl
  | @snoc rows r hs hseq _ _ =>
    rw [List.getLast?_concat]
    cases hsort : (rows ++ [r]).insertionSort fun r s => s.seq.toInt ≤ r.seq.toInt with
    | nil =>
      have hlength := congrArg List.length hsort
      simp at hlength
    | cons s sorted =>
      have hmem {t : Row F} : t ∈ s :: sorted ↔ t ∈ rows ++ [r] := by
        rw [← hsort]
        exact List.mem_insertionSort _
      have hsorted := List.pairwise_insertionSort
        (fun r s : Row F => s.seq.toInt ≤ r.seq.toInt) (rows ++ [r])
      rw [hsort, List.pairwise_cons] at hsorted
      rw [List.head?_cons]
      rcases List.mem_cons.mp (hmem.mpr (List.mem_append_right rows (List.mem_singleton_self r)))
        with rfl | hr
      · rfl
      · rcases List.mem_append.mp (hmem.mp List.mem_cons_self) with hold | hlast
        · have hle := hsorted.1 r hr
          have hlt := (hs.seq_range s hold).2
          omega
        · rw [List.mem_singleton.mp hlast]

theorem last_seq (h : Sound fmt sha256 rows) :
    (rows.getLast?.elim 0 Row.seq).toInt = rows.length := by
  cases h with
  | nil => rfl
  | @snoc rows r _ hseq _ _ =>
    rw [List.getLast?_concat, Option.elim_some, hseq, List.length_append, List.length_singleton]
    rfl

/-- A row without a previous hash is the first one. -/
theorem seq_of_genesis (h : Sound fmt sha256 rows) (hr : r ∈ rows) (hnone : r.prevHash = none) :
    r.seq.toInt = 1 := by
  induction h with
  | nil => exact (List.not_mem_nil hr).elim
  | @snoc rows s _ hseq hprev _ ih =>
    rcases List.mem_append.mp hr with hr | hr
    · exact ih hr
    · rw [List.mem_singleton.mp hr] at hnone ⊢
      rw [hnone] at hprev
      have hnil : rows = [] := by
        rw [← List.getLast?_eq_none_iff]
        exact Option.map_eq_none_iff.mp hprev.symm
      rw [hseq, hnil]
      rfl

/-- Between two bounds the links go from each row to the next one. -/
theorem linked (h : Sound fmt sha256 rows) (a b : Int) :
    (rows.filter fun r => a ≤ r.seq.toInt ∧ r.seq.toInt ≤ b).IsChain
      fun s t => t.prevHash = some s.hash := by
  induction h with
  | nil => exact List.IsChain.nil
  | @snoc rows r hs hseq hprev _ ih =>
    rw [List.filter_append, List.isChain_append]
    refine ⟨ih, ?_, ?_⟩
    · by_cases hr : a ≤ r.seq.toInt ∧ r.seq.toInt ≤ b
      · rw [List.filter_singleton, decide_eq_true hr]
        exact List.IsChain.singleton _
      · rw [List.filter_singleton, decide_eq_false hr]
        exact List.IsChain.nil
    · intro s hlast t ht
      obtain ⟨ht, hrange⟩ := List.mem_filter.mp (List.mem_of_mem_head? ht)
      obtain rfl := List.mem_singleton.mp ht
      obtain ⟨hmem, hsrange⟩ := List.mem_filter.mp (List.mem_of_getLast? hlast)
      rw [decide_eq_true_eq] at hrange hsrange
      -- the last row is in the range too, since it lies between `s` and `t`
      cases hs with
      | nil => exact (List.not_mem_nil hmem).elim
      | @snoc rows l hs hlseq _ _ =>
        have hle : s.seq.toInt ≤ l.seq.toInt := by
          rcases List.mem_append.mp hmem with hm | hm
          · have hm := (hs.seq_range s hm).2
            omega
          · rw [List.mem_singleton.mp hm]
        have hl : a ≤ l.seq.toInt ∧ l.seq.toInt ≤ b := by
          rw [List.length_append, List.length_singleton] at hseq
          omega
        rw [List.filter_append, List.filter_singleton, decide_eq_true hl] at hlast
        change (_ ++ [l]).getLast? = some s at hlast
        rw [List.getLast?_concat] at hlast
        rw [hprev, List.getLast?_concat, ← Option.some.inj hlast]
        rfl

end Sound

theorem fromStr_eq_some (h : AuditAction.fromStr s = some a) : a.asStr = s := by
  have hfound := List.find?_some h
  exact beq_iff_eq.mp hfound

theorem rowToAuditEntry_toRow (e : AuditEntry F) :
    rowToAuditEntry e.toRow = .ok { e with createdAt := toStoragePrecision e.createdAt } := by
  rw [rowToAuditEntry]
  simp only [AuditEntry.toRow, AuditAction.fromStr_asStr]

theorem toRow_of_rowToAuditEntry {r : Row F} (h : rowToAuditEntry r = .ok e) : e.toRow = r := by
  unfold rowToAuditEntry at h
  split at h
  · cases h
  · rename_i action haction
    rw [← Except.ok.inj h]
    simp only [AuditEntry.toRow, fromStr_eq_some haction, r.createdAt_stored]

/-- The hash is of the entry at the precision of the column. -/
theorem computeHash_stored (e : AuditEntry F) (hash : List UInt8) :
    computeHash fmt sha256 { e with
      hash := hash
      createdAt := toStoragePrecision e.createdAt } = computeHash fmt sha256 e := by
  simp only [computeHash, preimage, toStoragePrecision_idem]
  rfl

theorem AuditLog.insert_eq_some {db db' : AuditLog F} {row : Row F} (h : db.insert row = some db') :
    db'.rows = db.rows ++ [row] := by
  unfold AuditLog.insert at h
  split at h
  · rw [← Option.some.inj h]
  · cases h

theorem nextSeq_eq_some {i j : Int64} (h : nextSeq i = some j) : j.toInt = i.toInt + 1 := by
  unfold nextSeq at h
  split at h
  · cases h
  · rename_i hne
    rw [← Option.some.inj h, Int64.toInt_add]
    have hlt : i.toInt < 2 ^ 63 - 1 := by
      have hle := i.toInt_le
      have hmax : i.toInt ≠ Int64.maxValue.toInt := fun he => hne (Int64.toInt_inj.mp he)
      rw [Int64.toInt_maxValue] at hle hmax
      omega
    have hge := i.le_toInt
    have hone : (1 : Int64).toInt = 1 := rfl
    rw [hone]
    apply Int.bmod_eq_of_le
    · omega
    · omega

/-- What a call of `log` that succeeds writes. -/
theorem logInner_eq_ok {db db' : AuditLog F} {entry : NewAuditEntry F}
    (h : logInner fmt sha256 db entry now = .ok (e, db')) :
    db'.rows = db.rows ++ [e.toRow] ∧ e.communityId = entry.communityId ∧
      e.seq.toInt = ((db.head entry.communityId).elim 0 Row.seq).toInt + 1 ∧
      e.prevHash = (db.head entry.communityId).map Row.hash ∧
      computeHash fmt sha256 e = e.hash := by
  unfold logInner at h
  dsimp only at h
  split at h
  · cases h
  · rename_i seq hseq
    split at h
    · cases h
    · rename_i db'' hinsert
      obtain ⟨rfl, rfl⟩ := Prod.mk.inj (Except.ok.inj h)
      exact ⟨AuditLog.insert_eq_some hinsert, rfl, nextSeq_eq_some hseq, rfl, rfl⟩

/-- A call of `log` keeps every community's rows sound. -/
theorem sound_log {db : AuditLog F} (h : ∀ c, Sound fmt sha256 (db.ofCommunity c))
    (call : NewAuditEntry F × DateTime) :
    ∀ c, Sound fmt sha256 ((log fmt sha256 db call).ofCommunity c) := by
  intro c
  unfold log
  split
  · rename_i e db' hlog
    obtain ⟨hrows, hcommunity, hseq, hprev, hhash⟩ := logInner_eq_ok hlog
    have hof : db'.ofCommunity c =
        db.ofCommunity c ++ [e.toRow].filter fun r => r.communityId = c := by
      rw [AuditLog.ofCommunity, hrows, List.filter_append]
      rfl
    rw [hof]
    by_cases hc : e.toRow.communityId = c
    · rw [List.filter_singleton, decide_eq_true hc]
      have hcall : call.1.communityId = c := hcommunity.symm.trans hc
      rw [hcall, (h c).head_eq] at hseq hprev
      apply Sound.snoc (h c)
      · exact hseq.trans (congrArg (· + 1) (h c).last_seq)
      · exact hprev
      · exact ⟨_, rowToAuditEntry_toRow e, (computeHash_stored e e.hash).trans hhash⟩
    · rw [List.filter_singleton, decide_eq_false hc]
      change Sound fmt sha256 (_ ++ [])
      rw [List.append_nil]
      exact h c
  · exact h c

theorem sound_logAll (calls : List (NewAuditEntry F × DateTime)) :
    ∀ c, Sound fmt sha256 ((logAll fmt sha256 calls).ofCommunity c) := by
  have hrun (db : AuditLog F) (h : ∀ c, Sound fmt sha256 (db.ofCommunity c)) :
      ∀ c, Sound fmt sha256 ((calls.foldl (log fmt sha256) db).ofCommunity c) := by
    induction calls generalizing db with
    | nil => exact h
    | cons call calls ih => exact ih _ (sound_log h call)
  exact hrun .empty fun c => .nil

/-- What `verifyRows` checks. -/
theorem verifyRows_eq_ok (rows : List (Row F)) (prev : Option (List UInt8)) :
    verifyRows fmt sha256 prev rows = .ok true ↔
      (∀ r ∈ rows, Hashed fmt sha256 r) ∧ (∀ h ∈ prev, ∀ r ∈ rows.head?, r.prevHash = some h) ∧
        rows.IsChain fun s t => t.prevHash = some s.hash := by
  induction rows generalizing prev with
  | nil => simp [verifyRows]
  | cons row rows ih =>
    have hstep : verifyRows fmt sha256 prev (row :: rows) = .ok true ↔
        Hashed fmt sha256 row ∧ (∀ h ∈ prev, row.prevHash = some h) ∧
          verifyRows fmt sha256 (some row.hash) rows = .ok true := by
      rw [verifyRows]
      cases hentry : rowToAuditEntry row with
      | error e => simp [Hashed, hentry]
      | ok e =>
        have hrow := toRow_of_rowToAuditEntry hentry
        have hhash : e.hash = row.hash := congrArg Row.hash hrow
        have hprev : e.prevHash = row.prevHash := congrArg Row.prevHash hrow
        simp only [Hashed, hentry, Except.ok.injEq, exists_eq_left', hhash, hprev]
        cases prev with
        | none => by_cases hh : computeHash fmt sha256 e = row.hash <;> simp [hh]
        | some p =>
          by_cases hp : row.prevHash = some p <;>
            by_cases hh : computeHash fmt sha256 e = row.hash <;> simp [hp, hh]
    rw [hstep, ih, List.forall_mem_cons, List.isChain_cons]
    simp only [List.head?_cons, Option.mem_def, Option.some.injEq, forall_eq']
    constructor
    · intro ⟨hh, hp, hs, hlink, hchain⟩
      exact ⟨⟨hh, hs⟩, hp, hlink, hchain⟩
    · intro ⟨⟨hh, hs⟩, hp, hlink, hchain⟩
      exact ⟨hh, hp, hs, hlink, hchain⟩

theorem AuditLog.between_eq_of_sound {db : AuditLog F} (h : Sound fmt sha256 (db.ofCommunity c)) :
    db.between c a b = (db.ofCommunity c).filter fun r =>
      a.toInt ≤ r.seq.toInt ∧ r.seq.toInt ≤ b.toInt :=
  List.Pairwise.insertionSort_eq ((h.pairwise.filter _).imp Int.le_of_lt)

theorem verifyChain_of_sound {db : AuditLog F} (h : Sound fmt sha256 (db.ofCommunity c))
    (hne : db.between c a b ≠ []) : verifyChain fmt sha256 db c a b = .ok true := by
  rw [verifyChain, if_neg (by simpa using hne), verifyRows_eq_ok, AuditLog.between_eq_of_sound h]
  refine ⟨?_, ?_, h.linked a.toInt b.toInt⟩
  · intro r hr
    exact h.hashed r (List.mem_of_mem_filter hr)
  · intro p hp
    exact (Option.not_mem_none p hp).elim

/-- The rows hold the same entry, with the details as JSON values and no previous hash as the
genesis hash. -/
structure Row.Same (r s : Row F) : Prop where
  communityId : r.communityId = s.communityId
  seq : r.seq = s.seq
  hash : r.hash = s.hash
  prevHash : r.prevHash.getD GENESIS_HASH = s.prevHash.getD GENESIS_HASH
  action : r.action = s.action
  actorPubkey : r.actorPubkey = s.actorPubkey
  objectId : r.objectId = s.objectId
  detail : sortKeys r.detail = sortKeys s.detail
  createdAt : r.createdAt = s.createdAt

/-- The entries that the rows of a table read as. -/
def AuditLog.entries (db : AuditLog F) : List (AuditEntry F) :=
  db.rows.filterMap fun r => (rowToAuditEntry r).toOption

/-- Among these entries a hash fixes the hashed fields. -/
def CollisionFree (fmt : FloatFormat F) (sha256 : ByteArray → HexId 64)
    (entries : List (AuditEntry F)) : Prop :=
  ∀ a ∈ entries, ∀ b ∈ entries, computeHash fmt sha256 a = computeHash fmt sha256 b → Agrees a b

theorem mem_entries {db : AuditLog F} (hr : r ∈ db.rows) (h : rowToAuditEntry r = .ok e) :
    e ∈ db.entries := by
  rw [AuditLog.entries, List.mem_filterMap]
  exact ⟨r, hr, by rw [h]; rfl⟩

theorem Agrees.same {e f : AuditEntry F} (h : Agrees e f) (hhash : e.hash = f.hash) :
    e.toRow.Same f.toRow where
  communityId := h.communityId
  seq := h.seq
  hash := hhash
  prevHash := h.prevHash
  action := congrArg AuditAction.asStr h.action
  actorPubkey := h.actorPubkey
  objectId := h.objectId
  detail := h.detail
  createdAt := h.createdAt

/-- Rows with one verified hash hold the same entry. -/
theorem same_of_hash {db db' : AuditLog F} {r s : Row F}
    (hfree : CollisionFree fmt sha256 (db.entries ++ db'.entries)) (hr : r ∈ db'.rows)
    (hs : s ∈ db.rows) (hrhash : Hashed fmt sha256 r) (hshash : Hashed fmt sha256 s)
    (h : s.hash = r.hash) : r.Same s := by
  obtain ⟨e, he, hehash⟩ := hrhash
  obtain ⟨f, hf, hfhash⟩ := hshash
  have hagrees : Agrees e f := by
    apply hfree e (List.mem_append_right _ (mem_entries hr he)) f
      (List.mem_append_left _ (mem_entries hs hf))
    rw [hehash, hfhash, h]
  obtain rfl := toRow_of_rowToAuditEntry he
  obtain rfl := toRow_of_rowToAuditEntry hf
  exact hagrees.same h.symm

theorem AuditLog.mem_between {db : AuditLog F} {r : Row F} (hr : r ∈ db.between c a b) :
    r ∈ db.rows ∧ r.communityId = c ∧ a.toInt ≤ r.seq.toInt := by
  rw [AuditLog.between, List.mem_insertionSort, List.mem_filter, AuditLog.ofCommunity,
    List.mem_filter, decide_eq_true_eq, decide_eq_true_eq] at hr
  exact ⟨hr.1.1, hr.1.2, hr.2.1⟩

/-- The primary key keeps two rows of a community apart. -/
theorem AuditLog.between_pairwise (db : AuditLog F) (c : Uuid) (a b : Int64) :
    (db.between c a b).Pairwise fun r s => r.seq.toInt < s.seq.toInt := by
  have hle : (db.between c a b).Pairwise fun r s => r.seq.toInt ≤ s.seq.toInt := by
    have htotal : Std.Total fun r s : Row F => r.seq.toInt ≤ s.seq.toInt :=
      ⟨fun r s => Int.le_total _ _⟩
    have htrans : IsTrans (Row F) fun r s => r.seq.toInt ≤ s.seq.toInt :=
      ⟨fun r s t => Int.le_trans⟩
    exact List.pairwise_insertionSort _ _
  have hne : (db.between c a b).Pairwise fun r s => r.seq ≠ s.seq := by
    have hkey : db.rows.Pairwise fun r s => (r.communityId, r.seq) ≠ (s.communityId, s.seq) :=
      List.pairwise_map.mp db.primaryKey
    have hperm := List.perm_insertionSort (fun r s : Row F => r.seq.toInt ≤ s.seq.toInt)
      ((db.ofCommunity c).filter fun r => a.toInt ≤ r.seq.toInt ∧ r.seq.toInt ≤ b.toInt)
    have hrows := ((hkey.filter _).filter _).perm hperm.symm fun h he => h he.symm
    apply List.Pairwise.imp_of_mem _ hrows
    intro r s hr hs hrs he
    have hrc := (AuditLog.mem_between hr).2.1
    have hsc := (AuditLog.mem_between hs).2.1
    exact hrs (Prod.ext (hrc.trans hsc.symm) he)
  apply (hle.and hne).imp
  intro r s hrs
  have hint : r.seq.toInt ≠ s.seq.toInt := fun he => hrs.2 (Int64.toInt_inj.mp he)
  omega

theorem isChain_and {R S : α → α → Prop} {l : List α} (hR : l.IsChain R) (hS : l.IsChain S) :
    l.IsChain fun a b => R a b ∧ S a b := by
  induction l with
  | nil => exact List.IsChain.nil
  | cons a l ih =>
    rw [List.isChain_cons] at hR hS ⊢
    exact ⟨fun b hb => ⟨hR.1 b hb, hS.1 b hb⟩, ih hR.2 hS.2⟩

/-- A link back from a logged row leads to the row before it. The first row has none: nothing comes
before its `seq`, and no hash is the genesis hash. -/
theorem Sound.link_back {s t m : Row F} (h : Sound fmt sha256 rows) (hm : m ∈ rows)
    (hsame : t.Same m) (hlink : t.prevHash = some s.hash) (hlt : s.seq.toInt < t.seq.toInt)
    (hgenesis : 1 ≤ s.seq.toInt ∨ s.hash ≠ GENESIS_HASH) : m.prevHash = some s.hash := by
  have hprev := hsame.prevHash
  rw [hlink, Option.getD_some] at hprev
  cases hnone : m.prevHash with
  | some d =>
    rw [hnone, Option.getD_some] at hprev
    rw [hprev]
  | none =>
    rw [hnone, Option.getD_none] at hprev
    have hone := h.seq_of_genesis hm hnone
    rw [hsame.seq, hone] at hlt
    rcases hgenesis with hge | hne
    · omega
    · exact (hne hprev).elim

/-- Rows that verify and end in a hash that was logged are a block of the logged rows. -/
theorem block_of_verified {logged db : AuditLog F}
    (hsound : ∀ c, Sound fmt sha256 (logged.ofCommunity c))
    (hfree : CollisionFree fmt sha256 (logged.entries ++ db.entries))
    (hgenesis : 1 ≤ a.toInt ∨ ∀ e ∈ db.entries, computeHash fmt sha256 e ≠ GENESIS_HASH)
    (hverify : verifyChain fmt sha256 db c a b = .ok true)
    (hlast : ∀ r ∈ (db.between c a b).getLast?, ∃ o ∈ logged.rows, o.hash = r.hash) :
    ∃ before block after, logged.ofCommunity c = before ++ block ++ after ∧
      List.Forall₂ Row.Same (db.between c a b) block := by
  have hpairwise := db.between_pairwise c a b
  have hmem (r : Row F) (hr : r ∈ db.between c a b) := AuditLog.mem_between hr
  rw [verifyChain] at hverify
  generalize db.between c a b = rows at hverify hlast hpairwise hmem ⊢
  split at hverify
  · cases hverify
  · rename_i hne
    obtain ⟨hhashed, _, hlinks⟩ := (verifyRows_eq_ok rows none).mp hverify
    obtain ⟨ts, t, rfl⟩ := (List.eq_nil_or_concat' rows).resolve_left (by simpa using hne)
    obtain ⟨o, ho, hhash⟩ := hlast t (by simp)
    have ht : t ∈ ts ++ [t] := by simp
    have hof (m : Row F) (hm : m ∈ logged.rows) : Hashed fmt sha256 m :=
      (hsound m.communityId).hashed m (List.mem_filter.mpr ⟨hm, decide_eq_true rfl⟩)
    have hsame := same_of_hash hfree (hmem t ht).1 ho (hhashed t ht) (hof o ho) hhash
    -- the row that wrote the last hash belongs to the same community
    have hoc : o ∈ logged.ofCommunity c :=
      List.mem_filter.mpr ⟨ho, decide_eq_true (hsame.communityId.symm.trans (hmem t ht).2.1)⟩
    obtain ⟨os, after, hsplit⟩ := List.append_of_mem hoc
    have hchain := (hsound c).chain
    rw [hsplit, List.append_cons] at hchain
    have hin (m : Row F) (hm : m ∈ os ++ [o]) : m ∈ logged.ofCommunity c := by
      rw [hsplit, List.append_cons]
      exact List.mem_append_left _ hm
    obtain ⟨before, block, heq, hblock⟩ := hchain.of_append.block
      (isChain_and hlinks hpairwise.isChain) hsame
      (by
        intro s hs t' m hm hlink htm
        have hs := List.mem_append_left [t] hs
        apply (hsound c).link_back (hin m hm) htm hlink.1 hlink.2
        apply hgenesis.imp
        · exact fun ha => Int.le_trans ha (hmem s hs).2.2
        · obtain ⟨e, he, hehash⟩ := hhashed s hs
          rw [← hehash]
          exact fun hall => hall e (mem_entries (hmem s hs).1 he))
      (by
        intro s hs m hm hd
        have hs := List.mem_append_left [t] hs
        have hm := List.mem_of_mem_filter (hin m (List.mem_append_left _ hm))
        exact same_of_hash hfree (hmem s hs).1 hm (hhashed s hs) (hof m hm) hd)
    refine ⟨before, block, after, ?_, hblock⟩
    rw [hsplit, List.append_cons, heq]

namespace ChainExample

def community : Uuid :=
  HexId.ofNat 32 1

def call (id : String) : NewAuditEntry FloatText × DateTime :=
  ({ communityId := community
     action := .eventCreated
     actorPubkey := none
     objectId := some id
     detail := .null }, HashExample.newYear)

/-- The entry of a call with its hash. -/
def stored (seq : Int64) (id : String) (prevHash : Option (List UInt8)) : AuditEntry FloatText :=
  let e : AuditEntry FloatText :=
    { communityId := community
      seq := seq
      hash := []
      prevHash := prevHash
      action := .eventCreated
      actorPubkey := none
      objectId := some id
      detail := .null
      createdAt := toStoragePrecision HashExample.newYear }
  { e with hash := computeHash floatText Buzz.sha256 e }

/-- A table with one row. -/
def single (e : AuditEntry FloatText) : AuditLog FloatText :=
  ⟨[e.toRow], List.nodup_singleton _, List.nodup_singleton _⟩

theorem collisionFree_pair {e f : AuditEntry FloatText}
    (h : computeHash floatText Buzz.sha256 e = computeHash floatText Buzz.sha256 f → Agrees e f) :
    CollisionFree floatText Buzz.sha256 [e, f] := by
  intro a ha b hb hab
  have hrefl (e : AuditEntry FloatText) : Agrees e e := ⟨rfl, rfl, rfl, rfl, rfl, rfl, rfl, rfl⟩
  simp only [List.mem_cons, List.not_mem_nil, or_false] at ha hb
  rcases ha with rfl | rfl
  · rcases hb with rfl | rfl
    · exact hrefl _
    · exact h hab
  · rcases hb with rfl | rfl
    · exact (h hab.symm).symm
    · exact hrefl _

end ChainExample

open ChainExample

end Buzz.Audit
