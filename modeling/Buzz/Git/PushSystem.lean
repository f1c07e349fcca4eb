import Buzz.Git.CasPublish
import Buzz.Lib.HashChain

namespace Buzz
set_option autoImplicit true
open Interleave HashChain

/-- `read_winner_after_conflict` on the store as it is. -/
def Backend.readWinner (B : Backend) (s : GitStore) (pkey : String) :
    Except CasError (Manifest × String) :=
  match s.pointers pkey with
  | none =>
    .error (.manifestReadFailed "pointer vanished after LostRace (no-delete rule violated)")
  | some (_, body) =>
    match String.fromUTF8? body with
    | none => .error (.manifestReadFailed "winner pointer body not utf-8")
    | some text =>
      let digest := trim text
      if digest.utf8ByteSize ≠ 64 || !digest.toList.all isAsciiHexdigit then
        .error (.manifestReadFailed ("winner pointer body is not a 64-char hex digest (got " ++
          toString digest.utf8ByteSize ++ " chars)"))
      else
        let key := "manifests/" ++ digest
        match B.getVerified s key digest with
        | .error (.digestMismatch _ _ _) =>
          .error (.manifestReadFailed "winner manifest digest mismatch")
        | .error (.notFound _) =>
          .error (.manifestReadFailed "winner pointer names missing manifest")
        | .error e => .error (.backend e)
        | .ok bytes =>
          match Manifest.fromBytes bytes with
          | .error _ => .error (.manifestReadFailed "parse winner manifest")
          | .ok m => .ok (m, key)

/-- What the bucket and git may answer to an operation of a push. Any request may fail, and a
write whose answer is lost may have gone through. Git may leave any workspace that the assumptions
on it admit. -/
inductive Exec (B : Backend) (admits : Manifest → Workspace → Prop) (i : PushId) :
    (op : GitOp) → GitStore → op.Res → GitStore → Prop where
  | load : Exec B admits i (.loadPointer pkey) s (B.loadPointer s pkey) s
  | loadFailed (e : HydrateError) : Exec B admits i (.loadPointer pkey) s (Except.error e) s
  | received (h : admits parent w) : Exec B admits i (.receivePack parent) s (Except.ok w) s
  | receiveFailed (e : HydrateError) : Exec B admits i (.receivePack parent) s (Except.error e) s
  | put (h : bytes ∈ B.stored) :
    Exec B admits i (.putImmutable pre bytes) s (Except.ok (B.contentKey pre bytes))
      (s.putImmutable (B.contentKey pre bytes) bytes)
  | putFailed (e : StoreError) : Exec B admits i (.putImmutable pre bytes) s (Except.error e) s
  | putUnanswered (h : bytes ∈ B.stored) (e : StoreError) :
    Exec B admits i (.putImmutable pre bytes) s (Except.error e)
      (s.putImmutable (B.contentKey pre bytes) bytes)
  | won (h : s.admits pkey precond = true) :
    Exec B admits i (.putPointer pkey body precond) s
      (Except.ok (CasOutcome.won (B.etag s.versions body))) (B.installPointer s i pkey body)
  | lost (h : s.admits pkey precond = false) :
    Exec B admits i (.putPointer pkey body precond) s (Except.ok CasOutcome.lostRace) s
  | pointerFailed (e : StoreError) :
    Exec B admits i (.putPointer pkey body precond) s (Except.error e) s
  | pointerUnanswered (h : s.admits pkey precond = true) (e : StoreError) :
    Exec B admits i (.putPointer pkey body precond) s (Except.error e)
      (B.installPointer s i pkey body)
  | winner : Exec B admits i (.readWinner pkey) s (B.readWinner s pkey) s
  | winnerFailed (e : CasError) : Exec B admits i (.readWinner pkey) s (Except.error e) s

/-- The bucket is empty and every push is about to start, each on its own pointer. -/
def pushStart (target : PushId → String) :
    Config GitOp GitOp.Res GitStore PushId (Except PushError CasSuccess) :=
  ⟨.empty, fun i => push (target i)⟩

theorem isAsciiHexdigit_toChars (x : HexId n) : x.toChars.all isAsciiHexdigit = true := by
  rw [List.all_eq_true]
  intro c hc
  obtain ⟨d, _, rfl⟩ := List.mem_map.mp hc
  rw [isAsciiHexdigit, Hex.digitVal_digitChar]
  rfl

theorem isWhitespace_digitChar (d : Fin 16) : isWhitespace (Hex.digitChar d) = false := by
  revert d
  decide

theorem trim_toHex (x : HexId n) : trim x.toHex = x.toHex := by
  have hplain : ∀ c ∈ x.toChars, isWhitespace c = false := by
    intro c hc
    obtain ⟨d, _, rfl⟩ := List.mem_map.mp hc
    exact isWhitespace_digitChar d
  have hdrop : ∀ cs : List Char, (∀ c ∈ cs, isWhitespace c = false) →
      cs.dropWhile isWhitespace = cs := by
    intro cs hcs
    cases cs with
    | nil => rfl
    | cons c cs =>
      rw [List.dropWhile_cons, hcs c List.mem_cons_self]
      rfl
  rw [trim, HexId.toHex_toList, hdrop _ hplain, List.rdropWhile, hdrop, List.reverse_reverse,
    HexId.toHex]
  intro c hc
  exact hplain c (List.mem_reverse.mp hc)

theorem pointerDigest_toHex (x : HexId 64) :
    Backend.pointerDigest x.toHex.toUTF8 = some x.toHex := by
  rw [Backend.pointerDigest, fromUTF8_toUTF8]
  dsimp only
  rw [trim_toHex, x.toHex_utf8ByteSize, x.toHex_toList, isAsciiHexdigit_toChars]
  rfl

theorem digestFromManifestKey_toHex (x : HexId 64) :
    digestFromManifestKey ("manifests" ++ "/" ++ x.toHex) = .ok x.toHex := by
  have hstrip : stripPrefix "manifests/" ("manifests" ++ "/" ++ x.toHex) = some x.toHex :=
    stripPrefix_append "manifests/" x.toHex
  rw [digestFromManifestKey, hstrip]

namespace Backend

variable {B : Backend}

theorem contentKey_inj (h : B.contentKey pre bytes = B.contentKey pre' bytes') :
    B.sha256 bytes = B.sha256 bytes' := by
  have hl := congrArg String.toList h
  simp only [contentKey, String.toList_append, HexId.toHex_toList] at hl
  have hc := (List.append_inj' hl (by rw [HexId.toChars_length, HexId.toChars_length])).2
  apply HexId.toHex_injective
  rw [HexId.toHex, HexId.toHex, hc]

/-- The digest of a manifest, as the pointer and the next manifest name it. -/
def digest (B : Backend) (m : Manifest) : String :=
  (B.sha256 m.canonicalBytes).toHex

/-- Objects are never lost or changed, and neither is a pointer's past. -/
structure Grows (s t : GitStore) : Prop where
  objects : ∀ key bytes, s.objects key = some bytes → t.objects key = some bytes
  installed : ∀ pkey, s.installed pkey <+: t.installed pkey

theorem Grows.refl (s : GitStore) : Grows s s :=
  ⟨fun _ _ h => h, fun _ => List.prefix_rfl⟩

theorem Grows.trans (h : Grows s t) (h' : Grows t u) : Grows s u :=
  ⟨fun key bytes hs => h'.objects key bytes (h.objects key bytes hs),
    fun pkey => (h.installed pkey).trans (h'.installed pkey)⟩

/-- Every object is under the key of its content. -/
def ContentAddressed (B : Backend) (s : GitStore) : Prop :=
  ∀ key bytes, s.objects key = some bytes → bytes ∈ B.stored ∧ ∃ pre, key = B.contentKey pre bytes

/-- A manifest that a push may install: it is stored, and reads back as it is. -/
structure Published (B : Backend) (s : GitStore) (m : Manifest) : Prop where
  version : m.version = MANIFEST_VERSION
  packs : m.packs.Pairwise (· < ·)
  valid : m.validate = .ok ()
  stored : s.objects (B.contentKey "manifests" m.canonicalBytes) = some m.canonicalBytes

/-- The manifests that a pointer went through, and where it stands now. -/
structure Line (B : Backend) (s : GitStore) (pkey : String) (ms : List Manifest) : Prop where
  chain : Chain B.digest Manifest.parent ms
  installed : (s.installed pkey).map Prod.snd = ms.map fun m => (B.digest m).toUTF8
  published : ∀ m ∈ ms, Published B s m
  absent : ms = [] → s.pointers pkey = none
  pointer : ∀ m, ms.getLast? = some m →
    ∃ v, s.pointers pkey = some (B.etag v (B.digest m).toUTF8, (B.digest m).toUTF8)

theorem Published.mono (h : Published B s m) (hg : Grows s t) : Published B t m :=
  ⟨h.version, h.packs, h.valid, hg.objects _ _ h.stored⟩

/-- What `load_pointer` makes of a pointer to a stored manifest. -/
theorem Published.loadPointer {etag : ETag} (h : Published B s m)
    (hp : s.pointers pkey = some (etag, (B.digest m).toUTF8)) :
    B.loadPointer s pkey =
      if MAX_MANIFEST_BYTES < m.canonicalBytes.size then
        .error (.resourceLimit ("object " ++ ("manifests/" ++ B.digest m) ++ " is " ++
          toString m.canonicalBytes.size ++ " bytes (max " ++ toString MAX_MANIFEST_BYTES ++ ")"))
      else .ok (some (etag, B.digest m, m)) := by
  have hdigest : pointerDigest (B.digest m).toUTF8 = some (B.digest m) := pointerDigest_toHex _
  have hstored : s.objects ("manifests/" ++ B.digest m) = some m.canonicalBytes := h.stored
  have hsha : (B.sha256 m.canonicalBytes).toHex = B.digest m := rfl
  rw [Backend.loadPointer, hp]
  dsimp only
  rw [hdigest]
  dsimp only
  rw [getVerifiedLimited, hstored]
  dsimp only
  by_cases hsize : MAX_MANIFEST_BYTES < m.canonicalBytes.size
  · rw [if_pos hsize, if_pos hsize]
  · rw [if_neg hsize, if_neg hsize, if_neg (not_not.mpr hsha)]
    dsimp only
    rw [Manifest.fromBytes_canonicalBytes m h.version, sortDedup_eq_self h.packs]
    dsimp only
    rw [h.valid]

theorem canonicalBytes_inj (h : Published B s m) (h' : Published B s m')
    (he : m.canonicalBytes = m'.canonicalBytes) : m = m' := by
  have hm := Manifest.fromBytes_canonicalBytes m h.version
  have hm' := Manifest.fromBytes_canonicalBytes m' h'.version
  rw [sortDedup_eq_self h.packs] at hm
  rw [sortDedup_eq_self h'.packs] at hm'
  rw [he, hm'] at hm
  exact (Except.ok.inj hm).symm

/-- A stored object is found again under its key. -/
theorem ContentAddressed.eq (h : ContentAddressed B s) (hb : bytes ∈ B.stored)
    (hs : s.objects (B.contentKey pre bytes) = some bytes') : bytes' = bytes := by
  obtain ⟨hb', pre', hkey⟩ := h _ _ hs
  exact B.collisionFree hb' hb (contentKey_inj hkey).symm

theorem putImmutable_objects (h : ContentAddressed B s) (hb : bytes ∈ B.stored) :
    (s.putImmutable (B.contentKey pre bytes) bytes).objects (B.contentKey pre bytes) =
      some bytes := by
  rw [GitStore.putImmutable]
  cases hs : s.objects (B.contentKey pre bytes) with
  | none =>
    rw [if_neg (by simp)]
    exact Function.update_self ..
  | some bytes' =>
    rw [if_pos (by simp), hs, h.eq hb hs]

theorem grows_putImmutable (s : GitStore) (key : String) (bytes : ByteArray) :
    Grows s (s.putImmutable key bytes) := by
  rw [GitStore.putImmutable]
  split
  · exact .refl s
  · rename_i hnone
    refine ⟨fun k b hk => ?_, fun _ => List.prefix_rfl⟩
    dsimp only
    rw [Function.update_of_ne]
    · exact hk
    · rintro rfl
      rw [hk] at hnone
      exact hnone rfl

theorem ContentAddressed.putImmutable (h : ContentAddressed B s) (hb : bytes ∈ B.stored) :
    ContentAddressed B (s.putImmutable (B.contentKey pre bytes) bytes) := by
  rw [GitStore.putImmutable]
  split
  · exact h
  · intro key b hk
    dsimp only at hk
    by_cases hkey : key = B.contentKey pre bytes
    · rw [hkey, Function.update_self] at hk
      cases hk
      exact ⟨hb, pre, hkey⟩
    · rw [Function.update_of_ne hkey] at hk
      exact h key b hk

theorem putImmutable_pointers (s : GitStore) (key : String) (bytes : ByteArray) :
    (s.putImmutable key bytes).pointers = s.pointers ∧
      (s.putImmutable key bytes).installed = s.installed := by
  rw [GitStore.putImmutable]
  split
  · exact ⟨rfl, rfl⟩
  · exact ⟨rfl, rfl⟩

theorem Line.putImmutable (h : Line B s pkey ms) (key : String) (bytes : ByteArray) :
    Line B (s.putImmutable key bytes) pkey ms := by
  obtain ⟨hp, hi⟩ := putImmutable_pointers s key bytes
  refine ⟨h.chain, ?_, fun m hm => (h.published m hm).mono (grows_putImmutable s key bytes), ?_, ?_⟩
  · rw [hi]
    exact h.installed
  · rw [hp]
    exact h.absent
  · rw [hp]
    exact h.pointer

theorem installPointer_self (s : GitStore) (i : PushId) (pkey : String) (body : ByteArray) :
    (B.installPointer s i pkey body).installed pkey = s.installed pkey ++ [(i, body)] ∧
      (B.installPointer s i pkey body).pointers pkey = some (B.etag s.versions body, body) :=
  ⟨Function.update_self .., Function.update_self ..⟩

theorem installPointer_of_ne (s : GitStore) (i : PushId) (body : ByteArray) (hk : k ≠ pkey) :
    (B.installPointer s i pkey body).installed k = s.installed k ∧
      (B.installPointer s i pkey body).pointers k = s.pointers k :=
  ⟨Function.update_of_ne hk .., Function.update_of_ne hk ..⟩

theorem grows_installPointer (s : GitStore) (i : PushId) (pkey : String) (body : ByteArray) :
    Grows s (B.installPointer s i pkey body) := by
  refine ⟨fun _ _ h => h, fun k => ?_⟩
  by_cases hk : k = pkey
  · subst hk
    rw [(installPointer_self ..).1]
    exact List.prefix_append _ _
  · exact (installPointer_of_ne s i body hk).1 ▸ List.prefix_rfl

/-- A pointer write whose manifest names the digest that the pointer has adds a link. -/
theorem Line.install (h : Line B s pkey ms) (hm : Published B s m)
    (hparent : m.parent = ms.getLast?.map B.digest) :
    Line B (B.installPointer s i pkey (B.digest m).toUTF8) pkey (ms ++ [m]) := by
  refine ⟨.snoc h.chain hparent, ?_, ?_, ?_, ?_⟩
  · rw [(installPointer_self ..).1, List.map_append, List.map_append, h.installed]
    rfl
  · intro m' hm'
    rcases List.mem_append.mp hm' with hold | hnew
    · exact (h.published m' hold).mono (grows_installPointer s i pkey _)
    · rw [List.mem_singleton.mp hnew]
      exact hm.mono (grows_installPointer s i pkey _)
  · intro hnil
    simp at hnil
  · intro m' hlast
    rw [List.getLast?_append, List.getLast?_singleton, Option.some_or] at hlast
    cases hlast
    exact ⟨s.versions, (installPointer_self ..).2⟩

theorem Line.install_other (h : Line B s k ms) (hk : k ≠ pkey) :
    Line B (B.installPointer s i pkey body) k ms := by
  obtain ⟨hi, hp⟩ := installPointer_of_ne (B := B) s i body hk
  refine ⟨h.chain, ?_, fun m hm => (h.published m hm).mono (grows_installPointer s i pkey _), ?_, ?_⟩
  · rw [hi]
    exact h.installed
  · rw [hp]
    exact h.absent
  · rw [hp]
    exact h.pointer

/-- What holds of the store between two operations, for manifests that are good in a sense that
later writes do not take away. -/
def protocol (B : Backend) (good : GitStore → Manifest → Prop) : Protocol GitStore where
  inv s := ContentAddressed B s ∧ ∀ pkey, ∃ ms, Line B s pkey ms ∧ ∀ m ∈ ms, good s m
  rely := Grows
  refl := Grows.refl
  trans _ _ _ := Grows.trans

section Safety

variable {good : GitStore → Manifest → Prop} {admits : Manifest → Workspace → Prop}
  {post : α → GitStore → Prop}

/-- A create-only write is safe, and after it the object is there. -/
theorem safe_put (hgood : ∀ s t m, Grows s t → good s m → good t m)
    {next : Except StoreError String → GitProg α}
    (h : ∀ r t, Grows s t → (∀ key, r = .ok key → key = B.contentKey pre bytes ∧
      bytes ∈ B.stored ∧ t.objects key = some bytes) →
      Safe (protocol B good) (Exec B admits) i post (next r) t) :
    Safe (protocol B good) (Exec B admits) i post (.call (.putImmutable pre bytes) next) s := by
  intro s₁ hs₁ hinv r s₂ hexec
  have hput : bytes ∈ B.stored →
      (protocol B good).inv (s₁.putImmutable (B.contentKey pre bytes) bytes) := by
    intro hb
    refine ⟨hinv.1.putImmutable hb, fun pkey => ?_⟩
    obtain ⟨ms, hline, hms⟩ := hinv.2 pkey
    exact ⟨ms, hline.putImmutable _ _, fun m hm => hgood _ _ _ (grows_putImmutable ..) (hms m hm)⟩
  cases hexec with
  | put hb =>
    refine ⟨hput hb, grows_putImmutable .., h _ _ (hs₁.trans (grows_putImmutable ..)) ?_⟩
    intro key hkey
    cases hkey
    exact ⟨rfl, hb, putImmutable_objects hinv.1 hb⟩
  | putFailed e => exact ⟨hinv, .refl _, h _ _ hs₁ nofun⟩
  | putUnanswered hb e =>
    exact ⟨hput hb, grows_putImmutable .., h _ _ (hs₁.trans (grows_putImmutable ..)) nofun⟩

end Safety

/-- The keys under which the packs of a compaction were stored. -/
def Uploaded (s : GitStore) (packs : List CompactedPack) (keys : List String) : Prop :=
  List.Forall₂ (fun p key => ∃ bytes, p.read = .ok bytes ∧ s.objects key = some bytes) packs keys

theorem Uploaded.mono (h : Uploaded s packs keys) (hg : Grows s t) : Uploaded t packs keys := by
  refine h.imp fun p key hk => ?_
  obtain ⟨bytes, hread, hs⟩ := hk
  exact ⟨bytes, hread, hg.objects _ _ hs⟩

/-- How the manifest of a push came about, with its packs in the store. -/
inductive Composed (s : GitStore) (ps : ParentState) (w : Workspace) (head : String)
    (refs : RefMap) : Manifest → Prop where
  | compacted (hcapture : captureCompactedPacks w refs w.limits = .ok packs)
    (hkeys : Uploaded s packs keys) :
    Composed s ps w head refs (composeCompactedAfter ps.parentDigest head refs (sortDedup keys))
  | refsOnly (hcapture : capturePack w ps.parent.refs refs w.limits.maxPackBytes = .ok none) :
    Composed s ps w head refs (composeAfter ps.parent ps.parentDigest head refs none)
  | delta (hcapture : capturePack w ps.parent.refs refs w.limits.maxPackBytes = .ok (some bytes))
    (hstored : s.objects key = some bytes) :
    Composed s ps w head refs (composeAfter ps.parent ps.parentDigest head refs (some key))

def Staged (s : GitStore) (ps : ParentState) (w : Workspace) (m : Manifest) : Prop :=
  ∃ refs headObserved, snapshotWorkspaceState w = .ok (refs, headObserved) ∧
    Composed s ps w (resolvePublishedHead refs headObserved ps.parent.head) refs m

theorem Staged.shape (h : Staged s ps w m) :
    m.version = MANIFEST_VERSION ∧ m.packs.Pairwise (· < ·) ∧ m.parent = ps.parentDigest := by
  obtain ⟨refs, _, _, hc⟩ := h
  cases hc with
  | compacted _ _ => exact ⟨rfl, sortDedup_pairwise _, rfl⟩
  | refsOnly _ => exact ⟨rfl, sortDedup_pairwise _, rfl⟩
  | delta _ _ => exact ⟨rfl, sortDedup_pairwise _, rfl⟩

section Stage

variable {good : GitStore → Manifest → Prop} {admits : Manifest → Workspace → Prop}

theorem safe_upload (hgood : ∀ s t m, Grows s t → good s m → good t m)
    (packs : List CompactedPack) (timer : Option Nat) (s : GitStore) :
    Safe (protocol B good) (Exec B admits) i
      (fun r t => ∀ keys, r = .ok keys → Uploaded t packs keys)
      (uploadCompactedPacks packs timer) s := by
  induction packs generalizing timer s with
  | nil =>
    rw [uploadCompactedPacks]
    intro keys hk
    cases hk
    exact .nil
  | cons p packs ih =>
    rw [uploadCompactedPacks.eq_def]
    split
    · contradiction
    · exact nofun
    · rename_i hl _
      cases hl
      split
      · exact nofun
      · rename_i bytes hread
        split
        · exact nofun
        · refine safe_put hgood fun r t hg hr => ?_
          cases r with
          | error e => exact nofun
          | ok key =>
            obtain ⟨_, _, hstored⟩ := hr key rfl
            dsimp only [Prog.bind]
            split
            · exact nofun
            · refine (ih _ t).bind fun r' t' hg' hr' => ?_
              cases r' with
              | error e => exact nofun
              | ok keys =>
                intro keys' hk
                cases hk
                exact .cons ⟨bytes, hread, hg'.objects _ _ hstored⟩ (hr' keys rfl)

theorem safe_prepare (hgood : ∀ s t m, Grows s t → good s m → good t m) (w : Workspace)
    (refs : RefMap) (packsBefore : Nat) (s : GitStore) :
    Safe (protocol B good) (Exec B admits) i
      (fun r t => ∀ keys, r = .ok keys → ∃ packs uploaded, keys = sortDedup uploaded ∧
        captureCompactedPacks w refs w.limits = .ok packs ∧ Uploaded t packs uploaded)
      (prepareCompaction w refs packsBefore) s := by
  rw [prepareCompaction]
  split
  · exact nofun
  · rename_i packs hcapture
    split
    · exact nofun
    · refine (safe_upload hgood packs w.compactionTimer s).bind fun r t _ hr => ?_
      cases r with
      | error e => exact nofun
      | ok uploaded =>
        intro keys hk
        cases hk
        exact ⟨packs, uploaded, rfl, hcapture, hr uploaded rfl⟩

theorem safe_compaction (hgood : ∀ s t m, Grows s t → good s m → good t m) (w : Workspace)
    (refs : RefMap) (packsBefore threshold : Nat) (s : GitStore) :
    Safe (protocol B good) (Exec B admits) i
      (fun r t => ∀ keys, r = some (.ok keys) → ∃ packs uploaded, keys = sortDedup uploaded ∧
        captureCompactedPacks w refs w.limits = .ok packs ∧ Uploaded t packs uploaded)
      (tryCompaction w refs packsBefore threshold) s := by
  rw [tryCompaction]
  split
  · split
    · exact nofun
    · refine (safe_prepare hgood w refs packsBefore s).bind fun r t _ hr => ?_
      intro keys hk
      cases hk
      exact hr keys rfl
  · exact nofun

theorem safe_delta (hgood : ∀ s t m, Grows s t → good s m → good t m) (ps : ParentState)
    (w : Workspace) (head : String) (refs : RefMap) (failure : Option CasError) (s : GitStore) :
    Safe (protocol B good) (Exec B admits) i
      (fun r t => ∀ m, r = .ok m → Composed t ps w head refs m)
      (publishDelta ps w head refs failure) s := by
  rw [publishDelta]
  split
  · exact nofun
  · rename_i hcapture
    intro m hm
    cases hm
    exact .refsOnly hcapture
  · rename_i bytes hcapture
    split
    · exact nofun
    · split
      · exact nofun
      · split
        · exact nofun
        · refine safe_put hgood fun r t hg hr => ?_
          cases r with
          | error e => exact nofun
          | ok key =>
            intro m hm
            cases hm
            exact .delta hcapture (hr key rfl).2.2

/-- Staging is safe, and says how the manifest was composed. -/
theorem safe_stage (hgood : ∀ s t m, Grows s t → good s m → good t m) (ps : ParentState)
    (w : Workspace) (threshold : Nat) (s : GitStore) :
    Safe (protocol B good) (Exec B admits) i (fun r t => ∀ m, r = .ok m → Staged t ps w m)
      (stageManifest ps w threshold) s := by
  rw [stageManifest]
  split
  · exact nofun
  · rename_i refs headObserved hsnap
    refine (safe_compaction hgood w refs ps.parent.packs.length threshold s).bind
      fun r t _ hr => ?_
    have hdelta : ∀ failure, Safe (protocol B good) (Exec B admits) i
        (fun r t => ∀ m, r = .ok m → Staged t ps w m) (publishDelta ps w
          (resolvePublishedHead refs headObserved ps.parent.head) refs failure) t := by
      intro failure
      exact (safe_delta hgood ps w _ refs failure t).imp fun r u _ hc m hm =>
        ⟨refs, headObserved, hsnap, hc m hm⟩
    rw [composeManifest.eq_def]
    split
    · intro m hm
      cases hm
      obtain ⟨packs, uploaded, hkeys, hcapture, hup⟩ := hr _ rfl
      rw [hkeys]
      exact ⟨refs, headObserved, hsnap, .compacted hcapture hup⟩
    · exact hdelta _
    · exact hdelta _

end Stage

/-- The parent state of a push: no pointer yet, or a manifest that was installed, with the ETag
that the pointer had then. -/
def Hydrated (B : Backend) (good : GitStore → Manifest → Prop) (s : GitStore) (ps : ParentState) :
    Prop :=
  ps = .fresh ∨ ∃ m v, ps = .fromLoaded (B.etag v (B.digest m).toUTF8) (B.digest m) m ∧
    Published B s m ∧ good s m

section Push

variable {good : GitStore → Manifest → Prop} {admits : Manifest → Workspace → Prop}

theorem Hydrated.mono (hgood : ∀ s t m, Grows s t → good s m → good t m)
    (h : Hydrated B good s ps) (hg : Grows s t) : Hydrated B good t ps := by
  rcases h with rfl | ⟨m, v, hps, hm, hgm⟩
  · exact .inl rfl
  · exact .inr ⟨m, v, hps, hm.mono hg, hgood s t m hg hgm⟩

theorem hydrated_of_load (hinv : (protocol B good).inv s)
    (h : B.loadPointer s pkey = .ok loaded) : Hydrated B good s (hydratedParent loaded) := by
  obtain ⟨ms, hline, hms⟩ := hinv.2 pkey
  cases hlast : ms.getLast? with
  | none =>
    rw [loadPointer, hline.absent (List.getLast?_eq_none_iff.mp hlast)] at h
    cases h
    exact .inl rfl
  | some m =>
    obtain ⟨v, hp⟩ := hline.pointer m hlast
    have hm := List.mem_of_getLast? hlast
    have hpub := hline.published m hm
    rw [hpub.loadPointer hp] at h
    split at h
    · cases h
    · cases h
      exact .inr ⟨m, v, rfl, hpub, hms m hm⟩

/-- A pointer write that goes through finds the digest that the push was hydrated from. -/
theorem parent_of_admits (hline : Line B s pkey ms) (hyd : Hydrated B good s ps)
    (hadm : s.admits pkey ps.precond = true) : ps.parentDigest = ms.getLast?.map B.digest := by
  rcases hyd with rfl | ⟨m, v, rfl, _, _⟩
  · cases hlast : ms.getLast? with
    | none => rfl
    | some m =>
      obtain ⟨w, hp⟩ := hline.pointer m hlast
      rw [ParentState.precond, ParentState.fresh] at hadm
      dsimp only at hadm
      rw [GitStore.admits, hp] at hadm
      cases hadm
  · rw [ParentState.precond, ParentState.fromLoaded] at hadm
    dsimp only at hadm
    rw [GitStore.admits, Option.any_eq_true] at hadm
    obtain ⟨⟨etag, body⟩, hp, he⟩ := hadm
    cases hlast : ms.getLast? with
    | none =>
      rw [hline.absent (List.getLast?_eq_none_iff.mp hlast)] at hp
      cases hp
    | some m' =>
      obtain ⟨w, hp'⟩ := hline.pointer m' hlast
      rw [hp'] at hp
      cases hp
      have hsame := B.etagBody w v _ _ (beq_iff_eq.mp he)
      rw [Option.map_some, digest, digest, hsame]
      rfl

theorem inv_install (hgood : ∀ s t m, Grows s t → good s m → good t m)
    (hinv : (protocol B good).inv s) (hyd : Hydrated B good s ps)
    (hadm : s.admits pkey ps.precond = true) (hm : Published B s m) (hgm : good s m)
    (hparent : m.parent = ps.parentDigest) :
    (protocol B good).inv (B.installPointer s i pkey (B.digest m).toUTF8) := by
  have hg := grows_installPointer (B := B) s i pkey (B.digest m).toUTF8
  refine ⟨hinv.1, fun k => ?_⟩
  obtain ⟨ms, hline, hms⟩ := hinv.2 k
  by_cases hk : k = pkey
  · subst hk
    refine ⟨ms ++ [m], hline.install hm (hparent.trans (parent_of_admits hline hyd hadm)), ?_⟩
    intro m' hm'
    rcases List.mem_append.mp hm' with hold | hnew
    · exact hgood _ _ _ hg (hms m' hold)
    · rw [List.mem_singleton.mp hnew]
      exact hgood _ _ _ hg hgm
  · exact ⟨ms, hline.install_other hk, fun m' hm' => hgood _ _ _ hg (hms m' hm')⟩

/-- A successful push has installed its manifest. -/
def Installed (B : Backend) (i : PushId) (pkey : String) (success : CasSuccess) (s : GitStore) :
    Prop :=
  Published B s success.manifest ∧
    success.manifestKey = B.contentKey "manifests" success.manifest.canonicalBytes ∧
    (i, (B.digest success.manifest).toUTF8) ∈ s.installed pkey

theorem Installed.mono (h : Installed B i pkey success s) (hg : Grows s t) :
    Installed B i pkey success t :=
  ⟨h.1.mono hg, h.2.1, (hg.installed pkey).subset h.2.2⟩

theorem safe_publish (hgood : ∀ s t m, Grows s t → good s m → good t m)
    (hyd : Hydrated B good s ps) (hgm : good s m)
    (hver : m.version = MANIFEST_VERSION) (hpacks : m.packs.Pairwise (· < ·))
    (hparent : m.parent = ps.parentDigest) :
    Safe (protocol B good) (Exec B admits) i
      (fun r t => ∀ success, r = .ok success → Installed B i pkey success t)
      (publishManifest pkey ps m) s := by
  rw [publishManifest]
  split
  · exact nofun
  · rename_i hvalid
    refine safe_put hgood fun r t hg hr => ?_
    cases r with
    | error e => exact nofun
    | ok key =>
      obtain ⟨hkey, _, hstored⟩ := hr key rfl
      subst hkey
      have hm : Published B t m := ⟨hver, hpacks, hvalid, hstored⟩
      dsimp only [Prog.bind]
      rw [contentKey, digestFromManifestKey_toHex]
      intro t₁ ht₁ hinv r t₂ hexec
      have hinst : t₁.admits pkey ps.precond = true →
          (protocol B good).inv (B.installPointer t₁ i pkey (B.digest m).toUTF8) := fun hadm =>
        inv_install hgood hinv (hyd.mono hgood (hg.trans ht₁)) hadm (hm.mono ht₁)
          (hgood _ _ _ (hg.trans ht₁) hgm) hparent
      cases hexec with
      | won hadm =>
        refine ⟨hinst hadm, grows_installPointer .., ?_⟩
        intro success hs
        cases hs
        refine ⟨(hm.mono ht₁).mono (grows_installPointer ..), rfl, ?_⟩
        rw [(installPointer_self ..).1]
        exact List.mem_append_right _ (List.mem_singleton_self _)
      | lost _ =>
        refine ⟨hinv, .refl _, fun u₁ _ hinv' r u₂ hexec' => ?_⟩
        cases hexec' with
        | winner =>
          refine ⟨hinv', .refl _, ?_⟩
          dsimp only [Prog.bind]
          split
          · exact nofun
          · exact nofun
        | winnerFailed e => exact ⟨hinv', .refl _, nofun⟩
      | pointerFailed e => exact ⟨hinv, .refl _, nofun⟩
      | pointerUnanswered hadm e => exact ⟨hinst hadm, grows_installPointer .., nofun⟩

/-- A push is safe, if what it stages from a good parent is good. -/
theorem safe_push (hgood : ∀ s t m, Grows s t → good s m → good t m)
    (hstage : ∀ s ps w m, Hydrated B good s ps → admits ps.parent w → Staged s ps w m → good s m)
    (i : PushId) (pkey : String) (s : GitStore) :
    Safe (protocol B good) (Exec B admits) i
      (fun r t => ∀ success, r = .ok success → Installed B i pkey success t) (push pkey) s := by
  rw [push]
  intro s₁ _ hinv r s₂ hexec
  have hload : s₂ = s₁ ∧ ∀ loaded, r = .ok loaded →
      Hydrated B good s₁ (hydratedParent loaded) := by
    cases hexec with
    | load => exact ⟨rfl, fun loaded hr => hydrated_of_load hinv hr⟩
    | loadFailed e => exact ⟨rfl, nofun⟩
  obtain ⟨rfl, hload⟩ := hload
  cases r with
  | error e => exact ⟨hinv, .refl _, nofun⟩
  | ok loaded =>
    have hyd := hload loaded rfl
    refine ⟨hinv, .refl _, fun t₁ ht₁ hinv₁ r t₂ hexec' => ?_⟩
    cases hexec' with
    | receiveFailed e => exact ⟨hinv₁, .refl _, nofun⟩
    | received hadm =>
      rename_i w
      refine ⟨hinv₁, .refl _, ?_⟩
      have hyd₁ := hyd.mono hgood ht₁
      have hcas : Safe (protocol B good) (Exec B admits) i
          (fun r t => ∀ success, r = .ok success → Installed B i pkey success t)
          (casPublish pkey (hydratedParent loaded) w) t₁ := by
        refine (safe_stage hgood (hydratedParent loaded) w _ t₁).bind fun r u hu hr => ?_
        cases r with
        | error e => exact nofun
        | ok m =>
          have hstaged := hr m rfl
          obtain ⟨hver, hpacks, hparent⟩ := hstaged.shape
          have hydu := hyd₁.mono hgood hu
          exact safe_publish hgood hydu (hstage u _ w m hydu hadm hstaged) hver hpacks hparent
      refine hcas.bind fun r u _ hr => ?_
      cases r with
      | error e => exact nofun
      | ok success =>
        intro success' hs
        cases hs
        exact hr success rfl

theorem inv_empty : (protocol B good).inv .empty := by
  refine ⟨nofun, fun pkey => ⟨[], ⟨.nil, rfl, nofun, fun _ => rfl, nofun⟩, nofun⟩⟩

end Push

end Backend

end Buzz
