import Buzz.Git.PushSystem
import Buzz.Lib.Sha256

namespace Buzz
set_option autoImplicit true
open Interleave HashChain

namespace Backend

variable {B : Backend}

theorem mem_stored (hca : ContentAddressed B s) (h : Published B s m) :
    m.canonicalBytes ∈ B.stored :=
  (hca _ _ h.stored).1

theorem digest_inj (hca : ContentAddressed B s) (h : Published B s m) (h' : Published B s m')
    (he : B.digest m = B.digest m') : m = m' := by
  have hsha := HexId.toHex_injective he
  exact canonicalBytes_inj h h' (B.collisionFree (mem_stored hca h) (mem_stored hca h') hsha)

theorem Line.nodup (hca : ContentAddressed B s) (h : Line B s pkey ms) :
    (ms.map B.digest).Nodup := by
  apply h.chain.nodup
  intro a ha b hb he
  rw [digest_inj hca (h.published a ha) (h.published b hb) he]

/-- The link of a successful push. -/
theorem Line.link (hca : ContentAddressed B s) (h : Line B s pkey ms)
    (hi : Installed B i pkey success s) :
    ∃ before after, ms = before ++ success.manifest :: after ∧
      success.manifest.parent = before.getLast?.map B.digest ∧
      (s.installed pkey)[before.length]? = some (i, (B.digest success.manifest).toUTF8) := by
  obtain ⟨hpub, _, hmem⟩ := hi
  obtain ⟨k, hk⟩ := List.mem_iff_getElem?.mp hmem
  have hsnd : ((s.installed pkey).map Prod.snd)[k]? = some (B.digest success.manifest).toUTF8 := by
    rw [List.getElem?_map, hk]
    rfl
  rw [h.installed, List.getElem?_map, Option.map_eq_some_iff] at hsnd
  obtain ⟨m, hm, he⟩ := hsnd
  have hdig : B.digest m = B.digest success.manifest := String.toByteArray_inj.mp he
  obtain rfl := digest_inj hca (h.published m (List.mem_of_getElem? hm)) hpub hdig
  obtain ⟨hlt, hget⟩ := List.getElem?_eq_some_iff.mp hm
  have hsplit : ms = ms.take k ++ success.manifest :: ms.drop (k + 1) := by
    rw [← hget, List.cons_getElem_drop_succ, List.take_append_drop]
  refine ⟨ms.take k, ms.drop (k + 1), hsplit, ?_, ?_⟩
  · have hchain := h.chain
    rw [hsplit] at hchain
    exact hchain.parent_eq
  · rw [List.length_take, Nat.min_eq_left (Nat.le_of_lt hlt)]
    exact hk

end Backend

open Backend in
/-- In every interleaving of pushes the manifests that were ever installed under a pointer form
one chain without a fork and without a digest that comes back, and each push that has returned
successfully is a link of it, whose parent is the digest installed just before. -/
theorem push_chain (B : Backend) (admits : Manifest → Workspace → Prop) (target : PushId → String)
    (hrun : Relation.ReflTransGen (Step (Exec B admits)) (pushStart target) c) (pkey : String) :
    ∃ ms, (c.shared.installed pkey).map Prod.snd = ms.map (fun m => (B.digest m).toUTF8) ∧
      Chain B.digest Manifest.parent ms ∧ (ms.map Manifest.parent).Nodup ∧
      (ms.map B.digest).Nodup ∧
      ∀ i success, target i = pkey → c.thread i = .ret (.ok success) →
        ∃ before after, ms = before ++ success.manifest :: after ∧
          success.manifest.parent = before.getLast?.map B.digest ∧
          (c.shared.installed pkey)[before.length]? =
            some (i, (B.digest success.manifest).toUTF8) := by
  have hsafe : ∀ i, Safe (protocol B fun _ _ => True) (Exec B admits) i
      (fun r t => ∀ success, r = .ok success → Installed B i (target i) success t)
      ((pushStart target).thread i) (pushStart target).shared := fun i =>
    safe_push (fun _ _ _ _ _ => trivial) (fun _ _ _ _ _ _ _ => trivial) i (target i) _
  obtain ⟨hinv, hdone⟩ := safe_run
    (fun i r s t hg h success hs => (h success hs).mono hg) hrun inv_empty hsafe
  obtain ⟨ms, hline, _⟩ := hinv.2 pkey
  have hnd := hline.nodup hinv.1
  refine ⟨ms, hline.installed, hline.chain, hline.chain.nodup_parent hnd, hnd, ?_⟩
  intro i success htarget hret
  have hins := hdone i _ hret success rfl
  rw [htarget] at hins
  exact hline.link hinv.1 hins

/-- Left alone, a push whose precondition holds goes through. -/
theorem alone_publish {B : Backend} {m : Manifest} (hvalid : m.validate = .ok ())
    (hb : m.canonicalBytes ∈ B.stored)
    (hadm : (s.putImmutable (B.contentKey "manifests" m.canonicalBytes) m.canonicalBytes).admits
      pkey ps.precond = true) :
    Alone (Exec B admits) i (publishManifest pkey ps m) s
      (.ret (.ok ⟨m, B.contentKey "manifests" m.canonicalBytes⟩))
      (B.installPointer (s.putImmutable (B.contentKey "manifests" m.canonicalBytes)
        m.canonicalBytes) i pkey (B.digest m).toUTF8) := by
  have hkey : digestFromManifestKey (B.contentKey "manifests" m.canonicalBytes) =
      .ok (B.digest m) := digestFromManifestKey_toHex _
  rw [publishManifest, hvalid]
  refine .call (.put hb) ?_
  dsimp only [Prog.bind]
  rw [hkey]
  exact .call (.won hadm) .refl

namespace PushExample

def oid : String := "1f0e3dad99908345f7439f8ffabdffc41f0e3dad"

def pack : ByteArray := "PACK: one commit, one tree".toUTF8

def refs : RefMap := (∅ : RefMap).insert "refs/heads/main" oid

/-- A first push of one branch. -/
def workspace : Workspace where
  forEachRef := .ok ("refs/heads/main " ++ oid ++ "\n").toUTF8
  symbolicRef := .ok "refs/heads/main"
  packObjects positive negative :=
    if positive = [oid] ∧ negative = [] then .ok pack
    else .error (.packCapture "pack-objects failed")
  countObjects := .ok (0, 1)
  compactObjects _ := .error (.packCapture "compaction pack-objects failed")
  compactionPermit := .ok ()
  compactionTimer := none
  limits := ⟨0, 1000, 1000⟩

def packKey : String := "packs" ++ "/" ++ (sha256 pack).toHex

def manifest : Manifest :=
  composeAfter ParentState.fresh.parent none "refs/heads/main" refs (some packKey)

/-- A bucket whose ETags depend on nothing but the body. -/
def backend : Backend where
  sha256 := sha256
  stored := {pack, manifest.canonicalBytes}
  collisionFree := by
    have hne : sha256 pack ≠ sha256 manifest.canonicalBytes := by decide +kernel
    rintro a (rfl | rfl) b (rfl | rfl) hab
    · rfl
    · exact absurd hab hne
    · exact absurd hab.symm hne
    · rfl
  etag _ body := ⟨(String.fromUTF8? body).getD ""⟩
  etagBody v w d e h := by
    rw [fromUTF8_toUTF8, fromUTF8_toUTF8] at h
    exact HexId.toHex_injective (ETag.mk.inj h)

theorem snapshot_workspace :
    snapshotWorkspaceState workspace = .ok (refs, "refs/heads/main") := by
  have hrefs : readRefs ("refs/heads/main " ++ oid ++ "\n").toUTF8 = .ok refs := by
    rw [readRefs, if_neg (by decide +kernel), fromUTF8_toUTF8]
    rfl
  change (readRefs ("refs/heads/main " ++ oid ++ "\n").toUTF8 >>= fun refs =>
    .ok (refs, trim "refs/heads/main")) = _
  rw [hrefs]
  rfl

theorem stage_workspace :
    Alone (Exec backend admits) 0 (stageManifest .fresh workspace PACK_COMPACTION_THRESHOLD)
      .empty (.ret (.ok manifest)) (GitStore.empty.putImmutable packKey pack) := by
  rw [stageManifest, snapshot_workspace]
  exact .call (.put (.inl rfl)) .refl

theorem validate_manifest : manifest.validate = .ok () := by
  decide +kernel

def success : CasSuccess := ⟨manifest, backend.contentKey "manifests" manifest.canonicalBytes⟩

/-- The bucket after the push. -/
def published : GitStore :=
  backend.installPointer ((GitStore.empty.putImmutable packKey pack).putImmutable
    (backend.contentKey "manifests" manifest.canonicalBytes) manifest.canonicalBytes) 0 "p"
    (backend.digest manifest).toUTF8

theorem admits_first (key key' : String) (bytes bytes' : ByteArray) :
    ((GitStore.empty.putImmutable key bytes).putImmutable key' bytes').admits "p"
      ParentState.fresh.precond = true := by
  change Option.isNone _ = true
  rw [(Backend.putImmutable_pointers ..).1, (Backend.putImmutable_pointers ..).1]
  rfl

theorem publish_manifest :
    Alone (Exec backend admits) 0 (publishManifest "p" .fresh manifest)
      (GitStore.empty.putImmutable packKey pack) (.ret (.ok success)) published :=
  alone_publish validate_manifest (.inr rfl) (admits_first ..)

/-- The push on its own, with any assumption on git that its workspace meets. -/
theorem push_alone {admits : Manifest → Workspace → Prop} (h : ∀ parent, admits parent workspace) :
    Alone (Exec backend admits) 0 (push "p") .empty (.ret (.ok success)) published := by
  have hcas : Alone (Exec backend admits) 0 (casPublish "p" .fresh workspace) .empty
      (.ret (.ok success)) published := stage_workspace.bind publish_manifest
  refine .call .load (.call (.received (h _)) ?_)
  change Alone _ 0 (casPublish "p" .fresh workspace >>= _) _ _ _
  exact hcas.bind .refl

end PushExample

open PushExample in
/-- A first push that goes through is the only link of the chain. -/
theorem push_chain_first :
    ∃ c, Relation.ReflTransGen (Step (Exec backend fun _ _ => True)) (pushStart fun _ => "p") c ∧
      c.thread 0 = .ret (.ok success) ∧ ∃ before : List Manifest,
        success.manifest.parent = before.getLast?.map backend.digest ∧
        (c.shared.installed "p")[before.length]? =
          some (0, (backend.digest success.manifest).toUTF8) := by
  have halone : Alone (Exec backend fun _ _ => True) 0 (push "p") .empty (.ret (.ok success))
      published := push_alone fun _ => trivial
  obtain ⟨c, hrun, _, hret⟩ := halone.run (pushStart fun _ => "p") rfl rfl
  obtain ⟨ms, _, _, _, _, hlink⟩ := push_chain backend _ _ hrun "p"
  obtain ⟨before, _, _, hparent, hindex⟩ := hlink 0 success rfl hret
  exact ⟨c, hrun, hret, before, hparent, hindex⟩

end Buzz
