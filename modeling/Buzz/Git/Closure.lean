import Buzz.Git.PushChain

namespace Buzz
set_option autoImplicit true
open Interleave Backend

section Closure

variable (links : String → String → Prop) (contents : ByteArray → Set String)

/-- The objects that some of the given ones reach. -/
def ReachedFrom (oids : List String) (o : String) : Prop :=
  ∃ oid ∈ oids, Relation.ReflTransGen links oid o

/-- `pack-objects --revs` emits exactly the objects that the positive oids reach and the negative
ones do not. A compaction spreads them over packs, and an empty file holds none. -/
structure ExactGit (w : Workspace) : Prop where
  delta : ∀ positive negative pack, w.packObjects positive negative = .ok pack →
    contents pack = {o | ReachedFrom links positive o ∧ ¬ReachedFrom links negative o}
  compact : ∀ positive packs, w.compactObjects positive = .ok packs →
    ∀ bytes, List.Forall₂ (fun p b => p.read = .ok b) packs bytes →
      {o | ∃ b ∈ bytes, o ∈ contents b} = {o | ReachedFrom links positive o}
  nothing : contents .empty = ∅

/-- The objects in the stored packs of a manifest. -/
def PackedIn (s : GitStore) (packs : List String) (o : String) : Prop :=
  ∃ key ∈ packs, ∃ bytes, s.objects key = some bytes ∧ o ∈ contents bytes

/-- The packs hold every object that a ref reaches. -/
def Closed (s : GitStore) (m : Manifest) : Prop :=
  ∀ o, ReachedFrom links (values m.refs) o → PackedIn contents s m.packs o

variable {links contents}

theorem PackedIn.mono (h : PackedIn contents s packs o) (hg : Grows s t) :
    PackedIn contents t packs o := by
  obtain ⟨key, hkey, bytes, hs, ho⟩ := h
  exact ⟨key, hkey, bytes, hg.objects _ _ hs, ho⟩

theorem PackedIn.subset (h : PackedIn contents s packs o) (hsub : ∀ k ∈ packs, k ∈ packs') :
    PackedIn contents s packs' o := by
  obtain ⟨key, hkey, hrest⟩ := h
  exact ⟨key, hsub key hkey, hrest⟩

theorem mem_composeAfter_packs (h : k ∈ parent.packs) :
    k ∈ (composeAfter parent parentDigest head refs newKey).packs := by
  rw [composeAfter.eq_def]
  cases newKey with
  | none => exact mem_sortDedup.mpr h
  | some key =>
    dsimp only
    rw [mem_sortDedup]
    split
    · exact h
    · exact List.mem_append_left _ h

theorem newKey_mem_composeAfter_packs :
    k ∈ (composeAfter parent parentDigest head refs (some k)).packs := by
  rw [composeAfter]
  dsimp only
  rw [mem_sortDedup]
  split
  · rename_i hin
    exact List.contains_iff_mem.mp hin
  · exact List.mem_append_right _ (List.mem_singleton_self k)

/-- A delta pack has what the parent's packs lack. -/
theorem capturePack_some (hw : ExactGit links contents w)
    (h : capturePack w before after maxBytes = .ok (some pack))
    (ho : ReachedFrom links (values after) o) :
    o ∈ contents pack ∨ ReachedFrom links (values before) o := by
  rw [capturePack] at h
  split at h
  · cases h
  · cases hp : w.packObjects (values after) (values before) with
    | error e =>
      rw [hp] at h
      cases h
    | ok pack' =>
      rw [hp] at h
      change (if _ then _ else if _ then _ else _) = _ at h
      split at h
      · cases h
      · split at h
        · cases h
        · cases h
          rw [hw.delta _ _ _ hp]
          by_cases hb : ReachedFrom links (values before) o
          · exact .inr hb
          · exact .inl ⟨ho, hb⟩

/-- Without a delta pack the parent's refs already reach everything. -/
theorem capturePack_none (hw : ExactGit links contents w)
    (h : capturePack w before after maxBytes = .ok none)
    (ho : ReachedFrom links (values after) o) : ReachedFrom links (values before) o := by
  rw [capturePack] at h
  split at h
  · rename_i hnil
    rw [hnil] at ho
    obtain ⟨oid, hoid, _⟩ := ho
    cases hoid
  · cases hp : w.packObjects (values after) (values before) with
    | error e =>
      rw [hp] at h
      cases h
    | ok pack =>
      rw [hp] at h
      change (if _ then _ else if _ then _ else _) = _ at h
      split at h
      · cases h
      · split at h
        · rename_i hsize
          have hempty : pack = .empty := ByteArray.size_eq_zero_iff.mp hsize
          have hexact := hw.delta _ _ _ hp
          rw [hempty, hw.nothing] at hexact
          by_contra hb
          have hin : o ∈ (∅ : Set String) := by
            rw [hexact]
            exact ⟨ho, hb⟩
          exact hin
        · cases h

theorem uploaded_bytes (h : Uploaded s packs keys) :
    ∃ bytes, List.Forall₂ (fun p b => p.read = .ok b) packs bytes ∧
      ∀ b ∈ bytes, ∃ key ∈ keys, s.objects key = some b := by
  induction h with
  | nil => exact ⟨[], .nil, nofun⟩
  | @cons p key packs keys hp _ ih =>
    obtain ⟨b, hread, hs⟩ := hp
    obtain ⟨bytes, hreads, hstored⟩ := ih
    refine ⟨b :: bytes, .cons hread hreads, ?_⟩
    rw [List.forall_mem_cons]
    refine ⟨⟨key, List.mem_cons_self, hs⟩, fun b' hb' => ?_⟩
    obtain ⟨key', hkey', hs'⟩ := hstored b' hb'
    exact ⟨key', List.mem_cons_of_mem _ hkey', hs'⟩

/-- The packs of a compaction have everything that the refs reach. -/
theorem captureCompactedPacks_closed (hw : ExactGit links contents w)
    (h : captureCompactedPacks w refs limits = .ok packs) (hup : Uploaded s packs keys)
    (ho : ReachedFrom links (values refs) o) : PackedIn contents s keys o := by
  rw [captureCompactedPacks] at h
  split at h
  · rename_i hempty
    have hnil : values refs = [] := by
      rw [values, Std.ExtTreeMap.toList_eq_nil_iff.mpr (Std.ExtTreeMap.isEmpty_iff.mp hempty)]
      rfl
    rw [hnil] at ho
    obtain ⟨oid, hoid, _⟩ := ho
    cases hoid
  · have hcompact : w.compactObjects (values refs).dedup = .ok packs := by
      cases hlimit : enforceCompactionObjectLimit w with
      | error e =>
        rw [hlimit] at h
        cases h
      | ok u =>
        cases hc : w.compactObjects (values refs).dedup with
        | error e =>
          rw [hlimit, hc] at h
          cases h
        | ok packs' =>
          rw [hlimit, hc] at h
          change (if _ then _ else _) = _ at h
          split at h
          · cases h
          · cases hcheck : checkCompactedPacks limits 0 packs' with
            | error e =>
              rw [hcheck] at h
              cases h
            | ok u =>
              rw [hcheck] at h
              cases h
              rfl
    obtain ⟨bytes, hreads, hstored⟩ := uploaded_bytes hup
    have hexact := hw.compact _ _ hcompact bytes hreads
    have hmem : o ∈ {o | ∃ b ∈ bytes, o ∈ contents b} := by
      rw [hexact]
      obtain ⟨oid, hoid, hreach⟩ := ho
      exact ⟨oid, List.mem_dedup.mpr hoid, hreach⟩
    obtain ⟨b, hb, hob⟩ := hmem
    obtain ⟨key, hkey, hs⟩ := hstored b hb
    exact ⟨key, hkey, b, hs, hob⟩

/-- A push from a closed parent stages a closed manifest. -/
theorem closed_of_staged (hyd : Hydrated B (Closed links contents) s ps)
    (hw : ExactGit links contents w) (hstaged : Staged s ps w m) : Closed links contents s m := by
  have hbefore : ∀ o, ReachedFrom links (values ps.parent.refs) o →
      PackedIn contents s ps.parent.packs o := by
    rcases hyd with rfl | ⟨parent, v, rfl, _, hclosed⟩
    · rintro o ⟨oid, hoid, _⟩
      cases hoid
    · exact hclosed
  obtain ⟨refs, _, _, hc⟩ := hstaged
  intro o ho
  cases hc with
  | compacted hcapture hkeys =>
    apply (captureCompactedPacks_closed hw hcapture hkeys ho).subset
    intro k hk
    exact mem_sortDedup.mpr (mem_sortDedup.mpr hk)
  | refsOnly hcapture =>
    exact (hbefore o (capturePack_none hw hcapture ho)).subset fun _ => mem_composeAfter_packs
  | @delta bytes key hcapture hstored =>
    rcases capturePack_some hw hcapture ho with hin | hb
    · exact ⟨key, newKey_mem_composeAfter_packs, bytes, hstored, hin⟩
    · exact (hbefore o hb).subset fun _ => mem_composeAfter_packs

end Closure

/-- In every history of pushes, each manifest that was ever installed under a pointer is closed:
its stored packs hold every object that its refs reach. -/
theorem push_closed (B : Backend) (links : String → String → Prop)
    (contents : ByteArray → Set String) (target : PushId → String)
    (hrun : Relation.ReflTransGen (Step (Exec B fun _ w => ExactGit links contents w))
      (pushStart target) c) (pkey : String) :
    ∃ ms : List Manifest,
      (c.shared.installed pkey).map Prod.snd = ms.map (fun m => (B.digest m).toUTF8) ∧
      (∀ m ∈ ms, c.shared.objects ("manifests/" ++ B.digest m) = some m.canonicalBytes ∧
        Closed links contents c.shared m) ∧
      ∀ i success, target i = pkey → c.thread i = .ret (.ok success) → success.manifest ∈ ms := by
  have hgood : ∀ s t m, Grows s t → Closed links contents s m → Closed links contents t m :=
    fun s t m hg h o ho => (h o ho).mono hg
  have hsafe : ∀ i, Safe (protocol B (Closed links contents))
      (Exec B fun _ w => ExactGit links contents w) i
      (fun r t => ∀ success, r = .ok success → Installed B i (target i) success t)
      ((pushStart target).thread i) (pushStart target).shared := fun i =>
    safe_push hgood (fun _ _ _ _ hyd hw hstaged => closed_of_staged hyd hw hstaged) i (target i) _
  obtain ⟨hinv, hdone⟩ := safe_run
    (fun i r s t hg h success hs => (h success hs).mono hg) hrun inv_empty hsafe
  obtain ⟨ms, hline, hclosed⟩ := hinv.2 pkey
  refine ⟨ms, hline.installed, fun m hm => ⟨(hline.published m hm).stored, hclosed m hm⟩, ?_⟩
  intro i success htarget hret
  have hins := hdone i _ hret success rfl
  rw [htarget] at hins
  obtain ⟨before, after, hms, _⟩ := hline.link hinv.1 hins
  rw [hms]
  exact List.mem_append_right _ List.mem_cons_self

namespace PushExample

/-- The commit of the example links to nothing else. -/
def noLinks (_ _ : String) : Prop := False

open Classical in
noncomputable def packContents (bytes : ByteArray) : Set String :=
  if bytes = pack then {oid} else ∅

theorem reachedFrom_noLinks : ReachedFrom noLinks oids o ↔ o ∈ oids := by
  constructor
  · intro h
    obtain ⟨oid, hoid, hreach⟩ := h
    cases hreach with
    | refl => exact hoid
    | tail _ hlink => exact hlink.elim
  · intro h
    exact ⟨o, h, .refl⟩

theorem exactGit_workspace : ExactGit noLinks packContents workspace where
  delta positive negative pack' h := by
    rw [workspace] at h
    dsimp only at h
    split at h
    · rename_i hargs
      obtain ⟨rfl, rfl⟩ := hargs
      cases h
      ext o
      rw [packContents, if_pos rfl]
      simp [reachedFrom_noLinks]
    · cases h
  compact _ _ h := by cases h
  nothing := by
    have hne : ByteArray.empty ≠ pack := by decide +kernel
    rw [packContents, if_neg hne]

end PushExample

open PushExample in
theorem push_closed_first :
    ∃ c, Relation.ReflTransGen (Step (Exec backend fun _ w => ExactGit noLinks packContents w))
        (pushStart fun _ => "p") c ∧ c.thread 0 = .ret (.ok success) ∧
      Closed noLinks packContents c.shared success.manifest := by
  obtain ⟨c, hrun, _, hret⟩ := (push_alone fun _ => exactGit_workspace).run
    (pushStart fun _ => "p") rfl rfl
  obtain ⟨ms, _, hclosed, hin⟩ := push_closed backend noLinks packContents _ hrun "p"
  exact ⟨c, hrun, hret, (hclosed _ (hin 0 success rfl hret)).2⟩

end Buzz
