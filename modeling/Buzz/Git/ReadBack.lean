import Buzz.Git.PushChain

namespace Buzz
set_option autoImplicit true
open Hex Json

theorem isAlphanum_iff (c : Char) : c.isAlphanum = true ↔
    ((65 ≤ c.toNat ∧ c.toNat ≤ 90) ∨ (97 ≤ c.toNat ∧ c.toNat ≤ 122)) ∨
      (48 ≤ c.toNat ∧ c.toNat ≤ 57) := by
  simp only [Char.isAlphanum, Char.isAlpha, Char.isUpper, Char.isLower, Char.isDigit,
    Bool.or_eq_true, Bool.and_eq_true, decide_eq_true_eq, ge_iff_le, UInt32.le_iff_toNat_le]
  rfl

theorem plain_of_safeChar (h : isSafeChar c = true) : escapeChar c = [c] ∧ c.utf8Size = 1 := by
  have hrange : 32 ≤ c.toNat ∧ c.toNat < 128 ∧ c ≠ '"' ∧ c ≠ '\\' := by
    simp only [isSafeChar, Bool.or_eq_true, beq_iff_eq] at h
    rcases h with (((h | rfl) | rfl) | rfl) | rfl
    · rw [isAlphanum_iff] at h
      have hne : ∀ d : Char, c.toNat ≠ d.toNat → c ≠ d := fun d hd he => hd (congrArg Char.toNat he)
      refine ⟨by omega, by omega, hne _ ?_, hne _ ?_⟩
      · change c.toNat ≠ 34
        omega
      · change c.toNat ≠ 92
        omega
    all_goals decide
  exact plain_of_ascii c hrange.1 hrange.2.1 hrange.2.2.1 hrange.2.2.2

theorem safeChar_of_alphanum (h : c.isAlphanum = true) : isSafeChar c = true := by
  rw [isSafeChar, h]
  rfl

theorem safeChar_of_hexdigit (h : isAsciiHexdigit c = true) : isSafeChar c = true := by
  apply safeChar_of_alphanum
  rw [isAlphanum_iff]
  rw [isAsciiHexdigit, digitVal] at h
  split at h
  · rename_i hc
    exact .inr hc
  · split at h
    · rename_i hc
      have hc' : 97 ≤ c.toNat ∧ c.toNat ≤ 102 := hc
      omega
    · split at h
      · rename_i hc
        have hc' : 65 ≤ c.toNat ∧ c.toNat ≤ 70 := hc
        omega
      · cases h

theorem safeChar_of_lowerHex (h : isLowerHex c = true) : isSafeChar c = true := by
  apply safeChar_of_alphanum
  rw [isAlphanum_iff]
  simp only [isLowerHex, Bool.or_eq_true, Bool.and_eq_true, decide_eq_true_eq] at h
  have hc : (48 ≤ c.toNat ∧ c.toNat ≤ 57) ∨ (97 ≤ c.toNat ∧ c.toNat ≤ 102) := h
  omega

/-- A text of safe characters is printed as it is. -/
theorem plain_of_safe (cs : List Char) (h : ∀ c ∈ cs, isSafeChar c = true) : Plain cs :=
  fun c hc => plain_of_safeChar (h c hc)

theorem plain_of_safeRefname (h : isSafeRefname s = true) : Plain s.toList := by
  rw [isSafeRefname, Bool.and_eq_true] at h
  exact plain_of_safe _ (List.all_eq_true.mp h.2)

theorem plain_of_hexOid (h : isHexOid s = true) : Plain s.toList := by
  rw [isHexOid, Bool.and_eq_true] at h
  exact plain_of_safe _ fun c hc => safeChar_of_hexdigit (List.all_eq_true.mp h.2 c hc)

theorem isManifestDigest_plain (h : isManifestDigest s = true) :
    Plain s.toList ∧ s.utf8ByteSize = 64 := by
  rw [isManifestDigest, Bool.and_eq_true, beq_iff_eq] at h
  exact ⟨plain_of_safe _ fun c hc => safeChar_of_lowerHex (List.all_eq_true.mp h.2 c hc), h.1⟩

theorem isManifestDigest_toHex (x : HexId 64) : isManifestDigest x.toHex = true := by
  have hdigit : ∀ d : Fin 16, isLowerHex (digitChar d) = true := by decide
  rw [isManifestDigest, x.toHex_utf8ByteSize, x.toHex_toList, Bool.and_eq_true]
  refine ⟨rfl, List.all_eq_true.mpr fun c hc => ?_⟩
  obtain ⟨d, _, rfl⟩ := List.mem_map.mp hc
  exact hdigit d

theorem isPackKey_plain (h : isPackKey s = true) : Plain s.toList ∧ s.utf8ByteSize = 70 := by
  rw [isPackKey, stripPrefix, Option.any_map, Option.any_eq_true] at h
  obtain ⟨rest, hdrop, hdigest⟩ := h
  obtain ⟨pre, hs, hpre⟩ := List.dropPrefix?_eq_some_iff.mp hdrop
  rw [beq_iff_eq] at hpre
  obtain ⟨hplain, hsize⟩ := isManifestDigest_plain hdigest
  rw [utf8ByteSize_ofList] at hsize
  rw [String.toList_ofList] at hplain
  rw [utf8ByteSize_eq, hs, hpre, textSize_append, hsize]
  refine ⟨?_, by decide⟩
  intro c hc
  rcases List.mem_append.mp hc with hpacks | hrest
  · exact plain_of_safe "packs/".toList (List.all_eq_true.mp (by decide)) c hpacks
  · exact hplain c hrest

namespace Manifest

theorem checkRefs_eq_ok (refs : List (String × String)) :
    checkRefs refs = .ok () ↔ ∀ r ∈ refs, isSafeRefname r.1 = true ∧ isHexOid r.2 = true := by
  induction refs with
  | nil => simp [checkRefs]
  | cons r refs ih =>
    obtain ⟨refname, oid⟩ := r
    rw [checkRefs, List.forall_mem_cons, ← ih]
    cases isSafeRefname refname <;> cases isHexOid oid <;> simp

theorem checkPacks_eq_ok (packs : List String) :
    checkPacks packs = .ok () ↔ ∀ k ∈ packs, isPackKey k = true := by
  induction packs with
  | nil => simp [checkPacks]
  | cons k packs ih =>
    rw [checkPacks, List.forall_mem_cons, ← ih]
    cases isPackKey k <;> simp

/-- What `validate` lets through. -/
structure Valid (m : Manifest) : Prop where
  packCount : m.packs.length ≤ MAX_MANIFEST_PACKS
  refCount : m.refs.size ≤ MAX_MANIFEST_REFS
  head : isSafeRefname m.head = true
  refs : ∀ r ∈ m.refs.toList, isSafeRefname r.1 = true ∧ isHexOid r.2 = true
  packs : ∀ k ∈ m.packs, isPackKey k = true
  parent : ∀ p, m.parent = some p → isManifestDigest p = true

theorem validate_eq_ok (m : Manifest) : m.validate = .ok () ↔ m.Valid := by
  rw [validate]
  constructor
  · intro h
    split at h
    · cases h
    · rename_i hpacks
      split at h
      · cases h
      · rename_i hrefs
        split at h
        · cases h
        · split at h
          · cases h
          · rename_i hhead
            cases hcr : checkRefs m.refs.toList with
            | error e =>
              rw [hcr] at h
              cases h
            | ok _ =>
              cases hcp : checkPacks m.packs with
              | error e =>
                rw [hcr, hcp] at h
                cases h
              | ok _ =>
                rw [hcr, hcp] at h
                refine ⟨by omega, by omega, by simpa using hhead, (checkRefs_eq_ok _).mp hcr,
                  (checkPacks_eq_ok _).mp hcp, ?_⟩
                intro p hp
                rw [hp] at h
                cases hd : isManifestDigest p with
                | true => rfl
                | false =>
                  simp [hd, bind, Except.bind] at h
  · intro h
    have hne : m.head ≠ "" := by
      intro he
      have hsafe := h.head
      rw [he] at hsafe
      cases hsafe
    rw [if_neg (by have := h.packCount; omega), if_neg (by have := h.refCount; omega), if_neg hne,
      if_neg (by simp [h.head]), (checkRefs_eq_ok _).mpr h.refs, (checkPacks_eq_ok _).mpr h.packs]
    cases hp : m.parent with
    | none => rfl
    | some p =>
      simp [h.parent p hp, bind, Except.bind]

/-- The bytes of a manifest with oids of 40 digits, as its text takes them. -/
def jsonSize (head : String) (refs : RefMap) (packCount : Nat) (parentDigest : Option String) :
    Nat :=
  54 + head.utf8ByteSize +
    ((refs.toList.map fun r => r.1.utf8ByteSize + 45).sum + (refs.size - 1)) +
    (72 * packCount + (packCount - 1)) + (if parentDigest.isSome then 66 else 4)

theorem textSize_refs (refs : RefMap) (hsafe : ∀ r ∈ refs.toList,
    isSafeRefname r.1 = true ∧ isHexOid r.2 = true)
    (hoid : ∀ r ∈ refs.toList, r.2.utf8ByteSize = 40) :
    textSize (printObject (refs.toList.map fun r => printMember r.1 (printString r.2))) =
      (refs.toList.map fun r => r.1.utf8ByteSize + 45).sum + (refs.size - 1) + 2 := by
  have hitems : (refs.toList.map fun r => textSize (printMember r.1 (printString r.2))) =
      refs.toList.map fun r => r.1.utf8ByteSize + 45 := by
    apply List.map_congr_left
    intro r hr
    rw [textSize_printMember, textSize_printString (plain_of_safeRefname (hsafe r hr).1),
      textSize_printString (plain_of_hexOid (hsafe r hr).2), hoid r hr]
  rw [textSize_printObject, List.map_map, List.length_map, Std.ExtTreeMap.length_toList]
  simp only [Function.comp_def]
  rw [hitems]

theorem textSize_packs (packs : List String) (h : ∀ k ∈ packs, isPackKey k = true) :
    textSize (printArray (packs.map printString)) =
      72 * packs.length + (packs.length - 1) + 2 := by
  have hitems : packs.map (fun k => textSize (printString k)) = packs.map fun _ => 72 := by
    apply List.map_congr_left
    intro k hk
    obtain ⟨hplain, hsize⟩ := isPackKey_plain (h k hk)
    rw [textSize_printString hplain, hsize]
  rw [textSize_printArray, List.map_map, List.length_map]
  simp only [Function.comp_def]
  rw [hitems, List.map_const', List.sum_replicate_nat, Nat.mul_comm]

theorem textSize_parent (parent : Option String)
    (h : ∀ p, parent = some p → isManifestDigest p = true) :
    textSize (printOption printString parent) = if parent.isSome then 66 else 4 := by
  cases parent with
  | none => decide
  | some p =>
    obtain ⟨hplain, hsize⟩ := isManifestDigest_plain (h p rfl)
    change textSize (printString p) = 66
    rw [textSize_printString hplain, hsize]

theorem textSize_print (m : Manifest) (hver : m.version = MANIFEST_VERSION) (hvalid : m.Valid)
    (hoid : ∀ r ∈ m.refs.toList, r.2.utf8ByteSize = 40) :
    textSize m.print = jsonSize m.head m.refs m.packs.length m.parent := by
  have hversion : textSize (printNat m.version.toNat) = 1 := by
    rw [hver]
    decide
  have hname : ∀ name : String, name ∈ ["version", "head", "refs", "packs", "parent"] →
      textSize (printString name) = name.utf8ByteSize + 2 := by
    intro name hmem
    apply textSize_printString
    apply plain_of_safe
    apply List.all_eq_true.mp
    revert name
    decide
  rw [print, textSize_printObject]
  simp only [List.map_cons, List.map_nil, List.sum_cons, List.sum_nil, List.length_cons,
    List.length_nil, textSize_printMember]
  rw [hname "version" (by decide), hname "head" (by decide), hname "refs" (by decide),
    hname "packs" (by decide), hname "parent" (by decide), hversion,
    textSize_printString (plain_of_safeRefname hvalid.head), textSize_refs _ hvalid.refs hoid,
    textSize_packs _ hvalid.packs, textSize_parent _ hvalid.parent, jsonSize]
  have hlens : "version".utf8ByteSize = 7 ∧ "head".utf8ByteSize = 4 ∧ "refs".utf8ByteSize = 4 ∧
      "packs".utf8ByteSize = 5 ∧ "parent".utf8ByteSize = 6 := by
    decide
  omega

/-- The canonical bytes of a manifest whose packs are in order are its text. -/
theorem canonicalBytes_size (m : Manifest) (hpacks : m.packs.Pairwise (· < ·)) :
    m.canonicalBytes.size = textSize m.print := by
  rw [canonicalBytes, sortDedup_eq_self hpacks, ← utf8ByteSize_ofList]
  exact String.size_toByteArray

end Manifest

/-- Where the packs of the new manifest come from. -/
inductive PackSource where
  | delta (newPackKey : Option String)
  | compacted (compactedPackKeys : List String)

/-- The manifest that a push composes from its snapshot. -/
def PackSource.compose (ps : ParentState) (head : String) (refs : RefMap) : PackSource → Manifest
  | .delta newPackKey => composeAfter ps.parent ps.parentDigest head refs newPackKey
  | .compacted keys => composeCompactedAfter ps.parentDigest head refs keys

/-- The pack keys that a push has, with repetitions. -/
def PackSource.keys (parent : Manifest) : PackSource → List String
  | .delta newPackKey => newPackKey.toList ++ parent.packs
  | .compacted keys => keys

/-- A push stages nothing but what it composes from an accepted snapshot. -/
theorem Backend.Staged.exists_compose (h : Staged s ps w m) :
    ∃ refs headObserved, ∃ src : PackSource,
      snapshotWorkspaceState w = .ok (refs, headObserved) ∧
        m = src.compose ps (resolvePublishedHead refs headObserved ps.parent.head) refs := by
  obtain ⟨refs, headObserved, hsnap, hc⟩ := h
  cases hc with
  | compacted _ _ => exact ⟨refs, headObserved, .compacted _, hsnap, rfl⟩
  | refsOnly _ => exact ⟨refs, headObserved, .delta none, hsnap, rfl⟩
  | delta _ _ => exact ⟨refs, headObserved, .delta (some _), hsnap, rfl⟩

/-- A manifest that a later clone or push gets back from its pointer. -/
structure ReadsBack (m : Manifest) : Prop where
  bounded : m.canonicalBytes.size ≤ MAX_MANIFEST_BYTES
  parsed : Manifest.fromBytes m.canonicalBytes = .ok m
  valid : m.validate = .ok ()
  loaded : ∀ (B : Backend) (s : GitStore) (pkey : String) (etag : ETag),
    s.pointers pkey = some (etag, (B.digest m).toUTF8) →
    s.objects (B.contentKey "manifests" m.canonicalBytes) = some m.canonicalBytes →
    B.loadPointer s pkey = .ok (some (etag, B.digest m, m))

theorem addRef_oids (h : addRef refs line = .ok refs')
    (hoid : ∀ r ∈ refs.toList, r.2.utf8ByteSize = 40) : ∀ r ∈ refs'.toList, r.2.utf8ByteSize = 40 := by
  rw [addRef] at h
  split at h
  · cases h
    exact hoid
  · rename_i name oid _
    split at h
    · cases h
      exact hoid
    · rename_i hgood
      split at h
      · cases h
      · cases h
        rintro ⟨k, v⟩ hr
        rw [Std.ExtTreeMap.mem_toList_iff_getElem?_eq_some, Std.ExtTreeMap.getElem?_insert] at hr
        split at hr
        · cases hr
          by_contra hne
          exact hgood (by simp [hne])
        · exact hoid (k, v) (Std.ExtTreeMap.mem_toList_iff_getElem?_eq_some.mpr hr)

theorem foldlM_addRef_oids (text : List (List Char)) (h : text.foldlM addRef refs = .ok refs')
    (hoid : ∀ r ∈ refs.toList, r.2.utf8ByteSize = 40) : ∀ r ∈ refs'.toList, r.2.utf8ByteSize = 40 := by
  induction text generalizing refs with
  | nil =>
    cases h
    exact hoid
  | cons line text ih =>
    rw [List.foldlM_cons] at h
    cases hadd : addRef refs line with
    | error e =>
      rw [hadd] at h
      cases h
    | ok refs₁ =>
      rw [hadd] at h
      exact ih h (addRef_oids hadd hoid)

theorem snapshot_oids (h : snapshotWorkspaceState w = .ok (refs, headObserved)) :
    ∀ r ∈ refs.toList, r.2.utf8ByteSize = 40 := by
  rw [snapshotWorkspaceState] at h
  cases hout : w.forEachRef with
  | error e =>
    rw [hout] at h
    cases h
  | ok stdout =>
    rw [hout] at h
    cases hread : readRefs stdout with
    | error e =>
      simp only [bind, Except.bind, hread] at h
      cases h
    | ok refs' =>
      cases hhead : w.symbolicRef with
      | error e =>
        simp only [bind, Except.bind, hread, hhead] at h
        cases h
      | ok head =>
        simp only [bind, Except.bind, hread, hhead] at h
        cases h
        rw [readRefs] at hread
        split at hread
        · cases hread
        · exact foldlM_addRef_oids _ hread (by simp)

theorem PackSource.compose_packs (src : PackSource) (ps : ParentState) (head : String)
    (refs : RefMap) : (src.compose ps head refs).packs.Pairwise (· < ·) ∧
      (src.compose ps head refs).packs.length = (src.keys ps.parent).dedup.length := by
  cases src with
  | compacted keys => exact ⟨sortDedup_pairwise _, length_sortDedup _⟩
  | delta newPackKey =>
    refine ⟨sortDedup_pairwise _, (length_sortDedup _).trans ?_⟩
    cases newPackKey with
    | none => rfl
    | some k =>
      dsimp only
      apply List.Perm.length_eq
      rw [List.perm_ext_iff_of_nodup (List.nodup_dedup _) (List.nodup_dedup _)]
      intro a
      rw [List.mem_dedup, List.mem_dedup]
      change _ ↔ a ∈ k :: ps.parent.packs
      split
      · rename_i hk
        rw [List.contains_iff_mem] at hk
        rw [List.mem_cons]
        exact ⟨.inr, fun h => h.elim (fun he => he ▸ hk) id⟩
      · rw [List.mem_append, List.mem_singleton, List.mem_cons, or_comm]

theorem PackSource.compose_shape (src : PackSource) (ps : ParentState) (head : String)
    (refs : RefMap) : (src.compose ps head refs).version = MANIFEST_VERSION ∧
      (src.compose ps head refs).head = head ∧ (src.compose ps head refs).refs = refs ∧
      (src.compose ps head refs).parent = ps.parentDigest := by
  cases src with
  | compacted keys => exact ⟨rfl, rfl, rfl, rfl⟩
  | delta newPackKey => exact ⟨rfl, rfl, rfl, rfl⟩

/-- The bytes of the manifest that a push composes. -/
theorem compose_size (hsnap : snapshotWorkspaceState w = .ok (refs, headObserved))
    (src : PackSource) (ps : ParentState) (head : String)
    (hvalid : (src.compose ps head refs).validate = .ok ()) :
    (src.compose ps head refs).canonicalBytes.size =
      Manifest.jsonSize head refs (src.keys ps.parent).dedup.length ps.parentDigest := by
  obtain ⟨hsorted, hcount⟩ := src.compose_packs ps head refs
  obtain ⟨hver, hhead, hrefs, hparent⟩ := src.compose_shape ps head refs
  have hoid : ∀ r ∈ (src.compose ps head refs).refs.toList, r.2.utf8ByteSize = 40 := by
    rw [hrefs]
    exact snapshot_oids hsnap
  rw [Manifest.canonicalBytes_size _ hsorted,
    Manifest.textSize_print _ hver ((Manifest.validate_eq_ok _).mp hvalid) hoid, hcount, hhead,
    hrefs, hparent]

/-- What a push composes and validates is published as soon as it is stored. -/
theorem PackSource.compose_published (src : PackSource)
    (hvalid : (src.compose ps head refs).validate = .ok ())
    (hstored : s.objects (B.contentKey "manifests" (src.compose ps head refs).canonicalBytes) =
      some (src.compose ps head refs).canonicalBytes) :
    Backend.Published B s (src.compose ps head refs) :=
  ⟨(src.compose_shape ps head refs).1, (src.compose_packs ps head refs).1, hvalid, hstored⟩

theorem readsBack_of_bounded (src : PackSource)
    (hvalid : (src.compose ps head refs).validate = .ok ())
    (hle : (src.compose ps head refs).canonicalBytes.size ≤ MAX_MANIFEST_BYTES) :
    ReadsBack (src.compose ps head refs) := by
  have hparsed := Manifest.fromBytes_canonicalBytes _ (src.compose_shape ps head refs).1
  rw [sortDedup_eq_self (src.compose_packs ps head refs).1] at hparsed
  refine ⟨hle, hparsed, hvalid, fun B s pkey etag hp hstored => ?_⟩
  rw [(src.compose_published hvalid hstored).loadPointer hp, if_neg (not_lt.mpr hle)]

/-- A manifest that a push composes and validates reads back if and only if its text is within
the limit of the reader. -/
theorem readsBack_iff (w : Workspace) (ps : ParentState) (src : PackSource) (refs : RefMap)
    (headObserved : String) (hsnap : snapshotWorkspaceState w = .ok (refs, headObserved))
    (hvalid : (src.compose ps (resolvePublishedHead refs headObserved ps.parent.head)
      refs).validate = .ok ()) :
    ReadsBack (src.compose ps (resolvePublishedHead refs headObserved ps.parent.head) refs) ↔
      Manifest.jsonSize (resolvePublishedHead refs headObserved ps.parent.head) refs
        (src.keys ps.parent).dedup.length ps.parentDigest ≤ MAX_MANIFEST_BYTES := by
  rw [← compose_size hsnap src ps _ hvalid]
  exact ⟨fun h => h.bounded, readsBack_of_bounded src hvalid⟩

theorem linesFrom_newline (line cs rest : List Char) (h : '\n' ∉ cs)
    (hcr : (line ++ cs).getLast? ≠ some '\r') :
    linesFrom line (cs ++ '\n' :: rest) = (line ++ cs) :: linesFrom [] rest := by
  induction cs generalizing line with
  | nil =>
    rw [List.append_nil] at hcr ⊢
    rw [List.nil_append, linesFrom, if_pos rfl, if_neg hcr]
  | cons c cs ih =>
    rw [List.mem_cons, not_or] at h
    rw [List.cons_append, linesFrom, if_neg (Ne.symm h.1), ih (line ++ [c]) h.2 (by simpa using hcr)]
    simp

theorem linesFrom_flatMap (ls : List (List Char))
    (h : ∀ l ∈ ls, '\n' ∉ l ∧ l.getLast? ≠ some '\r') :
    linesFrom [] (ls.flatMap fun l => l ++ ['\n']) = ls := by
  induction ls with
  | nil => rfl
  | cons l ls ih =>
    rw [List.forall_mem_cons] at h
    rw [List.flatMap_cons, List.append_assoc, List.singleton_append,
      linesFrom_newline [] l _ h.1.1 h.1.2, ih h.2, List.nil_append]

theorem splitBlank_line (name oid : List Char) (h : ' ' ∉ name) :
    splitBlank (name ++ ' ' :: oid) = some (String.ofList name, String.ofList oid) := by
  have hall : ∀ c ∈ name, (c != ' ') = true := by
    intro c hc
    rw [bne_iff_ne]
    rintro rfl
    exact h hc
  rw [splitBlank, List.dropWhile_append_of_pos hall, List.takeWhile_append_of_pos hall]
  simp

/-- The refs of an output that names each ref once. -/
theorem foldlM_addRef_lines (names : List (List Char)) (oid : List Char) (refs : RefMap)
    (hoid : textSize oid = 40 ∧ oid.all isAsciiHexdigit = true) (hblank : ∀ n ∈ names, ' ' ∉ n)
    (hnodup : names.Nodup) (hfresh : ∀ n ∈ names, String.ofList n ∉ refs)
    (hsize : refs.size + names.length ≤ MAX_MANIFEST_REFS) :
    ∃ refs', (names.map fun n => n ++ ' ' :: oid).foldlM addRef refs = .ok refs' ∧
      refs'.size = refs.size + names.length ∧
      ∀ r, r ∈ refs'.toList ↔
        r ∈ refs.toList ∨ ∃ n ∈ names, r = (String.ofList n, String.ofList oid) := by
  induction names generalizing refs with
  | nil => exact ⟨refs, rfl, rfl, by simp⟩
  | cons n names ih =>
    rw [List.forall_mem_cons] at hblank hfresh
    rw [List.nodup_cons] at hnodup
    rw [List.length_cons] at hsize
    have hadd : addRef refs (n ++ ' ' :: oid) =
        .ok (refs.insert (String.ofList n) (String.ofList oid)) := by
      rw [addRef, splitBlank_line n oid hblank.1]
      dsimp only
      rw [utf8ByteSize_ofList, String.toList_ofList, hoid.1, hoid.2, if_neg (by decide), if_neg]
      rw [Bool.and_eq_true, decide_eq_true_eq]
      omega
    have hinsert : (refs.insert (String.ofList n) (String.ofList oid)).size = refs.size + 1 := by
      simp [Std.ExtTreeMap.size_insert, hfresh.1]
    obtain ⟨refs', hfold, hcount, hmem⟩ := ih
      (refs.insert (String.ofList n) (String.ofList oid)) hblank.2 hnodup.2
      (by
        intro k hk
        rw [Std.ExtTreeMap.mem_insert, not_or]
        refine ⟨?_, hfresh.2 k hk⟩
        intro he
        rw [compare_eq_iff_eq, String.ofList_inj] at he
        exact hnodup.1 (he ▸ hk))
      (by omega)
    refine ⟨refs', ?_, ?_, ?_⟩
    · rw [List.map_cons, List.foldlM_cons, hadd]
      exact hfold
    · rw [hcount, hinsert, List.length_cons]
      omega
    · rintro ⟨k, v⟩
      rw [hmem, Std.ExtTreeMap.mem_toList_iff_getElem?_eq_some, Std.ExtTreeMap.getElem?_insert,
        Std.ExtTreeMap.mem_toList_iff_getElem?_eq_some]
      simp only [List.mem_cons, exists_eq_or_imp, Prod.mk.injEq]
      split
      · rename_i he
        rw [compare_eq_iff_eq] at he
        subst he
        have hnone : refs[String.ofList n]? = none :=
          Std.ExtTreeMap.getElem?_eq_none hfresh.1
        simp [hnone, eq_comm]
      · rename_i he
        rw [compare_eq_iff_eq] at he
        simp [Ne.symm he]

/-- The snapshot of an output within the limit. -/
theorem snapshot_text (hout : w.forEachRef = .ok (String.ofList out).toUTF8)
    (hsize : textSize out ≤ MAX_REF_SNAPSHOT_BYTES)
    (hlines : (linesFrom [] out).foldlM addRef ∅ = .ok refs) (hhead : w.symbolicRef = .ok head) :
    snapshotWorkspaceState w = .ok (refs, trim head) := by
  have hbytes : (String.ofList out).toUTF8.size = textSize out := by
    rw [← utf8ByteSize_ofList]
    exact String.size_toByteArray
  have hread : readRefs (String.ofList out).toUTF8 = .ok refs := by
    rw [readRefs, hbytes, if_neg (not_lt.mpr hsize), fromUTF8_toUTF8, Option.getD_some, lines,
      String.toList_ofList, hlines]
  rw [snapshotWorkspaceState, hout, hhead]
  simp only [bind, Except.bind, hread]
  rfl

theorem hasDouble_of_not_mem (c : Char) (cs : List Char) (h : c ∉ cs) :
    hasDouble c cs = false := by
  induction cs with
  | nil => rfl
  | cons a cs ih =>
    rw [List.mem_cons, not_or] at h
    cases cs with
    | nil => rfl
    | cons b cs => simp [hasDouble, ih h.2, Ne.symm h.1]

theorem hasDouble_append (c : Char) (cs ds : List Char) (h : c ∉ ds) :
    hasDouble c (cs ++ ds) = hasDouble c cs := by
  induction cs with
  | nil => exact hasDouble_of_not_mem c ds h
  | cons a cs ih =>
    cases cs with
    | nil =>
      cases ds with
      | nil => rfl
      | cons b ds =>
        rw [List.nil_append] at ih
        rw [List.mem_cons, not_or] at h
        simp [hasDouble, ih, Ne.symm h.1]
    | cons b cs =>
      rw [List.cons_append, List.cons_append, hasDouble, ← List.cons_append, ih, hasDouble]

namespace Oversized

def digits : List (Fin 16 × Fin 16 × Fin 16) :=
  List.finRange 16 ×ˢ List.finRange 16 ×ˢ List.finRange 16

/-- The common part of the branch names, in four directories. -/
def directory : List Char :=
  "refs/heads/".toList ++ (List.replicate 4 (List.replicate 239 'x' ++ ['/'])).flatten ++
    List.replicate 7 'x'

def branch (d : Fin 16 × Fin 16 × Fin 16) : List Char :=
  directory ++ [digitChar d.1, digitChar d.2.1, digitChar d.2.2]

def names : List (List Char) :=
  "refs/heads/main".toList :: digits.map branch

def line (n : List Char) : List Char :=
  n ++ ' ' :: PushExample.oid.toList

def output : List Char :=
  (names.map line).flatMap fun l => l ++ ['\n']

/-- The first branch again and 4096 more on the same commit. -/
def workspace : Workspace :=
  { PushExample.workspace with forEachRef := .ok (String.ofList output).toUTF8 }

theorem safe_digits (d : Fin 16 × Fin 16 × Fin 16) :
    ∀ c ∈ [digitChar d.1, digitChar d.2.1, digitChar d.2.2], c ≠ '.' ∧ c ≠ '/' ∧
      isSafeChar c = true := by
  have hdigit : ∀ x : Fin 16, digitChar x ≠ '.' ∧ digitChar x ≠ '/' ∧
      isSafeChar (digitChar x) = true := by
    decide
  simp only [List.forall_mem_cons]
  exact ⟨hdigit _, hdigit _, hdigit _, fun _ h => absurd h List.not_mem_nil⟩

theorem directory_spec : textSize directory = 978 ∧ directory.all isSafeChar = true ∧
    hasDouble '.' directory = false ∧ hasDouble '/' directory = false := by
  decide +kernel

theorem safe_branch (d : Fin 16 × Fin 16 × Fin 16) :
    isSafeRefname (String.ofList (branch d)) = true := by
  obtain ⟨_, hall, hdot, hslash⟩ := directory_spec
  have hdigits := safe_digits d
  have hpre : "refs/".toList.isPrefixOf (branch d) = true := rfl
  have hhead : (branch d).head? = some 'r' := rfl
  have hlast : (branch d).getLast? = some (digitChar d.2.2) := by
    rw [branch]
    simp
  have hlast' : digitChar d.2.2 ≠ '/' := (hdigits _ (by simp)).2.1
  have hall' : (branch d).all isSafeChar = true := by
    rw [branch, List.all_append, hall, List.all_eq_true.mpr fun c hc => (hdigits c hc).2.2]
    rfl
  have hdot' : hasDouble '.' (branch d) = false := by
    rw [branch, hasDouble_append, hdot]
    exact fun hmem => (hdigits _ hmem).1 rfl
  have hslash' : hasDouble '/' (branch d) = false := by
    rw [branch, hasDouble_append, hslash]
    exact fun hmem => (hdigits _ hmem).2.1 rfl
  have htext : (String.ofList (branch d)).toList = branch d := String.toList_ofList
  rw [isSafeRefname, htext, hpre, hall', hdot', hslash', hhead, hlast]
  simp [hlast']

theorem textSize_branch (d : Fin 16 × Fin 16 × Fin 16) : textSize (branch d) = 981 := by
  rw [branch, textSize_append, directory_spec.1]
  simp [utf8Size_digitChar]

theorem nodup_names : names.Nodup := by
  have hdigits : digits.Nodup :=
    (List.nodup_finRange 16).product ((List.nodup_finRange 16).product (List.nodup_finRange 16))
  have hinj : Function.Injective branch := by
    intro d e h
    have hcs := List.append_cancel_left h
    simp only [List.cons.injEq, and_true] at hcs
    exact Prod.ext (digitChar_injective hcs.1)
      (Prod.ext (digitChar_injective hcs.2.1) (digitChar_injective hcs.2.2))
  rw [names, List.nodup_cons]
  refine ⟨?_, hdigits.map hinj⟩
  intro hmem
  obtain ⟨d, _, hd⟩ := List.mem_map.mp hmem
  have hsize := textSize_branch d
  rw [hd] at hsize
  exact absurd hsize (by decide)

theorem length_digits : digits.length = 4096 := by
  rw [digits, List.length_product, List.length_product, List.length_finRange]

theorem safe_names : ∀ n ∈ names, isSafeRefname (String.ofList n) = true := by
  rw [names, List.forall_mem_cons]
  refine ⟨by decide, fun n hn => ?_⟩
  obtain ⟨d, _, rfl⟩ := List.mem_map.mp hn
  exact safe_branch d

theorem textSize_lines (ns : List (List Char)) :
    textSize ((ns.map line).flatMap fun l => l ++ ['\n']) =
      (ns.map fun n => textSize n + 42).sum := by
  induction ns with
  | nil => rfl
  | cons n ns ih =>
    have hrest : textSize (' ' :: PushExample.oid.toList) + textSize ['\n'] = 42 := by decide
    rw [List.map_cons, List.flatMap_cons, textSize_append, ih, line, textSize_append,
      textSize_append, Nat.add_assoc (textSize n), hrest, List.map_cons, List.sum_cons]

theorem textSize_output : textSize output = 4190265 := by
  have hmain : textSize "refs/heads/main".toList = 15 := by decide
  rw [output, textSize_lines, names, List.map_cons, List.sum_cons, List.map_map]
  simp only [Function.comp_def, textSize_branch]
  rw [List.map_const', List.sum_replicate_nat, length_digits, hmain]

theorem safeChar_names : ∀ n ∈ names, ∀ c ∈ n, isSafeChar c = true := by
  intro n hn
  have hsafe := safe_names n hn
  have htext : (String.ofList n).toList = n := String.toList_ofList
  rw [isSafeRefname, Bool.and_eq_true, htext] at hsafe
  exact List.all_eq_true.mp hsafe.2

theorem lines_output : linesFrom [] output = names.map line := by
  rw [output, linesFrom_flatMap]
  intro l hl
  obtain ⟨n, hn, rfl⟩ := List.mem_map.mp hl
  refine ⟨?_, ?_⟩
  · intro hmem
    rcases List.mem_append.mp hmem with hname | hrest
    · exact absurd (safeChar_names n hn _ hname) (by decide)
    · exact absurd hrest (by decide)
  · have hlast : (' ' :: PushExample.oid.toList).getLast? = some 'd' := by decide
    rw [line, List.getLast?_append, hlast]
    simp

theorem snapshot_oversized : ∃ refs : RefMap,
    snapshotWorkspaceState workspace = .ok (refs, "refs/heads/main") ∧ refs.size = 4097 ∧
      ∀ r, r ∈ refs.toList ↔ ∃ n ∈ names, r = (String.ofList n, PushExample.oid) := by
  have hcount : (∅ : RefMap).size + names.length = 4097 := by
    rw [names, List.length_cons, List.length_map, length_digits, Std.ExtTreeMap.size_empty]
  have hmax : 4097 ≤ MAX_MANIFEST_REFS := by decide
  obtain ⟨refs, hfold, hsize, hmem⟩ := foldlM_addRef_lines names PushExample.oid.toList ∅
    (by decide) (fun n hn hblank => absurd (safeChar_names n hn _ hblank) (by decide)) nodup_names
    (fun n _ => Std.ExtTreeMap.not_mem_empty) (hcount.trans_le hmax)
  have hout : workspace.forEachRef = .ok (String.ofList output).toUTF8 := rfl
  have hhead : workspace.symbolicRef = .ok "refs/heads/main" := rfl
  have htrim : trim "refs/heads/main" = "refs/heads/main" := by decide
  have hlimit : textSize output ≤ MAX_REF_SNAPSHOT_BYTES := by
    rw [textSize_output]
    decide
  have hlines : (linesFrom [] output).foldlM addRef ∅ = .ok refs := by
    rw [lines_output]
    exact hfold
  refine ⟨refs, ?_, hsize.trans hcount, ?_⟩
  · rw [snapshot_text hout hlimit hlines hhead, htrim]
  · intro r
    have hempty : r ∉ (∅ : RefMap).toList := by
      obtain ⟨k, v⟩ := r
      rw [Std.ExtTreeMap.mem_toList_iff_getElem?_eq_some]
      simp
    rw [hmem, String.ofList_toList, or_iff_right hempty]

/-- The parent that the first push left behind. -/
def parent : ParentState :=
  .fromLoaded (PushExample.backend.etag 0 (PushExample.backend.digest PushExample.manifest).toUTF8)
    (PushExample.backend.digest PushExample.manifest) PushExample.manifest

section Refs

variable {refs : RefMap} (hmem : ∀ r, r ∈ refs.toList ↔
  ∃ n ∈ names, r = (String.ofList n, PushExample.oid))

include hmem

theorem refs_perm : refs.toList.Perm (names.map fun n => (String.ofList n, PushExample.oid)) := by
  have hkeys : refs.toList.Nodup := by
    refine Std.ExtTreeMap.distinct_keys_toList.imp ?_
    intro a b hab he
    rw [he] at hab
    exact hab Std.ReflCmp.compare_self
  have hnames : (names.map fun n => (String.ofList n, PushExample.oid)).Nodup := by
    apply nodup_names.map
    intro n n' h
    exact String.ofList_injective (Prod.mk.inj h).1
  rw [List.perm_ext_iff_of_nodup hkeys hnames]
  intro r
  rw [hmem, List.mem_map]
  exact ⟨fun ⟨n, hn, he⟩ => ⟨n, hn, he.symm⟩, fun ⟨n, hn, he⟩ => ⟨n, hn, he.symm⟩⟩

theorem refs_names_sum : (refs.toList.map fun r => r.1.utf8ByteSize + 45).sum = 4202556 := by
  have hmain : textSize "refs/heads/main".toList = 15 := by decide
  rw [((refs_perm hmem).map _).sum_eq, List.map_map]
  simp only [Function.comp_def, utf8ByteSize_ofList]
  rw [names, List.map_cons, List.sum_cons, List.map_map, hmain]
  simp only [Function.comp_def, textSize_branch]
  rw [List.map_const', List.sum_replicate_nat, length_digits]

theorem head_main : resolvePublishedHead refs "refs/heads/main" parent.parent.head =
    "refs/heads/main" := by
  have hin : refs.contains "refs/heads/main" = true := by
    have hpair : ("refs/heads/main", PushExample.oid) ∈ refs.toList :=
      (hmem _).mpr ⟨_, List.mem_cons_self, by rw [String.ofList_toList]⟩
    rw [Std.ExtTreeMap.mem_toList_iff_getElem?_eq_some] at hpair
    rw [Std.ExtTreeMap.contains_eq_isSome_getElem?, hpair]
    rfl
  have hbranch : isBranch "refs/heads/main" = true := by decide
  rw [resolvePublishedHead, hin, hbranch]
  rfl

theorem valid_oversized (hsize : refs.size = 4097) :
    (PackSource.compose parent "refs/heads/main" refs (.delta none)).validate = .ok () := by
  have hparent := (Manifest.validate_eq_ok _).mp PushExample.validate_manifest
  rw [Manifest.validate_eq_ok]
  obtain ⟨_, hcount⟩ := PackSource.compose_packs (.delta none) parent "refs/heads/main" refs
  have hhead : isSafeRefname "refs/heads/main" = true := by decide
  have hoid : isHexOid PushExample.oid = true := by decide
  have hmax : 4097 ≤ MAX_MANIFEST_REFS := by decide
  refine ⟨?_, ?_, hhead, ?_, ?_, ?_⟩
  · rw [hcount]
    exact (List.dedup_sublist _).length_le.trans hparent.packCount
  · exact hsize.trans_le hmax
  · intro r hr
    obtain ⟨n, hn, rfl⟩ := (hmem r).mp hr
    exact ⟨safe_names n hn, hoid⟩
  · intro k hk
    exact hparent.packs k (mem_sortDedup.mp hk)
  · intro p hp
    rw [← Option.some.inj hp]
    exact isManifestDigest_toHex _

end Refs

end Oversized

/-- The manifest of a first push reads back. -/
theorem readsBack_first : ReadsBack PushExample.manifest := by
  have hhead : resolvePublishedHead PushExample.refs "refs/heads/main"
      ParentState.fresh.parent.head = "refs/heads/main" := by
    decide +kernel
  have hsize : Manifest.jsonSize "refs/heads/main" PushExample.refs
      (PackSource.keys ParentState.fresh.parent (.delta (some PushExample.packKey))).dedup.length
      none ≤ MAX_MANIFEST_BYTES := by
    decide +kernel
  have hiff := readsBack_iff PushExample.workspace .fresh (.delta (some PushExample.packKey))
    PushExample.refs "refs/heads/main" PushExample.snapshot_workspace
  rw [hhead] at hiff
  exact (hiff PushExample.validate_manifest).mpr hsize

/-- The first push leaves a pointer that loads. -/
theorem PushExample.load_published :
    backend.loadPointer published "p" =
      .ok (some (backend.etag 0 (backend.digest manifest).toUTF8, backend.digest manifest,
        manifest)) := by
  have hempty : Backend.ContentAddressed backend .empty := nofun
  have hpack : Backend.ContentAddressed backend (GitStore.empty.putImmutable packKey pack) :=
    hempty.putImmutable (.inl rfl)
  have hstored : ((GitStore.empty.putImmutable packKey pack).putImmutable
      (backend.contentKey "manifests" manifest.canonicalBytes) manifest.canonicalBytes).objects
      (backend.contentKey "manifests" manifest.canonicalBytes) = some manifest.canonicalBytes :=
    Backend.putImmutable_objects hpack (.inr rfl)
  have hpub : Backend.Published backend published manifest :=
    PackSource.compose_published (.delta (some packKey)) validate_manifest hstored
  have hpointer : published.pointers "p" =
      some (backend.etag 0 (backend.digest manifest).toUTF8, (backend.digest manifest).toUTF8) :=
    (Backend.installPointer_self ..).2
  have hsize : ¬MAX_MANIFEST_BYTES < manifest.canonicalBytes.size := by decide +kernel
  rw [hpub.loadPointer hpointer, if_neg hsize]

open Oversized in
/-- A push on a parent that loads, with 4097 refs in 4,190,265 bytes of `for-each-ref` output,
composes a valid manifest that no one can load. -/
theorem push_unreadable :
    PushExample.backend.loadPointer PushExample.published "p" =
        .ok (some (PushExample.backend.etag 0 (PushExample.backend.digest
          PushExample.manifest).toUTF8, PushExample.backend.digest PushExample.manifest,
          PushExample.manifest)) ∧
      ∃ refs m, snapshotWorkspaceState Oversized.workspace = .ok (refs, "refs/heads/main") ∧
        m = PackSource.compose parent
          (resolvePublishedHead refs "refs/heads/main" parent.parent.head) refs (.delta none) ∧
        m.validate = .ok () ∧ ¬ReadsBack m ∧
        ∀ (B : Backend) (s : GitStore) (pkey : String) (etag : ETag),
          s.pointers pkey = some (etag, (B.digest m).toUTF8) →
          s.objects (B.contentKey "manifests" m.canonicalBytes) = some m.canonicalBytes →
          ∃ e, B.loadPointer s pkey = .error e := by
  obtain ⟨refs, hsnap, hsize, hmem⟩ := snapshot_oversized
  have hvalid := valid_oversized hmem hsize
  have hbytes := compose_size hsnap (.delta none) parent "refs/heads/main" hvalid
  have hlarge : MAX_MANIFEST_BYTES < (PackSource.compose parent "refs/heads/main" refs
      (.delta none)).canonicalBytes.size := by
    rw [hbytes, Manifest.jsonSize, refs_names_sum hmem]
    have hmax : MAX_MANIFEST_BYTES = 4194304 := rfl
    omega
  refine ⟨PushExample.load_published, refs, _, hsnap, rfl, ?_⟩
  rw [head_main hmem]
  refine ⟨hvalid, fun h => absurd h.bounded (not_le.mpr hlarge), ?_⟩
  intro B s pkey etag hp hstored
  rw [(PackSource.compose_published _ hvalid hstored).loadPointer hp, if_pos hlarge]
  exact ⟨_, rfl⟩

end Buzz
