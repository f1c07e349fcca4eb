import Buzz.Unread.Device

namespace Buzz.Unread
set_option autoImplicit true

theorem startsWith_append (stem key : String) : startsWith (stem ++ key) stem = true := by
  rw [startsWith, String.toList_append, List.isPrefixOf_iff_prefix]
  exact List.prefix_append _ _

theorem dropChars_append (stem key : String) : dropChars stem.length (stem ++ key) = key := by
  rw [dropChars, String.toList_append, ← String.length_toList, List.drop_left, String.ofList_toList]

theorem startsWith_of_stem {key stem longer : String} (h : startsWith key stem = false)
    (hstem : startsWith longer stem = true) : startsWith key longer = false := by
  apply Bool.eq_false_of_not_eq_true
  intro hlonger
  rw [startsWith, List.isPrefixOf_iff_prefix] at hstem hlonger
  have hprefix : startsWith key stem = true :=
    List.isPrefixOf_iff_prefix.mpr (hstem.trans hlonger)
  rw [h] at hprefix
  exact Bool.noConfusion hprefix

/-- An escaped key is none of an override. -/
theorem escapeContextKey_free (rawKey : String) {stem : String}
    (hstem : startsWith stem RESERVED_STEM = true) :
    startsWith (escapeContextKey rawKey) stem = false := by
  apply startsWith_of_stem _ hstem
  rw [escapeContextKey]
  split
  · rw [startsWith, String.toList_append]
    rfl
  · rename_i h
    rw [needsEscape, Bool.or_eq_true, not_or] at h
    exact Bool.eq_false_of_not_eq_true h.1

theorem unescape_escape (rawKey : String) :
    unescapeContextKey (escapeContextKey rawKey) = rawKey := by
  rw [escapeContextKey]
  split
  · rw [unescapeContextKey, startsWith_append, if_pos rfl]
    exact dropChars_append ESCAPE_PREFIX rawKey
  · rename_i h
    rw [needsEscape, Bool.or_eq_true, not_or] at h
    rw [unescapeContextKey, if_neg h.2]

namespace Device

variable {d : Device}

theorem receiveKey_frontier (r : Incoming) (ctx : String) (v : ℕ) :
    receiveKey r (escapeContextKey ctx, v) =
      { r with frontier := r.frontier.insert ctx (max ((r.frontier.lookup ctx).getD 0) v) } := by
  have hs : startsWith (escapeContextKey ctx) "ov_s:" = false := escapeContextKey_free ctx rfl
  have hc : startsWith (escapeContextKey ctx) "ov_c:" = false := escapeContextKey_free ctx rfl
  have hb : startsWith (escapeContextKey ctx) "ov_b:" = false := escapeContextKey_free ctx rfl
  rw [receiveKey, hs, hc, hb, if_neg Bool.false_ne_true, if_neg Bool.false_ne_true,
    if_neg Bool.false_ne_true, unescape_escape]

theorem receiveKey_s (r : Incoming) (ctx : String) (v : ℕ) :
    receiveKey r ("ov_s:" ++ ctx, v) = { r with
      overrides := r.overrides.insert ctx { (r.overrides.lookup ctx).getD {} with s := v } } := by
  have hctx : dropChars 5 ("ov_s:" ++ ctx) = ctx := dropChars_append "ov_s:" ctx
  rw [receiveKey, startsWith_append, if_pos rfl, hctx]

theorem receiveKey_c (r : Incoming) (ctx : String) (v : ℕ) :
    receiveKey r ("ov_c:" ++ ctx, v) = { r with
      overrides := r.overrides.insert ctx { (r.overrides.lookup ctx).getD {} with c := v } } := by
  have hctx : dropChars 5 ("ov_c:" ++ ctx) = ctx := dropChars_append "ov_c:" ctx
  have hs : startsWith ("ov_c:" ++ ctx) "ov_s:" = false := by
    rw [startsWith, String.toList_append]
    rfl
  rw [receiveKey, hs, if_neg Bool.false_ne_true, startsWith_append, if_pos rfl, hctx]

theorem receiveKey_b (r : Incoming) (ctx : String) (v : ℕ) :
    receiveKey r ("ov_b:" ++ ctx, v) = { r with
      overrides := r.overrides.insert ctx { (r.overrides.lookup ctx).getD {} with b := v } } := by
  have hctx : dropChars 5 ("ov_b:" ++ ctx) = ctx := dropChars_append "ov_b:" ctx
  have hs : startsWith ("ov_b:" ++ ctx) "ov_s:" = false := by
    rw [startsWith, String.toList_append]
    rfl
  have hc : startsWith ("ov_b:" ++ ctx) "ov_c:" = false := by
    rw [startsWith, String.toList_append]
    rfl
  rw [receiveKey, hs, if_neg Bool.false_ne_true, hc, if_neg Bool.false_ne_true, startsWith_append,
    if_pos rfl, hctx]

/-- The overrides that are read do not depend on the frontier. -/
theorem overrides_receiveKeys (es : List (String × ℕ)) {r r' : Incoming}
    (h : r.overrides = r'.overrides) :
    (es.foldl receiveKey r).overrides = (es.foldl receiveKey r').overrides := by
  induction es generalizing r r' with
  | nil => exact h
  | cons e es ih =>
    apply ih
    rw [receiveKey, receiveKey, h]
    split
    · rfl
    · split
      · rfl
      · split
        · rfl
        · rfl

theorem frontier_receiveKey (r : Incoming) (e : String × ℕ) (ctx : String) :
    ((receiveKey r e).frontier.lookup ctx).getD 0 = max ((r.frontier.lookup ctx).getD 0)
      (((receiveKey ⟨∅, ∅⟩ e).frontier.lookup ctx).getD 0) := by
  rw [receiveKey, receiveKey]
  split
  · exact (Nat.max_zero _).symm
  · split
    · exact (Nat.max_zero _).symm
    · split
      · exact (Nat.max_zero _).symm
      · dsimp only
        by_cases hctx : ctx = unescapeContextKey e.1
        · rw [← hctx, AList.lookup_insert, AList.lookup_insert, AList.lookup_empty]
          exact congrArg (max _) (Nat.zero_max e.2).symm
        · rw [AList.lookup_insert_ne hctx, AList.lookup_insert_ne hctx]
          exact (Nat.max_zero _).symm

/-- The frontier that is read is joined with the one that was there. -/
theorem frontier_receiveKeys (es : List (String × ℕ)) (r : Incoming) (ctx : String) :
    ((es.foldl receiveKey r).frontier.lookup ctx).getD 0 = max ((r.frontier.lookup ctx).getD 0)
      (((es.foldl receiveKey ⟨∅, ∅⟩).frontier.lookup ctx).getD 0) := by
  induction es generalizing r with
  | nil => exact (Nat.max_zero _).symm
  | cons e es ih =>
    rw [List.foldl_cons, List.foldl_cons, ih, ih (receiveKey ⟨∅, ∅⟩ e), frontier_receiveKey r e ctx,
      max_assoc]

theorem lookup_mergeOverrides (es : List (Sigma fun _ : String => RegB)) (hes : es.NodupKeys)
    (t : Table String RegB) (ctx : String) :
    (es.foldl (fun t e => t.insert e.1 ((mergeRegB (t.lookup e.1) (some e.2)).getD e.2)) t).lookup
      ctx = mergeRegB (t.lookup ctx) (List.dlookup ctx es) := by
  induction es generalizing t with
  | nil =>
    rw [List.foldl_nil, List.dlookup_nil]
    cases t.lookup ctx with
    | none => rfl
    | some reg => rfl
  | cons e es ih =>
    obtain ⟨k, reg⟩ := e
    obtain ⟨hk, hes⟩ := List.nodupKeys_cons.mp hes
    rw [List.foldl_cons, ih hes]
    by_cases hctx : ctx = k
    · subst hctx
      rw [List.dlookup_eq_none.mpr hk, AList.lookup_insert, List.dlookup_cons_eq]
      cases t.lookup ctx with
      | none => rfl
      | some own => rfl
    · rw [AList.lookup_insert_ne hctx, List.dlookup_cons_ne _ _ hctx]

theorem view_received (blob : Blob) (hlegacy : d.isLegacy = false) (ctx : String) :
    (d.receiveMerge blob).view ctx = Unread.view
      (max (d.effectiveFrontier ctx)
        (((blob.contexts.foldl receiveKey ⟨∅, ∅⟩).frontier.lookup ctx).getD 0))
      (mergeRegB (d.overrides.lookup ctx)
        ((blob.contexts.foldl receiveKey ⟨∅, ∅⟩).overrides.lookup ctx)) := by
  have hmerged : (d.receiveMerge blob).overrides.lookup ctx = mergeRegB (d.overrides.lookup ctx)
      ((blob.contexts.foldl receiveKey ⟨∅, ∅⟩).overrides.lookup ctx) := by
    have hsame : (blob.contexts.foldl receiveKey ⟨d.frontier, ∅⟩).overrides =
        (blob.contexts.foldl receiveKey ⟨∅, ∅⟩).overrides := overrides_receiveKeys _ rfl
    rw [receiveMerge, hlegacy, if_neg Bool.false_ne_true, hsame]
    exact lookup_mergeOverrides _ (AList.nodupKeys _) _ _
  rw [view, hmerged, effectiveFrontier, receiveMerge]
  dsimp only
  rw [frontier_receiveKeys]
  rfl

/-- A device that receives a blob joins what it tells of each context. -/
theorem view_receiveMerge (blob : Blob) (hlegacy : d.isLegacy = false) (ctx : String) :
    (d.receiveMerge blob).view ctx = d.view ctx ⊔ blob.view ctx := by
  rw [Blob.view, view_received blob hlegacy, view_received (d := .new "" false) blob rfl, view_merge,
    view, view_merge]
  exact congrArg (_ ⊔ ·) (bot_sup_eq _).symm

theorem view_canonicalize (ctx : String) :
    Unread.view (d.effectiveFrontier ctx) (d.canonicalizeForPublish ctx .clear).2 =
      (d.view ctx).compacted := by
  rw [canonicalizeForPublish, view]
  cases d.overrides.lookup ctx with
  | none => rfl
  | some reg =>
    rw [← view_compactB]
    dsimp only
    split
    · rename_i hnone
      rw [hnone]
    · rename_i canonical hsome
      rw [hsome]

/-- Where an override is published, one key says it all or three do. -/
theorem canonicalize_dead {ctx : String} {canonical : RegB}
    (h : d.canonicalizeForPublish ctx .clear = (false, some canonical)) :
    canonical = { c := canonical.c } := by
  rw [canonicalizeForPublish] at h
  split at h
  · cases h
  · split at h
    · cases h
    · rename_i reg hreg canonical' hcompact
      obtain ⟨hdead, hsome⟩ := Prod.mk.inj h
      obtain rfl := Option.some.inj hsome
      rw [compactB] at hcompact
      split at hcompact
      · cases hcompact
      · split at hcompact
        · rename_i hlive
          rw [Option.some.inj hcompact, hdead] at hlive
          exact absurd hlive Bool.false_ne_true
        · rw [← Option.some.inj hcompact]

/-- The keys of an override are read back as it is published. -/
theorem receive_publishOverride (r : Incoming) (k : String) (h : r.overrides.lookup k = none) :
    ((d.publishOverride .clear k).foldl receiveKey r).frontier = r.frontier ∧
    ∀ ctx, ((d.publishOverride .clear k).foldl receiveKey r).overrides.lookup ctx =
      if ctx = k then (d.canonicalizeForPublish k .clear).2 else r.overrides.lookup ctx := by
  rw [publishOverride]
  split
  · rename_i live hnone
    refine ⟨rfl, fun ctx => ?_⟩
    rw [hnone]
    split
    · rename_i hctx
      rw [hctx]
      exact h
    · rfl
  · rename_i canonical hlive
    rw [hlive, List.foldl_cons, List.foldl_cons, List.foldl_cons, List.foldl_nil, receiveKey_s,
      receiveKey_c, receiveKey_b]
    refine ⟨rfl, fun ctx => ?_⟩
    split
    · rename_i hctx
      subst hctx
      simp only [AList.lookup_insert, h, Option.getD_none, Option.getD_some]
    · rename_i hctx
      simp only [AList.lookup_insert_ne hctx]
  · rename_i canonical hdead
    rw [hdead, List.foldl_cons, List.foldl_nil, receiveKey_c]
    refine ⟨rfl, fun ctx => ?_⟩
    split
    · rename_i hctx
      subst hctx
      rw [AList.lookup_insert, h, Option.getD_none, canonicalize_dead hdead]
    · rename_i hctx
      exact AList.lookup_insert_ne hctx

theorem receive_publishOverrides (es : List (Sigma fun _ : String => RegB)) (hes : es.NodupKeys)
    (r : Incoming) (h : ∀ k ∈ es.keys, r.overrides.lookup k = none) :
    ((es.flatMap fun e => d.publishOverride .clear e.1).foldl receiveKey r).frontier = r.frontier ∧
    ∀ ctx, ((es.flatMap fun e => d.publishOverride .clear e.1).foldl receiveKey r).overrides.lookup
      ctx = if ctx ∈ es.keys then (d.canonicalizeForPublish ctx .clear).2
        else r.overrides.lookup ctx := by
  induction es generalizing r with
  | nil => exact ⟨rfl, fun ctx => (if_neg List.not_mem_nil).symm⟩
  | cons e es ih =>
    obtain ⟨hk, hes⟩ := List.nodupKeys_cons.mp hes
    obtain ⟨hfrontier, hlookup⟩ := receive_publishOverride (d := d) r e.1
      (h e.1 (List.mem_cons_self ..))
    obtain ⟨hfrontier', hlookup'⟩ := ih hes ((d.publishOverride .clear e.1).foldl receiveKey r)
      (fun k hmem => by
        have hne : k ≠ e.1 := fun heq => hk (heq ▸ hmem)
        rw [hlookup, if_neg hne]
        exact h k (List.mem_cons_of_mem _ hmem))
    rw [List.flatMap_cons, List.foldl_append]
    refine ⟨hfrontier'.trans hfrontier, fun ctx => ?_⟩
    rw [hlookup', hlookup, List.keys_cons]
    by_cases hctx : ctx = e.1
    · subst hctx
      rw [if_neg hk, if_pos rfl, if_pos (List.mem_cons_self ..)]
    · simp only [List.mem_cons, hctx, false_or, if_false]

theorem receive_frontiers (es : List (Sigma fun _ : String => ℕ)) (hes : es.NodupKeys)
    (r : Incoming) :
    ((es.map fun e => (escapeContextKey e.1, e.2)).foldl receiveKey r).overrides = r.overrides ∧
    ∀ ctx, (((es.map fun e => (escapeContextKey e.1, e.2)).foldl receiveKey r).frontier.lookup
      ctx).getD 0 = max ((r.frontier.lookup ctx).getD 0) ((List.dlookup ctx es).getD 0) := by
  induction es generalizing r with
  | nil => exact ⟨rfl, fun ctx => (Nat.max_zero _).symm⟩
  | cons e es ih =>
    obtain ⟨k, v⟩ := e
    obtain ⟨hk, hes⟩ := List.nodupKeys_cons.mp hes
    rw [List.map_cons, List.foldl_cons, receiveKey_frontier]
    obtain ⟨hoverrides, hlookup⟩ := ih hes
      { r with frontier := r.frontier.insert k (max ((r.frontier.lookup k).getD 0) v) }
    refine ⟨hoverrides, fun ctx => ?_⟩
    rw [hlookup]
    by_cases hctx : ctx = k
    · subst hctx
      rw [List.dlookup_eq_none.mpr hk, AList.lookup_insert, List.dlookup_cons_eq]
      exact Nat.max_zero _
    · rw [AList.lookup_insert_ne hctx, List.dlookup_cons_ne _ _ hctx]

/-- A blob tells each context as the device has it, compacted. -/
theorem view_publishBlob (ctx : String) : (d.publishBlob .clear).view ctx =
    if d.isLegacy then (d.effectiveFrontier ctx, 0, 0, 0) else (d.view ctx).compacted := by
  obtain ⟨hoverrides, hfrontier⟩ :=
    receive_frontiers d.frontier.entries d.frontier.nodupKeys ⟨∅, ∅⟩
  have hown : max 0 ((List.dlookup ctx d.frontier.entries).getD 0) = d.effectiveFrontier ctx :=
    Nat.zero_max _
  rw [Blob.view, view_received _ rfl, publishBlob, List.foldl_append]
  cases d.isLegacy with
  | true =>
    rw [if_pos rfl, if_pos rfl, List.foldl_nil, hoverrides, hfrontier]
    show Unread.view (max 0 (max 0 _)) none = _
    rw [hown, Nat.zero_max]
    rfl
  | false =>
    have hnothing : ∀ k ∈ d.overrides.entries.keys,
        ((d.frontier.entries.map fun e => (escapeContextKey e.1, e.2)).foldl receiveKey
          ⟨∅, ∅⟩).overrides.lookup k = none := by
      intro k _
      rw [hoverrides]
      exact AList.lookup_empty k
    obtain ⟨hsame, hlookup⟩ :=
      receive_publishOverrides (d := d) d.overrides.entries d.overrides.nodupKeys _ hnothing
    have hcanonical : (if ctx ∈ d.overrides.entries.keys then
        (d.canonicalizeForPublish ctx .clear).2 else (Incoming.mk ∅ ∅).overrides.lookup ctx) =
          (d.canonicalizeForPublish ctx .clear).2 := by
      split
      · rfl
      · rename_i hmem
        have hnone : d.overrides.lookup ctx = none := AList.lookup_eq_none.mpr hmem
        rw [canonicalizeForPublish, hnone]
        rfl
    rw [if_neg Bool.false_ne_true, if_neg Bool.false_ne_true, hsame, hlookup, hfrontier, hoverrides,
      hcanonical, ← view_canonicalize]
    show Unread.view (max 0 (max 0 _)) (mergeRegB none _) = _
    rw [hown, Nat.zero_max]
    rfl

end Device

end Buzz.Unread
