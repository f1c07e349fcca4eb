import Mathlib

namespace Buzz.HashChain
set_option autoImplicit true

variable {M D : Type} (digest : M → D) (parent : M → Option D)

/-- A history in which each entry names the digest of the one before it, and the first names
none. -/
inductive Chain : List M → Prop where
  | nil : Chain []
  | snoc (hchain : Chain ms) (hparent : parent m = ms.getLast?.map digest) : Chain (ms ++ [m])

variable {digest parent}

theorem Chain.of_snoc (h : Chain digest parent (ms ++ [m])) :
    Chain digest parent ms ∧ parent m = ms.getLast?.map digest := by
  generalize hl : ms ++ [m] = l at h
  cases h with
  | nil => simp at hl
  | snoc hchain hparent =>
    obtain ⟨rfl, rfl⟩ := List.append_singleton_inj.mp hl
    exact ⟨hchain, hparent⟩

theorem Chain.of_append (h : Chain digest parent (as ++ bs)) : Chain digest parent as := by
  induction bs using List.reverseRecOn with
  | nil =>
    rw [List.append_nil] at h
    exact h
  | append_singleton bs b ih =>
    rw [← List.append_assoc] at h
    exact ih h.of_snoc.1

theorem Chain.parent_eq (h : Chain digest parent (as ++ m :: bs)) :
    parent m = as.getLast?.map digest := by
  rw [List.append_cons] at h
  exact h.of_append.of_snoc.2

/-- While no digest repeats, the last entry is nobody's parent yet. -/
theorem Chain.parent_ne_last (h : Chain digest parent ms) (hnd : (ms.map digest).Nodup)
    (hm : m ∈ ms) : parent m ≠ ms.getLast?.map digest := by
  obtain ⟨as, bs, rfl⟩ := List.append_of_mem hm
  rw [h.parent_eq]
  intro he
  have hlast : ∃ q ∈ m :: bs, (as ++ m :: bs).getLast? = some q := by
    rw [List.getLast?_append, List.getLast?_eq_some_getLast (List.cons_ne_nil m bs)]
    exact ⟨_, List.getLast_mem _, rfl⟩
  obtain ⟨q, hq, hlast⟩ := hlast
  rw [hlast, Option.map_some, Option.map_eq_some_iff] at he
  obtain ⟨p, hp, hd⟩ := he
  rw [List.map_append, List.nodup_append] at hnd
  exact hnd.2.2 (digest p) (List.mem_map_of_mem (List.mem_of_getLast? hp)) (digest q)
    (List.mem_map_of_mem hq) hd

/-- If a digest fixes the parent that an entry names, no digest comes back. -/
theorem Chain.nodup (h : Chain digest parent ms)
    (hdigest : ∀ a ∈ ms, ∀ b ∈ ms, digest a = digest b → parent a = parent b) :
    (ms.map digest).Nodup := by
  induction h with
  | nil => exact List.nodup_nil
  | @snoc ms m hchain hparent ih =>
    have hold := ih fun a ha b hb =>
      hdigest a (List.mem_append_left _ ha) b (List.mem_append_left _ hb)
    rw [List.map_append, List.nodup_append]
    refine ⟨hold, List.nodup_singleton _, ?_⟩
    intro d hd e he hde
    obtain ⟨a, ha, rfl⟩ := List.mem_map.mp hd
    obtain rfl : e = digest m := List.mem_singleton.mp he
    have hsame := hdigest a (List.mem_append_left _ ha) m
      (List.mem_append_right _ (List.mem_singleton_self m)) hde
    exact hchain.parent_ne_last hold ha (hsame.trans hparent)

/-- While no digest repeats, no two entries share a parent. -/
theorem Chain.nodup_parent (h : Chain digest parent ms) (hnd : (ms.map digest).Nodup) :
    (ms.map parent).Nodup := by
  induction h with
  | nil => exact List.nodup_nil
  | @snoc ms m hchain hparent ih =>
    rw [List.map_append, List.nodup_append] at hnd ⊢
    refine ⟨ih hnd.1, List.nodup_singleton _, ?_⟩
    intro d hd e he hde
    obtain ⟨a, ha, rfl⟩ := List.mem_map.mp hd
    obtain rfl : e = parent m := List.mem_singleton.mp he
    exact hchain.parent_ne_last hnd.1 ha (hde.trans hparent)

/-- Walk back along the links of `ts ++ [t]` from an entry that stands for the last entry of a
chain. If a link back from what stands for an entry names the parent of that entry, and a digest
tells what an entry stands for, then the walk goes through the end of the chain. -/
theorem Chain.block {N : Type} {R : N → M → Prop} {L : N → N → Prop} {digestN : N → D}
    {ts : List N} {t : N} {os : List M} {o : M} (h : Chain digest parent (os ++ [o]))
    (hlinked : (ts ++ [t]).IsChain L) (hlast : R t o)
    (hback : ∀ s ∈ ts, ∀ t, ∀ m ∈ os ++ [o], L s t → R t m → parent m = some (digestN s))
    (hdigest : ∀ s ∈ ts, ∀ m ∈ os, digest m = digestN s → R s m) :
    ∃ before block, os ++ [o] = before ++ block ∧ List.Forall₂ R (ts ++ [t]) block := by
  induction ts using List.reverseRecOn generalizing t o os with
  | nil => exact ⟨os, [o], rfl, .cons hlast .nil⟩
  | append_singleton ts s ih =>
    obtain ⟨hlinks, _, hlink⟩ := List.isChain_append.mp hlinked
    have hst : L s t := hlink s (by simp) t rfl
    have hs : s ∈ ts ++ [s] := List.mem_append_right _ (List.mem_singleton_self s)
    have hparent := hback s hs t o (by simp) hst hlast
    obtain ⟨hinit, hlink⟩ := h.of_snoc
    rw [hparent] at hlink
    obtain ⟨m, hm, hd⟩ := Option.map_eq_some_iff.mp hlink.symm
    obtain ⟨os, rfl⟩ := List.getLast?_eq_some_iff.mp hm
    have hR := hdigest s hs m (by simp) hd
    obtain ⟨before, block, heq, hblock⟩ := ih hinit hlinks hR
      (fun s hs t m hm => hback s (List.mem_append_left _ hs) t m (List.mem_append_left _ hm))
      (fun s hs m hm => hdigest s (List.mem_append_left _ hs) m (List.mem_append_left _ hm))
    refine ⟨before, block ++ [o], ?_, ?_⟩
    · rw [heq, List.append_assoc]
    · exact List.rel_append hblock (.cons hlast .nil)

end Buzz.HashChain
