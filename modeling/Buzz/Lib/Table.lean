import Mathlib

namespace Buzz
set_option autoImplicit true

/-- A hash table, as its entries in the order in which it iterates over them. -/
abbrev Table (K V : Type) := AList (fun _ : K => V)

namespace Table

variable {K V : Type}

def retain (p : K → V → Bool) (t : Table K V) : Table K V :=
  ⟨t.entries.filter fun e => p e.1 e.2, t.nodupKeys.sublist List.filter_sublist⟩

/-- What the entries of a table hold together. -/
def contents (f : K → V → Multiset α) (t : Table K V) : Multiset α :=
  (t.entries.map fun e => f e.1 e.2).sum

theorem contents_perm (f : K → V → Multiset α) {t t' : Table K V}
    (h : t.entries.Perm t'.entries) : t.contents f = t'.contents f :=
  (h.map _).sum_eq

/-- What one thing for each entry makes together. -/
theorem contents_singleton (f : V → α) (t : Table K V) :
    contents (fun _ v => {f v}) t = ((t.entries.map fun e => f e.2 : List α) : Multiset α) := by
  rw [contents]
  induction t.entries with
  | nil => rfl
  | cons e es ih => rw [List.map_cons, List.sum_cons, ih, List.map_cons, Multiset.singleton_add, Multiset.cons_coe]

variable [DecidableEq K]

theorem mem_contents_singleton {f : V → α} {t : Table K V} :
    a ∈ contents (fun _ v => {f v}) t ↔ ∃ k v, t.lookup k = some v ∧ f v = a := by
  rw [contents_singleton, Multiset.mem_coe, List.mem_map]
  constructor
  · rintro ⟨⟨k, v⟩, he, rfl⟩
    exact ⟨k, v, AList.mem_lookup_iff.mpr he, rfl⟩
  · rintro ⟨k, v, hlookup, rfl⟩
    exact ⟨⟨k, v⟩, AList.mem_lookup_iff.mp hlookup, rfl⟩

/-- Where nothing is held twice, entries with the same thing are the same. -/
theorem eq_of_nodup_contents {f : V → α} {t : Table K V}
    (h : (contents (fun _ v => {f v}) t).Nodup) (hv : t.lookup k = some v)
    (hv' : t.lookup k' = some v') (heq : f v = f v') : k = k' := by
  rw [contents_singleton, Multiset.coe_nodup] at h
  have hmem : (⟨k, v⟩ : Sigma fun _ : K => V) ∈ t.entries := AList.mem_lookup_iff.mp hv
  have hmem' : (⟨k', v'⟩ : Sigma fun _ : K => V) ∈ t.entries := AList.mem_lookup_iff.mp hv'
  exact congrArg Sigma.fst (List.inj_on_of_nodup_map h hmem hmem' heq)

theorem erase_of_lookup_eq_none {t : Table K V} (h : t.lookup k = none) : t.erase k = t := by
  have hk : k ∉ t.entries.keys := AList.lookup_eq_none.mp h
  exact AList.ext (List.kerase_of_notMem_keys hk)

theorem lookup_retain (p : K → V → Bool) (t : Table K V) (k : K) :
    (t.retain p).lookup k = (t.lookup k).filter (p k) := by
  apply Option.ext
  intro v
  have hmem : v ∈ (t.retain p).lookup k ↔ ⟨k, v⟩ ∈ t.entries.filter fun e => p e.1 e.2 :=
    AList.mem_lookup_iff
  have hlookup : v ∈ t.lookup k ↔ ⟨k, v⟩ ∈ t.entries := AList.mem_lookup_iff
  rw [← Option.mem_def, ← Option.mem_def, hmem, List.mem_filter, ← hlookup, Option.mem_filter_iff]

theorem contents_insert (f : K → V → Multiset α) (t : Table K V) (k : K) (v : V) :
    contents f (t.insert k v) = f k v + contents f (t.erase k) := by
  rw [contents, AList.entries_insert, List.map_cons, List.sum_cons]
  rfl

/-- The entry of a key may come first. -/
theorem perm_insert_lookup {t : Table K V} (h : t.lookup k = some v) :
    t.entries.Perm (t.insert k v).entries := by
  have hk : k ∈ t.entries.keys := AList.lookup_isSome.mp (h ▸ rfl)
  obtain ⟨w, before, after, _, hentries, herase⟩ := List.exists_of_kerase hk
  have hmem : (⟨k, w⟩ : Sigma fun _ : K => V) ∈ t.entries := by
    rw [hentries]
    simp
  have hw : t.lookup k = some w := AList.mem_lookup_iff.mpr hmem
  rw [hw, Option.some.injEq] at h
  rw [AList.entries_insert, herase, hentries, ← h]
  exact List.perm_middle

/-- A table is the entry of a key and the rest. -/
theorem contents_erase (f : K → V → Multiset α) (t : Table K V) (k : K) :
    contents f t = (t.lookup k).elim 0 (f k) + contents f (t.erase k) := by
  cases h : t.lookup k with
  | none => rw [erase_of_lookup_eq_none h, Option.elim_none, zero_add]
  | some v => rw [Option.elim_some, ← contents_insert, contents_perm f (perm_insert_lookup h)]

theorem any_eq_false_iff {p : (Sigma fun _ : K => V) → Bool} {t : Table K V} :
    t.entries.any p = false ↔ ∀ k v, t.lookup k = some v → p ⟨k, v⟩ = false := by
  rw [List.any_eq_false]
  constructor
  · intro h k v hv
    exact Bool.eq_false_of_not_eq_true (h ⟨k, v⟩ (AList.mem_lookup_iff.mp hv))
  · rintro h ⟨k, v⟩ he
    rw [h k v (AList.mem_lookup_iff.mpr he)]
    exact Bool.false_ne_true

/-- Entries put in one after the other. -/
theorem lookup_foldl_insert (es : List (Sigma fun _ : K => V)) (hes : es.NodupKeys) (t : Table K V)
    (k : K) : (es.foldl (fun t e => t.insert e.1 e.2) t).lookup k =
      (List.dlookup k es).or (t.lookup k) := by
  induction es generalizing t with
  | nil => rfl
  | cons e es ih =>
    obtain ⟨k', v⟩ := e
    obtain ⟨hk', hes⟩ := List.nodupKeys_cons.mp hes
    rw [List.foldl_cons, ih hes]
    by_cases hk : k = k'
    · subst hk
      rw [List.dlookup_eq_none.mpr hk', AList.lookup_insert, List.dlookup_cons_eq]
      rfl
    · rw [AList.lookup_insert_ne hk, List.dlookup_cons_ne _ _ hk]

/-- Each value is changed in its place. -/
def mapVals (f : K → V → V) (t : Table K V) : Table K V :=
  ⟨t.entries.map fun e => ⟨e.1, f e.1 e.2⟩, by
    rw [List.NodupKeys, List.keys, List.map_map]
    exact t.nodupKeys⟩

theorem dlookup_map_snd (f : K → V → V) (es : List (Sigma fun _ : K => V)) (k : K) :
    List.dlookup k (es.map fun e => (⟨e.1, f e.1 e.2⟩ : Sigma fun _ : K => V)) =
      (List.dlookup k es).map (f k) := by
  induction es with
  | nil => rfl
  | cons e es ih =>
    obtain ⟨k', v⟩ := e
    rw [List.map_cons]
    by_cases hk : k = k'
    · subst hk
      rw [List.dlookup_cons_eq, List.dlookup_cons_eq]
      rfl
    · rw [List.dlookup_cons_ne _ _ hk, List.dlookup_cons_ne _ _ hk]
      exact ih

theorem lookup_mapVals (f : K → V → V) (t : Table K V) (k : K) :
    (t.mapVals f).lookup k = (t.lookup k).map (f k) :=
  dlookup_map_snd f t.entries k

theorem mapVals_eq_self {f : K → V → V} {t : Table K V}
    (h : ∀ k v, t.lookup k = some v → f k v = v) : t.mapVals f = t := by
  apply AList.ext
  have hid : ∀ e ∈ t.entries, (⟨e.1, f e.1 e.2⟩ : Sigma fun _ : K => V) = id e := by
    rintro ⟨k, v⟩ he
    rw [h k v (AList.mem_lookup_iff.mpr he), id]
  exact (List.map_congr_left hid).trans (List.map_id _)

/-- The entries of the other keys. -/
theorem countP_erase (p : (Sigma fun _ : K => V) → Bool) (t : Table K V) (k : K) :
    (t.erase k).entries.countP p = t.entries.countP fun e => p e && e.1 ≠ k := by
  have herase : (t.erase k).entries.countP p =
      (t.erase k).entries.countP fun e => p e && e.1 ≠ k := by
    apply List.countP_congr
    intro e he
    have hne : e.1 ≠ k := by
      rintro rfl
      exact List.notMem_keys_kerase e.1 t.nodupKeys (List.mem_keys_of_mem he)
    simp [hne]
  rw [herase]
  cases h : t.lookup k with
  | none => rw [erase_of_lookup_eq_none h]
  | some v =>
    rw [(perm_insert_lookup h).countP_eq, AList.entries_insert, List.countP_cons_of_neg (by simp)]
    rfl

theorem countP_insert (p : (Sigma fun _ : K => V) → Bool) (t : Table K V) (k : K) (v : V) :
    (t.insert k v).entries.countP p =
      (t.entries.countP fun e => p e && e.1 ≠ k) + if p ⟨k, v⟩ then 1 else 0 := by
  rw [AList.entries_insert, List.countP_cons, ← countP_erase]
  rfl

/-- Every value of a table has the property. -/
def All (P : V → Prop) (t : Table K V) : Prop :=
  ∀ k v, t.lookup k = some v → P v

theorem All.empty (P : V → Prop) : All P (∅ : Table K V) := by
  intro k v h
  cases h

theorem All.insert {P : V → Prop} {t : Table K V} (h : All P t) (k : K) (hv : P v) :
    All P (t.insert k v) := by
  intro k' v' h'
  by_cases hk : k' = k
  · subst hk
    rw [AList.lookup_insert, Option.some.injEq] at h'
    rw [← h']
    exact hv
  · rw [AList.lookup_insert_ne hk] at h'
    exact h k' v' h'

theorem All.erase {P : V → Prop} {t : Table K V} (h : All P t) (k : K) : All P (t.erase k) := by
  intro k' v' h'
  by_cases hk : k' = k
  · subst hk
    rw [AList.lookup_erase] at h'
    cases h'
  · rw [AList.lookup_erase_ne hk] at h'
    exact h k' v' h'

theorem All.perm {P : V → Prop} {t t' : Table K V} (h : All P t)
    (hperm : t.entries.Perm t'.entries) : All P t' := by
  intro k v hv
  rw [← AList.perm_lookup hperm] at hv
  exact h k v hv

section Lists

variable {f : K → List β → Multiset α} (hf : ∀ k, f k [] = 0)

include hf

theorem contents_getD (t : Table K (List β)) (k : K) :
    contents f t = f k ((t.lookup k).getD []) + contents f (t.erase k) := by
  rw [contents_erase f t k]
  cases t.lookup k with
  | none => rw [Option.elim_none, Option.getD_none, hf]
  | some l => rw [Option.elim_some, Option.getD_some]

/-- A list put in a table that keeps no empty ones. -/
theorem contents_set (t : Table K (List β)) (k : K) (l : List β) :
    contents f (if l.isEmpty then t.erase k else t.insert k l) =
      f k l + contents f (t.erase k) := by
  cases l with
  | nil => rw [List.isEmpty_nil, if_pos rfl, hf, zero_add]
  | cons b l => rw [List.isEmpty_cons, if_neg Bool.false_ne_true, contents_insert]

end Lists

end Table

end Buzz
