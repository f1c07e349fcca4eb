import Buzz.Lib.Table

namespace Buzz.Table
set_option autoImplicit true

variable {K V κ : Type} [DecidableEq K] [DecidableEq κ]

/-- Set a value. A key keeps the kind of its first value: any other is refused, with the value that
is there. -/
def set (kind : V → κ) (t : Table K V) (k : K) (v : V) : Except (V × V) (Table K V) :=
  match t.lookup k with
  | some old => if kind old = kind v then .ok (t.insert k v) else .error (old, v)
  | none => .ok (t.insert k v)

def setAll (kind : V → κ) (t : Table K V) (as : List (K × V)) : Except (V × V) (Table K V) :=
  as.foldlM (fun t a => t.set kind a.1 a.2) t

/-- All the values in a table are of one kind. -/
def OfKind (kind : V → κ) (c : κ) (t : Table K V) : Prop :=
  ∀ k v, t.lookup k = some v → kind v = c

variable {kind : V → κ} {t t' : Table K V} {as bs : List (K × V)} {k : K} {v : V} {c : κ}

theorem set_eq_ok (h : t.set kind k v = .ok t') : t' = t.insert k v := by
  rw [set] at h
  split at h
  · split at h
    · exact (Except.ok.inj h).symm
    · cases h
  · exact (Except.ok.inj h).symm

theorem set_new (h : t.lookup k = none) : t.set kind k v = .ok (t.insert k v) := by
  rw [set, h]

theorem set_ofKind (h : OfKind kind c t) (hv : kind v = c) :
    t.set kind k v = .ok (t.insert k v) := by
  rw [set]
  split
  · rename_i old hold
    rw [if_pos ((h k old hold).trans hv.symm)]
  · rfl

theorem setAll_cons (t : Table K V) (a : K × V) (as : List (K × V)) :
    t.setAll kind (a :: as) = (t.set kind a.1 a.2).bind fun t => t.setAll kind as :=
  List.foldlM_cons

theorem setAll_append (t : Table K V) (as bs : List (K × V)) :
    t.setAll kind (as ++ bs) = (t.setAll kind as).bind fun t => t.setAll kind bs :=
  List.foldlM_append

/-- Other keys keep their values. -/
theorem lookup_setAll_of_notMem (h : t.setAll kind as = .ok t') (hk : k ∉ as.map Prod.fst) :
    t'.lookup k = t.lookup k := by
  induction as generalizing t with
  | nil =>
    cases h
    rfl
  | cons a as ih =>
    rw [setAll_cons] at h
    cases hset : t.set kind a.1 a.2 with
    | error e =>
      rw [hset] at h
      cases h
    | ok next =>
      rw [hset] at h
      rw [List.map_cons, List.mem_cons, not_or] at hk
      rw [ih h hk.2, set_eq_ok hset, AList.lookup_insert_ne hk.1]

/-- A key that is set once has the value that it is set to. -/
theorem lookup_setAll (h : t.setAll kind as = .ok t') (hnodup : (as.map Prod.fst).Nodup)
    (hmem : (k, v) ∈ as) : t'.lookup k = some v := by
  induction as generalizing t with
  | nil => cases hmem
  | cons a as ih =>
    rw [setAll_cons] at h
    rw [List.map_cons, List.nodup_cons] at hnodup
    cases hset : t.set kind a.1 a.2 with
    | error e =>
      rw [hset] at h
      cases h
    | ok next =>
      rw [hset] at h
      rcases List.mem_cons.mp hmem with rfl | hmem
      · rw [lookup_setAll_of_notMem h hnodup.1, set_eq_ok hset, AList.lookup_insert]
      · exact ih h hnodup.2 hmem

theorem isSome_lookup_setAll (h : t.setAll kind as = .ok t')
    (hk : (t.lookup k).isSome = true ∨ k ∈ as.map Prod.fst) : (t'.lookup k).isSome = true := by
  induction as generalizing t with
  | nil =>
    cases h
    exact hk.resolve_right List.not_mem_nil
  | cons a as ih =>
    rw [setAll_cons] at h
    cases hset : t.set kind a.1 a.2 with
    | error e =>
      rw [hset] at h
      cases h
    | ok next =>
      rw [hset] at h
      apply ih h
      rw [set_eq_ok hset]
      by_cases heq : k = a.1
      · subst heq
        rw [AList.lookup_insert]
        exact .inl rfl
      · rw [AList.lookup_insert_ne heq]
        rw [List.map_cons, List.mem_cons, or_iff_right heq] at hk
        exact hk

/-- Values of the kind that all the others have are never refused. -/
theorem setAll_ofKind (h : OfKind kind c t) (has : ∀ a ∈ as, kind a.2 = c) :
    ∃ t', t.setAll kind as = .ok t' ∧ OfKind kind c t' := by
  induction as generalizing t with
  | nil => exact ⟨t, rfl, h⟩
  | cons a as ih =>
    obtain ⟨ha, has⟩ := List.forall_mem_cons.mp has
    have hnext : OfKind kind c (t.insert a.1 a.2) := by
      intro k v hk
      by_cases heq : k = a.1
      · subst heq
        rw [AList.lookup_insert, Option.some.injEq] at hk
        rw [← hk]
        exact ha
      · rw [AList.lookup_insert_ne heq] at hk
        exact h k v hk
    obtain ⟨t', ht', hkind⟩ := ih hnext has
    refine ⟨t', ?_, hkind⟩
    rw [setAll_cons, set_ofKind h ha]
    exact ht'

/-- New keys, each of them set once, are never refused. -/
theorem setAll_new (h : ∀ a ∈ as, t.lookup a.1 = none) (hnodup : (as.map Prod.fst).Nodup) :
    ∃ t', t.setAll kind as = .ok t' := by
  induction as generalizing t with
  | nil => exact ⟨t, rfl⟩
  | cons a as ih =>
    obtain ⟨ha, has⟩ := List.forall_mem_cons.mp h
    rw [List.map_cons, List.nodup_cons] at hnodup
    have hnext : ∀ b ∈ as, (t.insert a.1 a.2).lookup b.1 = none := by
      intro b hb
      have hne : b.1 ≠ a.1 := by
        intro heq
        rw [← heq] at hnodup
        exact hnodup.1 (List.mem_map_of_mem hb)
      rw [AList.lookup_insert_ne hne]
      exact has b hb
    obtain ⟨t', ht'⟩ := ih hnext hnodup.2
    refine ⟨t', ?_⟩
    rw [setAll_cons, set_new ha]
    exact ht'

end Buzz.Table
