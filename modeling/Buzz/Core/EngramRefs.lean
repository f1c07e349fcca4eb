import Buzz.Core.Engram

namespace Buzz.Engram
set_option autoImplicit true

/-- `[[s]]`. -/
def reference (s : String) : String :=
  "[[" ++ s ++ "]]"

/-- The text has the literal reference at a byte. -/
def OccursAt (body : String) (q : Nat) (s : String) : Prop :=
  utf8Bytes (reference s).toList <+: (utf8Bytes body.toList).drop q

/-- A reference to a valid slug. -/
def RefAt (body : String) (q : Nat) (s : String) : Prop :=
  validateSlug s = .ok () ∧ OccursAt body q s

/-- How many opening brackets stand directly before a byte. -/
def bracketsBefore (bytes : List UInt8) (q : Nat) : Nat :=
  ((bytes.take q).reverse.takeWhile (· == 91)).length

/-- A reference whose brackets the scan pairs up: an even number of brackets stands before it. -/
def SeenAt (body : String) (q : Nat) (s : String) : Prop :=
  RefAt body q s ∧ bracketsBefore (utf8Bytes body.toList) q % 2 = 0

/-- The first occurrence of a slug is before all those of another. -/
def Precedes (at' : Nat → String → Prop) (s t : String) : Prop :=
  ∃ q, at' q s ∧ ∀ q', at' q' t → q < q'

section Scan
variable {bytes : List UInt8} {i j : Nat}

structure ClosesAt (bytes : List UInt8) (j : Nat) (found : Nat × Bool) : Prop where
  free : ∀ k, j ≤ k → k < found.1 → isPair bytes k 91 = false ∧ isPair bytes k 93 = false
  closed : found.2 = true → isPair bytes found.1 93 = true
  unclosed : found.2 = false → isPair bytes found.1 91 = true ∨ bytes.length ≤ found.1 + 1

theorem findClose_spec (bytes : List UInt8) (j : Nat) :
    ClosesAt bytes j (findClose bytes j) := by
  fun_induction findClose bytes j with
  | case1 j _ hopen => exact ⟨fun k hk hlt => absurd hk (Nat.not_le.mpr hlt), (fun h => by cases h),
      fun _ => .inl hopen⟩
  | case2 j _ _ hclose =>
    exact ⟨fun k hk hlt => absurd hk (Nat.not_le.mpr hlt), fun _ => hclose, fun h => by cases h⟩
  | case3 j _ hopen hclose ih =>
    refine ⟨?_, ih.closed, ih.unclosed⟩
    intro k hk hlt
    rcases Nat.eq_or_lt_of_le hk with rfl | hlt'
    · exact ⟨Bool.eq_false_of_not_eq_true hopen, Bool.eq_false_of_not_eq_true hclose⟩
    · exact ih.free k hlt' hlt
  | case4 j hend =>
    exact ⟨fun k hk hlt => absurd hk (Nat.not_le.mpr hlt), (fun h => by cases h),
      fun _ => .inr (Nat.le_of_not_lt hend)⟩

theorem isPair_iff {b : UInt8} :
    isPair bytes i b = true ↔ bytes[i]? = some b ∧ bytes[i + 1]? = some b := by
  rw [isPair, Bool.and_eq_true, beq_iff_eq, beq_iff_eq]

theorem bracketsBefore_succ (h : bytes[i]? = some b) :
    bracketsBefore bytes (i + 1) = if b = 91 then bracketsBefore bytes i + 1 else 0 := by
  rw [bracketsBefore, List.take_add_one, h, Option.toList_some, List.reverse_append,
    List.reverse_singleton, List.singleton_append, List.takeWhile_cons]
  by_cases hb : b = 91
  · simp [hb, bracketsBefore]
  · simp [hb]

theorem isPair_lt {b : UInt8} (h : isPair bytes i b = true) : i + 1 < bytes.length := by
  rw [isPair_iff] at h
  exact (List.getElem?_eq_some_iff.mp h.2).1

theorem drop_of_isPair {b : UInt8} (h : isPair bytes i b = true) :
    bytes.drop i = b :: b :: bytes.drop (i + 2) := by
  have hlt := isPair_lt h
  obtain ⟨hb, hb'⟩ := isPair_iff.mp h
  obtain ⟨_, hb⟩ := List.getElem?_eq_some_iff.mp hb
  obtain ⟨_, hb'⟩ := List.getElem?_eq_some_iff.mp hb'
  rw [List.drop_eq_getElem_cons (Nat.lt_of_succ_lt hlt), List.drop_eq_getElem_cons hlt, hb, hb']

/-- Where the scan stops is determined by the pairs. -/
theorem findClose_eq (hle : j ≤ i) (hfree : ∀ k, j ≤ k → k < i → isPair bytes k 91 = false ∧
    isPair bytes k 93 = false) (hclose : isPair bytes i 93 = true) :
    findClose bytes j = (i, true) := by
  have hspec := findClose_spec bytes j
  have hj := le_findClose bytes j
  have hlt := isPair_lt hclose
  have hopen : isPair bytes i 91 = false := by
    apply Bool.eq_false_of_not_eq_true
    intro h
    have hbracket := (isPair_iff.mp h).1
    rw [(isPair_iff.mp hclose).1] at hbracket
    cases hbracket
  generalize findClose bytes j = found at hspec hj
  obtain ⟨stop, closed⟩ := found
  rcases Nat.lt_trichotomy stop i with hbefore | rfl | hafter
  · obtain ⟨hnoopen, hnoclose⟩ := hfree stop hj hbefore
    cases closed with
    | true =>
      have hpair := hspec.closed rfl
      rw [hnoclose] at hpair
      cases hpair
    | false =>
      rcases hspec.unclosed rfl with hpair | hend
      · rw [hnoopen] at hpair
        cases hpair
      · dsimp only at hend
        omega
  · cases closed with
    | true => rfl
    | false =>
      rcases hspec.unclosed rfl with hpair | hend
      · rw [hopen] at hpair
        cases hpair
      · dsimp only at hend
        omega
  · have hpair := (hspec.free i hle hafter).2
    rw [hclose] at hpair
    cases hpair

end Scan

variable {body s t : String} {i j q : Nat} {out : List String}

theorem utf8Bytes_reference (s : String) :
    utf8Bytes (reference s).toList = 91 :: 91 :: (utf8Bytes s.toList ++ [93, 93]) := by
  have hopen : utf8Bytes "[[".toList = [91, 91] := by decide
  have hclose : utf8Bytes "]]".toList = [93, 93] := by decide
  rw [reference, String.toList_append, String.toList_append, utf8Bytes_append, utf8Bytes_append,
    hopen, hclose]
  rfl

/-- The bytes from an occurrence on. -/
theorem occursAt_iff : OccursAt body q s ↔ ∃ after,
    (utf8Bytes body.toList).drop q = 91 :: 91 :: (utf8Bytes s.toList ++ 93 :: 93 :: after) := by
  rw [OccursAt, utf8Bytes_reference]
  constructor
  · rintro ⟨after, hafter⟩
    refine ⟨after, ?_⟩
    rw [← hafter]
    simp
  · rintro ⟨after, hafter⟩
    refine ⟨after, ?_⟩
    rw [hafter]
    simp

theorem getElem?_of_drop {bytes rest : List UInt8} (h : bytes.drop q = rest) (k : Nat) :
    bytes[q + k]? = rest[k]? := by
  rw [← h, List.getElem?_drop]

/-- No byte of a slug is a bracket. -/
theorem ne_bracket_of_mem_slug (h : validateSlug s = .ok ()) (hb : b ∈ utf8Bytes s.toList) :
    b ≠ 91 ∧ b ≠ 93 := by
  have hslug := (slugChar_of_valid h).2
  have hno : ∀ n : Nat, n < 128 → isSlugChar (Char.ofNat n) = false →
      UInt8.ofNat n ∉ utf8Bytes s.toList := by
    intro n hn hchar hmem
    obtain ⟨c, hc, hval⟩ := mem_of_mem_utf8Bytes hn hmem
    have hslugchar := hslug c hc
    rw [← hval, Char.ofNat_toNat, hslugchar] at hchar
    cases hchar
  refine ⟨?_, ?_⟩
  · rintro rfl
    exact hno 91 (by decide) (by decide) hb
  · rintro rfl
    exact hno 93 (by decide) (by decide) hb

theorem isPair_ne {bytes : List UInt8} {b c : UInt8} (h : bytes[i]? = some c) (hne : c ≠ b) :
    isPair bytes i b = false := by
  apply Bool.eq_false_of_not_eq_true
  intro hpair
  have hb := (isPair_iff.mp hpair).1
  rw [h] at hb
  exact hne (Option.some.inj hb)

/-- The scan reads a reference that it comes to. -/
theorem RefAt.scanned (h : RefAt body q s) :
    isPair (utf8Bytes body.toList) q 91 = true ∧
    findClose (utf8Bytes body.toList) (q + 2) =
      (q + 2 + (utf8Bytes s.toList).length, true) ∧
    slice (utf8Bytes body.toList) (q + 2) (q + 2 + (utf8Bytes s.toList).length) = some s ∧
    q + 3 < (utf8Bytes body.toList).length := by
  obtain ⟨hvalid, hoccurs⟩ := h
  obtain ⟨after, hdrop⟩ := occursAt_iff.mp hoccurs
  have hno : ∀ b ∈ utf8Bytes s.toList, b ≠ 91 ∧ b ≠ 93 := fun b hb => ne_bracket_of_mem_slug hvalid hb
  generalize utf8Bytes body.toList = bytes at *
  have hslice : slice bytes (q + 2) (q + 2 + (utf8Bytes s.toList).length) = some s := by
    rw [slice, fromUTF8_eq_some_iff, ← List.drop_drop, hdrop, Nat.add_sub_cancel_left,
      List.drop_succ_cons, List.drop_succ_cons, List.drop_zero, List.take_left]
  generalize utf8Bytes s.toList = slug at *
  have hat := getElem?_of_drop hdrop
  have hopen : isPair bytes q 91 = true := isPair_iff.mpr ⟨hat 0, hat 1⟩
  have hat' : ∀ k, bytes[q + 2 + k]? = (slug ++ 93 :: 93 :: after)[k]? := by
    intro k
    have hk := hat (k + 2)
    rw [List.getElem?_cons_succ, List.getElem?_cons_succ] at hk
    rw [← hk, Nat.add_assoc, Nat.add_comm 2 k]
  have hclose : isPair bytes (q + 2 + slug.length) 93 = true := by
    rw [isPair_iff, Nat.add_assoc (q + 2), hat', hat', List.getElem?_append_right (Nat.le_refl _),
      List.getElem?_append_right (Nat.le_add_right _ 1), Nat.sub_self, Nat.add_sub_cancel_left]
    exact ⟨rfl, rfl⟩
  have hfree : ∀ k, q + 2 ≤ k → k < q + 2 + slug.length →
      isPair bytes k 91 = false ∧ isPair bytes k 93 = false := by
    intro k hk hlt
    obtain ⟨k, rfl⟩ := Nat.exists_eq_add_of_le hk
    have hkslug : k < slug.length := Nat.lt_of_add_lt_add_left hlt
    have hbyte := hat' k
    rw [List.getElem?_append_left hkslug, List.getElem?_eq_getElem hkslug] at hbyte
    obtain ⟨hno91, hno93⟩ := hno _ (List.getElem_mem hkslug)
    exact ⟨isPair_ne hbyte hno91, isPair_ne hbyte hno93⟩
  refine ⟨hopen, findClose_eq (Nat.le_add_right _ _) hfree hclose, hslice, ?_⟩
  have hlt := isPair_lt hclose
  omega

/-- What the scan takes as a reference is one. -/
theorem occursAt_of_scanned (hopen : isPair (utf8Bytes body.toList) q 91 = true)
    (hle : q + 2 ≤ j) (hclose : isPair (utf8Bytes body.toList) j 93 = true)
    (hslice : slice (utf8Bytes body.toList) (q + 2) j = some s) : OccursAt body q s := by
  rw [occursAt_iff]
  refine ⟨(utf8Bytes body.toList).drop (j + 2), ?_⟩
  generalize utf8Bytes body.toList = bytes at *
  rw [slice, fromUTF8_eq_some_iff] at hslice
  have hsplit := List.take_append_drop (j - (q + 2)) (bytes.drop (q + 2))
  rw [List.drop_drop, Nat.add_sub_cancel' hle, hslice, drop_of_isPair hclose] at hsplit
  rw [drop_of_isPair hopen, ← hsplit]

/-- The slice between two brackets is a text. -/
theorem slice_ne_none (hopen : isPair (utf8Bytes body.toList) q 91 = true)
    (hle : q + 2 ≤ j) (hclose : isPair (utf8Bytes body.toList) j 93 = true) :
    ∃ candidate, slice (utf8Bytes body.toList) (q + 2) j = some candidate := by
  have hbefore := List.take_append_drop (q + 1) (utf8Bytes body.toList)
  obtain ⟨hlt, hbyte⟩ := List.getElem?_eq_some_iff.mp (isPair_iff.mp hopen).2
  rw [List.drop_eq_getElem_cons hlt, hbyte] at hbefore
  obtain ⟨_, rest, _, hrest⟩ := utf8Bytes_cut (by decide : 91 < 128) hbefore.symm
  have hafter := List.take_append_drop (j - (q + 2)) ((utf8Bytes body.toList).drop (q + 1 + 1))
  rw [List.drop_drop, Nat.add_sub_cancel' hle, drop_of_isPair hclose, hrest] at hafter
  obtain ⟨chars, _, hchars, _⟩ := utf8Bytes_cut (by decide : 93 < 128) hafter.symm
  refine ⟨String.ofList chars, ?_⟩
  rw [slice, fromUTF8_eq_some_iff, String.toList_ofList, ← hchars, hrest]

theorem bracketsBefore_eq_zero {bytes : List UInt8} (h : bytes[i]? = some b) (hne : b ≠ 91) :
    bracketsBefore bytes (i + 1) = 0 := by
  rw [bracketsBefore_succ h, if_neg hne]

theorem bracketsBefore_pair {bytes : List UInt8} (h : isPair bytes i 91 = true) :
    bracketsBefore bytes (i + 1) = bracketsBefore bytes i + 1 ∧
    bracketsBefore bytes (i + 2) = bracketsBefore bytes i + 2 := by
  obtain ⟨hfirst, hsecond⟩ := isPair_iff.mp h
  have hone := bracketsBefore_succ hfirst
  have htwo := bracketsBefore_succ hsecond
  rw [if_pos rfl] at hone htwo
  exact ⟨hone, htwo.trans (congrArg (· + 1) hone)⟩

theorem isOk_iff {r : Except SlugProblem Unit} : r.isOk = true ↔ r = .ok () := by
  cases r with
  | ok u => exact ⟨fun _ => rfl, fun _ => rfl⟩
  | error e => exact ⟨nofun, nofun⟩

/-- What the scan has found when it comes to a byte. -/
structure Scanned (body : String) (i : Nat) (out : List String) : Prop where
  nodup : out.Nodup
  mem : ∀ s, s ∈ out ↔ ∃ q, q < i ∧ SeenAt body q s
  ordered : out.Pairwise (Precedes (SeenAt body))
  even : (utf8Bytes body.toList)[i]? = some 91 →
    bracketsBefore (utf8Bytes body.toList) i % 2 = 0

theorem Scanned.start (body : String) : Scanned body 0 [] := by
  refine ⟨List.nodup_nil, ?_, List.Pairwise.nil, fun _ => rfl⟩
  intro s
  constructor
  · exact nofun
  · rintro ⟨q, hq, _⟩
    exact absurd hq (Nat.not_lt_zero q)

/-- Going on to a byte is sound when everything seen on the way is there already. -/
theorem Scanned.advance (h : Scanned body i out) (hle : i ≤ j)
    (hseen : ∀ q s, i ≤ q → q < j → SeenAt body q s → s ∈ out)
    (heven : (utf8Bytes body.toList)[j]? = some 91 →
      bracketsBefore (utf8Bytes body.toList) j % 2 = 0) : Scanned body j out := by
  refine ⟨h.nodup, ?_, h.ordered, heven⟩
  intro s
  constructor
  · intro hmem
    obtain ⟨q, hq, hat⟩ := (h.mem s).mp hmem
    exact ⟨q, Nat.lt_of_lt_of_le hq hle, hat⟩
  · rintro ⟨q, hq, hat⟩
    rcases Nat.lt_or_ge q i with hlt | hge
    · exact (h.mem s).mpr ⟨q, hlt, hat⟩
    · exact hseen q s hge hq hat

/-- A slug seen for the first time goes to the end. -/
theorem Scanned.found (h : Scanned body i out) (hlt : i < j) (hnew : t ∉ out)
    (hat : SeenAt body i t) (hseen : ∀ q s, i ≤ q → q < j → SeenAt body q s → s = t)
    (heven : (utf8Bytes body.toList)[j]? = some 91 →
      bracketsBefore (utf8Bytes body.toList) j % 2 = 0) : Scanned body j (out ++ [t]) := by
  have hfirst : ∀ q, SeenAt body q t → i ≤ q := by
    intro q hq
    apply Nat.le_of_not_lt
    intro hbefore
    exact hnew ((h.mem t).mpr ⟨q, hbefore, hq⟩)
  have hnodup : (out ++ [t]).Nodup := by
    rw [← List.concat_eq_append]
    exact h.nodup.concat hnew
  refine ⟨hnodup, ?_, ?_, heven⟩
  · intro s
    rw [List.mem_append, List.mem_singleton, h.mem]
    constructor
    · rintro (⟨q, hq, hs⟩ | rfl)
      · exact ⟨q, Nat.lt_trans hq hlt, hs⟩
      · exact ⟨i, hlt, hat⟩
    · rintro ⟨q, hq, hs⟩
      rcases Nat.lt_or_ge q i with hbefore | hge
      · exact .inl ⟨q, hbefore, hs⟩
      · exact .inr (hseen q s hge hq hs)
  · rw [List.pairwise_append]
    refine ⟨h.ordered, List.pairwise_singleton _ _, ?_⟩
    intro s hs t' ht'
    rw [List.mem_singleton] at ht'
    subst ht'
    obtain ⟨q, hq, hseenat⟩ := (h.mem s).mp hs
    exact ⟨q, hseenat, fun q' hq' => Nat.lt_of_lt_of_le hq (hfirst q' hq')⟩

/-- A pair of closing brackets at `j` ends a reference at `i`: nothing else is seen on the way. -/
theorem SeenAt.closed (hopen : isPair (utf8Bytes body.toList) i 91 = true)
    (heven : bracketsBefore (utf8Bytes body.toList) i % 2 = 0)
    (hfound : findClose (utf8Bytes body.toList) (i + 2) = (j, true))
    (hslice : slice (utf8Bytes body.toList) (i + 2) j = some t) (hle : i ≤ q) (hlt : q < j + 2)
    (h : SeenAt body q s) : q = i ∧ s = t := by
  obtain ⟨href, hparity⟩ := h
  obtain ⟨hpair, hclose, hcandidate, _⟩ := href.scanned
  have hspec := findClose_spec (utf8Bytes body.toList) (i + 2)
  rw [hfound] at hspec
  have hend := isPair_iff.mp (hspec.closed rfl)
  have hat := (isPair_iff.mp hpair).1
  rcases Nat.eq_or_lt_of_le hle with rfl | hafter
  · rw [hfound, Prod.mk.injEq] at hclose
    rw [← hclose.1, hslice] at hcandidate
    exact ⟨rfl, (Option.some.inj hcandidate).symm⟩
  · exfalso
    rcases Nat.eq_or_lt_of_le hafter with rfl | hinside
    · -- one bracket further: an odd number of brackets stands before it
      rw [(bracketsBefore_pair hopen).1] at hparity
      omega
    · rcases Nat.lt_or_ge q j with hbefore | hge
      · rw [(hspec.free q hinside hbefore).1] at hpair
        cases hpair
      · have hq : q = j ∨ q = j + 1 := by omega
        rcases hq with rfl | rfl
        · rw [hend.1] at hat
          cases hat
        · rw [hend.2] at hat
          cases hat

/-- No reference is seen at a pair of brackets that is not closed, or right after it. -/
theorem SeenAt.unclosed (hopen : isPair (utf8Bytes body.toList) i 91 = true)
    (heven : bracketsBefore (utf8Bytes body.toList) i % 2 = 0)
    (hfound : (findClose (utf8Bytes body.toList) (i + 2)).2 = false) (hle : i ≤ q)
    (hlt : q < i + 2) : ¬ SeenAt body q s := by
  rintro ⟨href, hparity⟩
  have hq : q = i ∨ q = i + 1 := by omega
  rcases hq with rfl | rfl
  · obtain ⟨_, hclose, _⟩ := href.scanned
    rw [hclose] at hfound
    cases hfound
  · rw [(bracketsBefore_pair hopen).1] at hparity
    omega

structure Extracted (body : String) (refs : List String) : Prop where
  nodup : refs.Nodup
  mem : ∀ s, s ∈ refs ↔ ∃ q, SeenAt body q s
  ordered : refs.Pairwise (Precedes (SeenAt body))

/-- The scan ends, panics nowhere, and finds exactly the references whose brackets pair up. -/
theorem extractLoop_spec (h : Scanned body i out) :
    ∃ refs, extractLoop (utf8Bytes body.toList) i out = some refs ∧ Extracted body refs := by
  generalize hbytes : utf8Bytes body.toList = bytes
  fun_induction extractLoop bytes i out with
  | case1 i out hmore hopen hclosed hnone =>
    subst hbytes
    have hclose := (findClose_spec (utf8Bytes body.toList) (i + 2)).closed hclosed
    obtain ⟨candidate, hcandidate⟩ := slice_ne_none hopen (le_findClose _ _) hclose
    rw [hnone] at hcandidate
    cases hcandidate
  | case2 i out hmore hopen hclosed candidate hcandidate ih =>
    subst hbytes
    have hle := le_findClose (utf8Bytes body.toList) (i + 2)
    have hclose := (findClose_spec (utf8Bytes body.toList) (i + 2)).closed hclosed
    have hoccurs := occursAt_of_scanned hopen hle hclose hcandidate
    have heven := h.even (isPair_iff.mp hopen).1
    have hend : bracketsBefore (utf8Bytes body.toList)
        ((findClose (utf8Bytes body.toList) (i + 2)).1 + 2) % 2 = 0 :=
      congrArg (· % 2) (bracketsBefore_eq_zero (isPair_iff.mp hclose).2 (by decide))
    have hfound : findClose (utf8Bytes body.toList) (i + 2) =
        ((findClose (utf8Bytes body.toList) (i + 2)).1, true) := Prod.ext rfl hclosed
    have hseen : ∀ q s, i ≤ q → q < (findClose (utf8Bytes body.toList) (i + 2)).1 + 2 →
        SeenAt body q s → q = i ∧ s = candidate :=
      fun q s hge hlt hat => hat.closed hopen heven hfound hcandidate hge hlt
    have hstep : Scanned body ((findClose (utf8Bytes body.toList) (i + 2)).1 + 2)
        (if (validateSlug candidate).isOk && !out.contains candidate then out ++ [candidate]
          else out) := by
      have hlt : i < (findClose (utf8Bytes body.toList) (i + 2)).1 + 2 := by omega
      split
      · rename_i hnew
        rw [Bool.and_eq_true, isOk_iff, Bool.not_eq_true', List.contains_eq_mem,
          decide_eq_false_iff_not] at hnew
        exact h.found hlt hnew.2 ⟨⟨hnew.1, hoccurs⟩, heven⟩
          (fun q s hge hbefore hat => (hseen q s hge hbefore hat).2) (fun _ => hend)
      · rename_i hold
        refine h.advance (Nat.le_of_lt hlt) ?_ (fun _ => hend)
        intro q s hge hbefore hat
        obtain ⟨rfl, rfl⟩ := hseen q s hge hbefore hat
        -- a valid slug is left out only when it is there already
        rw [Bool.and_eq_true, isOk_iff, Bool.not_eq_true', List.contains_eq_mem,
          decide_eq_false_iff_not] at hold
        exact Decidable.not_not.mp fun hnot => hold ⟨hat.1.1, hnot⟩
    exact ih hstep
  | case3 i out hmore hopen hunclosed ih =>
    subst hbytes
    rw [Bool.not_eq_true] at hunclosed
    have heven := h.even (isPair_iff.mp hopen).1
    have hstep : Scanned body (i + 2) out := by
      apply h.advance (Nat.le_add_right i 2)
      · intro q s hge hlt hat
        exact absurd hat (SeenAt.unclosed hopen heven hunclosed hge hlt)
      · intro _
        rw [(bracketsBefore_pair hopen).2, Nat.add_mod_right]
        exact heven
    exact ih hstep
  | case4 i out hmore hopen ih =>
    subst hbytes
    have hstep : Scanned body (i + 1) out := by
      apply h.advance (Nat.le_succ i)
      · intro q s hge hlt hat
        have hq : q = i := by omega
        subst hq
        exact absurd hat.1.scanned.1 hopen
      · intro hnext
        obtain ⟨b, hb⟩ : ∃ b, (utf8Bytes body.toList)[i]? = some b :=
          ⟨_, List.getElem?_eq_getElem (by omega)⟩
        have hne : b ≠ 91 := by
          rintro rfl
          exact hopen (isPair_iff.mpr ⟨hb, hnext⟩)
        exact congrArg (· % 2) (bracketsBefore_eq_zero hb hne)
    exact ih hstep
  | case5 i out hend =>
    subst hbytes
    refine ⟨out, rfl, h.nodup, ?_, h.ordered⟩
    intro s
    rw [h.mem]
    constructor
    · rintro ⟨q, _, hat⟩
      exact ⟨q, hat⟩
    · rintro ⟨q, hat⟩
      have hlt := hat.1.scanned.2.2.2
      exact ⟨q, by omega, hat⟩

theorem extractRefs_spec (body : String) :
    ∃ refs, extractRefs body = some refs ∧ Extracted body refs :=
  extractLoop_spec (Scanned.start body)

/-- Exactly the references that occur, each once, in the order in which they first occur. -/
def ExtractsReferences (body : String) : Prop :=
  ∃ refs, extractRefs body = some refs ∧ refs.Nodup ∧
    (∀ s, s ∈ refs ↔ ∃ q, RefAt body q s) ∧ refs.Pairwise (Precedes (RefAt body))

/-- Each slug referred to is seen somewhere, and what is seen first occurs first. -/
structure BracketsPairUp (body : String) : Prop where
  seen : ∀ q s, RefAt body q s → ∃ q', SeenAt body q' s
  order : ∀ s t, Precedes (SeenAt body) s t → Precedes (RefAt body) s t

theorem Precedes.asymm {at' : Nat → String → Prop} (h : Precedes at' s t) :
    ¬ Precedes at' t s := by
  obtain ⟨q, hq, hs⟩ := h
  rintro ⟨q', hq', ht⟩
  exact Nat.lt_asymm (hs q' hq') (ht q hq)

end Buzz.Engram
