import Mathlib

namespace Buzz.Replica
set_option autoImplicit true

/-- A log of changes, each with a 64-bit number, and what a change does to a state. -/
structure Changes (δ σ : Type) where
  number : δ → UInt64
  apply : δ → σ → σ

variable {δ σ : Type} (C : Changes δ σ)

def replay (log : List δ) (s : σ) : σ :=
  log.foldl (fun s d => C.apply d s) s

/-- The changes are numbered from one, modulo 2^64. -/
def Numbered (log : List δ) : Prop :=
  log.map C.number = (List.range log.length).map fun i => UInt64.ofNat (i + 1)

/-- A state with the number of the last change in it. -/
structure View (σ : Type) where
  revision : UInt64
  state : σ

/-- A change at or below the revision of the view is ignored. -/
def View.receive (v : View σ) (d : δ) : View σ :=
  if C.number d ≤ v.revision then v else ⟨C.number d, C.apply d v.state⟩

/-- The view after the first `n` changes. -/
def view (s : σ) (log : List δ) (n : Nat) : View σ :=
  ⟨UInt64.ofNat n, replay C (log.take n) s⟩

variable {C}

theorem Numbered.snoc {log : List δ} {d : δ} (h : Numbered C log)
    (hd : C.number d = UInt64.ofNat (log.length + 1)) : Numbered C (log ++ [d]) := by
  rw [Numbered, List.map_append, h, List.length_append, List.length_singleton, List.range_succ,
    List.map_append, List.map_singleton, List.map_singleton, hd]

theorem Numbered.number_eq {log : List δ} (h : Numbered C log) (hi : i < log.length) :
    C.number log[i] = UInt64.ofNat (i + 1) := by
  have hget := congrArg (fun l => l[i]?) h
  simpa [hi] using hget

theorem toNat_ofNat_of_le {n m : Nat} (h : n ≤ m) (hm : m < 2 ^ 64) :
    (UInt64.ofNat n).toNat = n := by
  rw [UInt64.toNat_ofNat', Nat.mod_eq_of_lt (Nat.lt_of_le_of_lt h hm)]

theorem ofNat_lt_ofNat {n m k : Nat} (hn : n ≤ k) (hm : m ≤ k) (hk : k < 2 ^ 64) :
    UInt64.ofNat n < UInt64.ofNat m ↔ n < m := by
  rw [UInt64.lt_iff_toNat_lt, toNat_ofNat_of_le hn hk, toNat_ofNat_of_le hm hk]

theorem ofNat_le_ofNat {n m k : Nat} (hn : n ≤ k) (hm : m ≤ k) (hk : k < 2 ^ 64) :
    UInt64.ofNat n ≤ UInt64.ofNat m ↔ n ≤ m := by
  rw [UInt64.le_iff_toNat_le, toNat_ofNat_of_le hn hk, toNat_ofNat_of_le hm hk]

theorem Numbered.append {log more : List δ} (h : Numbered C (log ++ more)) : Numbered C log := by
  have htake := congrArg (List.take log.length) h
  rw [Numbered]
  simpa [List.map_append, ← List.map_take, List.take_range, List.take_left'] using htake

theorem Numbered.of_mem_slice {log : List δ} (h : Numbered C log)
    (hd : d ∈ (log.take m).drop n) :
    ∃ i, n ≤ i ∧ i < m ∧ i < log.length ∧ C.number d = UInt64.ofNat (i + 1) := by
  obtain ⟨j, hj, rfl⟩ := List.mem_iff_getElem.mp hd
  rw [List.length_drop, List.length_take] at hj
  refine ⟨n + j, by omega, by omega, by omega, ?_⟩
  rw [List.getElem_drop, List.getElem_take]
  exact h.number_eq (by omega)

/-- The changes with numbers in an interval are those between its ends. -/
theorem Numbered.filter_eq {log : List δ} (h : Numbered C log) (hlog : log.length < 2 ^ 64)
    (hn : n ≤ m) (hm : m ≤ log.length) :
    log.filter (fun d => UInt64.ofNat n < C.number d ∧ C.number d ≤ UInt64.ofNat m) =
      (log.take m).drop n := by
  have hinside : ∀ d ∈ (log.take m).drop n,
      UInt64.ofNat n < C.number d ∧ C.number d ≤ UInt64.ofNat m := by
    intro d hd
    obtain ⟨i, hni, him, hi, hnumber⟩ := h.of_mem_slice hd
    rw [hnumber, ofNat_lt_ofNat (by omega) (by omega) hlog,
      ofNat_le_ofNat (by omega) hm hlog]
    omega
  have hbefore : ∀ d ∈ log.take n,
      ¬(UInt64.ofNat n < C.number d ∧ C.number d ≤ UInt64.ofNat m) := by
    intro d hd
    obtain ⟨i, _, him, hi, hnumber⟩ := h.of_mem_slice (n := 0) hd
    rw [hnumber, ofNat_lt_ofNat (by omega) (by omega) hlog]
    omega
  have hafter : ∀ d ∈ log.drop m,
      ¬(UInt64.ofNat n < C.number d ∧ C.number d ≤ UInt64.ofNat m) := by
    intro d hd
    rw [← List.take_length (l := log)] at hd
    obtain ⟨i, hmi, _, hi, hnumber⟩ := h.of_mem_slice hd
    rw [hnumber, ofNat_le_ofNat (by omega) hm hlog]
    omega
  have hsplit : log = log.take n ++ ((log.take m).drop n ++ log.drop m) := by
    have htake : log.take n = (log.take m).take n := by
      rw [List.take_take, Nat.min_eq_left hn]
    rw [← List.append_assoc, htake, List.take_append_drop, List.take_append_drop]
  conv_lhs => rw [hsplit]
  rw [List.filter_append, List.filter_append]
  have hnil := List.filter_eq_nil_iff.mpr fun d hd => (decide_eq_true_iff.not).mpr (hbefore d hd)
  have hnil' := List.filter_eq_nil_iff.mpr fun d hd => (decide_eq_true_iff.not).mpr (hafter d hd)
  have hself := List.filter_eq_self.mpr fun d hd => decide_eq_true (hinside d hd)
  rw [hnil, hself, hnil', List.nil_append, List.append_nil]

theorem Numbered.getLast_slice {log : List δ} (h : Numbered C log) (hn : n ≤ m)
    (hm : m ≤ log.length) :
    ((log.take m).drop n).getLast?.elim (UInt64.ofNat n) C.number = UInt64.ofNat m := by
  rcases Nat.eq_or_lt_of_le hn with rfl | hlt
  · rw [List.drop_of_length_le (List.length_take_le ..)]
    rfl
  · have hlast : (log.take m).length ≠ 0 := by
      rw [List.length_take]
      omega
    rw [List.getLast?_drop, if_neg (by rw [List.length_take]; omega), List.getLast?_take,
      if_neg (by omega), List.getElem?_eq_getElem (by omega)]
    change C.number log[m - 1] = _
    rw [h.number_eq, Nat.sub_add_cancel (by omega)]

/-- Every number up to the last one is the number of one change. -/
theorem Numbered.countP_eq_one {log : List δ} (h : Numbered C log) (hlog : log.length < 2 ^ 64)
    {r : UInt64} (hpos : 0 < r) (hr : r ≤ UInt64.ofNat log.length) :
    log.countP (fun d => C.number d == r) = 1 := by
  have hcount : log.countP (fun d => C.number d == r) = (log.map C.number).count r := by
    rw [List.count, List.countP_map]
    rfl
  rw [hcount, h]
  apply List.count_eq_one_of_mem
  · apply List.Nodup.map_on _ List.nodup_range
    intro i hi j hj heq
    rw [List.mem_range] at hi hj
    have hnat := congrArg UInt64.toNat heq
    rw [toNat_ofNat_of_le hi hlog, toNat_ofNat_of_le hj hlog] at hnat
    omega
  · rw [List.mem_map]
    rw [UInt64.lt_iff_toNat_lt] at hpos
    rw [UInt64.le_iff_toNat_le, toNat_ofNat_of_le (Nat.le_refl _) hlog] at hr
    have hzero : (0 : UInt64).toNat = 0 := rfl
    refine ⟨r.toNat - 1, List.mem_range.mpr (by omega), ?_⟩
    rw [Nat.sub_add_cancel (by omega), UInt64.ofNat_toNat]

theorem replay_append (log more : List δ) (s : σ) :
    replay C (log ++ more) s = replay C more (replay C log s) :=
  List.foldl_append

/-- The changes between two views bring the first one to the second one. -/
theorem replay_slice (log : List δ) (s : σ) (hn : n ≤ m) :
    replay C ((log.take m).drop n) (view C s log n).state = (view C s log m).state := by
  have htake : log.take n = (log.take m).take n := by
    rw [List.take_take, Nat.min_eq_left hn]
  rw [view, view, htake, ← replay_append, List.take_append_drop]

theorem view_append {log : List δ} (more : List δ) (s : σ) (hn : n ≤ log.length) :
    view C s (log ++ more) n = view C s log n := by
  rw [view, view, List.take_append_of_le_length hn]

/-- A change that the view has is ignored, and the next one moves it on. -/
theorem Numbered.receive_view {log : List δ} (h : Numbered C log) (hlog : log.length < 2 ^ 64)
    (s : σ) (hn : n ≤ log.length) (hk : k < log.length) (hkn : k ≤ n) :
    (view C s log n).receive C log[k] = view C s log (max n (k + 1)) := by
  rw [View.receive, h.number_eq hk]
  have hle := ofNat_le_ofNat (n := k + 1) (m := n) (by omega) hn hlog
  split
  · rename_i hold
    rw [Nat.max_eq_left (hle.mp hold)]
  · rename_i hnew
    obtain rfl : k = n := by
      have hlt := mt hle.mpr hnew
      omega
    rw [Nat.max_eq_right (Nat.le_succ k), view, view, List.take_succ_eq_append_getElem hk,
      replay_append]
    rfl

end Buzz.Replica
