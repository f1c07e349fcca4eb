import Buzz.Agent.SteersCarried

namespace Buzz.Agent
set_option autoImplicit true

/-- The totals that `truncateLoop` keeps, each with the history that is left then. -/
def truncateTotals (maxBytes : Nat) :
    Nat → Nat → List HistoryItem → List (Nat × List HistoryItem)
  | 0, total, history => [(total, history)]
  | fuel + 1, total, history =>
    if total ≤ maxBytes then [(total, history)]
    else
      match nextSegment history with
      | [] => [(total, history)]
      | rest =>
        let dropped := estimatedBytes (history.take (history.length - rest.length))
        (total, history) :: truncateTotals maxBytes fuel (total - dropped) rest

/-- A history may be cut to itself or to one of its ends that a user message starts. -/
structure Cuts (history rest : List HistoryItem) : Prop where
  suffix : rest <:+ history
  aligned : rest = history ∨ ∃ text more, rest = .user text :: more

/-- The shortest cut of a history: from the last user message behind its first item on. -/
def CutsLast (history rest : List HistoryItem) : Prop :=
  (∃ before text more, before ≠ [] ∧ history = before ++ .user text :: more ∧
    (∀ item ∈ more, item.isUser = false) ∧ rest = .user text :: more) ∨
  ((∀ item ∈ history.tail, item.isUser = false) ∧ rest = history)

/-- The longest cut that fits, or else the shortest one. -/
structure CutsLeast (maxBytes : Nat) (history rest : List HistoryItem) : Prop where
  cuts : Cuts history rest
  fits : (∃ cut, Cuts history cut ∧ estimatedBytes cut ≤ maxBytes) →
    estimatedBytes rest ≤ maxBytes
  longest : ∀ cut, Cuts history cut → estimatedBytes cut ≤ maxBytes → cut <:+ rest
  shortest : (∀ cut, Cuts history cut → maxBytes < estimatedBytes cut) → CutsLast history rest

variable {history rest cut : List HistoryItem} {maxBytes : Nat}

theorem Cuts.refl (history : List HistoryItem) : Cuts history history :=
  ⟨List.suffix_refl _, .inl rfl⟩

theorem truncateTotals_ne_nil (maxBytes fuel total : Nat) (history : List HistoryItem) :
    truncateTotals maxBytes fuel total history ≠ [] := by
  cases fuel with
  | zero => exact List.cons_ne_nil _ _
  | succ fuel =>
    rw [truncateTotals]
    split
    · exact List.cons_ne_nil _ _
    · split
      · exact List.cons_ne_nil _ _
      · exact List.cons_ne_nil _ _

/-- The last total is that of the history which `truncateLoop` returns. -/
theorem getLast?_truncateTotals (maxBytes fuel total : Nat) (history : List HistoryItem) :
    ((truncateTotals maxBytes fuel total history).getLast?).map Prod.snd =
      some (truncateLoop maxBytes fuel total history) := by
  induction fuel generalizing total history with
  | zero => rfl
  | succ fuel ih =>
    rw [truncateTotals, truncateLoop]
    split
    · rfl
    · cases hnext : nextSegment history with
      | nil => rfl
      | cons item rest =>
        dsimp only
        rw [List.getLast?_cons_of_ne_nil (truncateTotals_ne_nil _ _ _ _)]
        exact ih _ _

/-- What a round drops and what it leaves are all of the history. -/
theorem estimatedBytes_nextSegment (history : List HistoryItem) :
    estimatedBytes history -
      estimatedBytes (history.take (history.length - (nextSegment history).length)) =
        estimatedBytes (nextSegment history) := by
  obtain ⟨dropped, hhistory⟩ := nextSegment_suffix history
  generalize nextSegment history = rest at hhistory
  rw [← hhistory, List.length_append, Nat.add_sub_cancel, List.take_left, estimatedBytes_append,
    Nat.add_sub_cancel_left]

/-- The total is always the size of what is left. -/
theorem truncateTotals_eq (maxBytes fuel : Nat) (history : List HistoryItem) :
    ∀ state ∈ truncateTotals maxBytes fuel (estimatedBytes history) history,
      state.1 = estimatedBytes state.2 := by
  induction fuel generalizing history with
  | zero =>
    intro state hstate
    rw [List.mem_singleton.mp hstate]
  | succ fuel ih =>
    intro state hstate
    rw [truncateTotals] at hstate
    split at hstate
    · rw [List.mem_singleton.mp hstate]
    · cases hnext : nextSegment history with
      | nil =>
        rw [hnext] at hstate
        rw [List.mem_singleton.mp hstate]
      | cons item rest =>
        have hbytes := estimatedBytes_nextSegment history
        rw [hnext] at hstate hbytes
        dsimp only at hstate
        rw [hbytes] at hstate
        rcases List.mem_cons.mp hstate with rfl | hstate
        · rfl
        · exact ih _ state hstate

theorem length_nextSegment_lt (hne : nextSegment history ≠ []) :
    (nextSegment history).length < history.length := by
  cases history with
  | nil => exact absurd rfl hne
  | cons item history =>
    have hsuffix := List.dropWhile_suffix (l := history) fun item => !item.isUser
    rw [nextSegment, List.tail_cons, List.length_cons]
    exact Nat.lt_succ_of_le hsuffix.length_le

/-- A next segment starts with a user message. -/
theorem nextSegment_cons (h : nextSegment history = item :: rest) : ∃ text, item = .user text := by
  have hhead := List.head?_dropWhile_not (fun item : HistoryItem => !item.isUser) history.tail
  rw [nextSegment] at h
  rw [h] at hhead
  cases item with
  | user text => exact ⟨text, rfl⟩
  | assistant => cases hhead
  | toolResult => cases hhead

/-- A cut of a history that leaves something out is a cut of its next segment. -/
theorem Cuts.next (h : Cuts history cut) (hne : cut ≠ history) :
    Cuts (nextSegment history) cut ∧ ∃ text more, cut = .user text :: more := by
  obtain ⟨text, more, rfl⟩ := h.aligned.resolve_left hne
  refine ⟨⟨?_, .inr ⟨text, more, rfl⟩⟩, text, more, rfl⟩
  obtain ⟨before, rfl⟩ := h.suffix
  cases before with
  | nil => exact absurd rfl hne
  | cons item before =>
    rw [nextSegment, List.cons_append, List.tail_cons, List.dropWhile_append]
    split
    · rw [List.dropWhile_cons_of_neg (by simp [HistoryItem.isUser])]
    · exact List.suffix_append _ _

/-- A cut of the next segment is one of the history. -/
theorem Cuts.of_next (h : Cuts (nextSegment history) cut) (hne : nextSegment history ≠ []) :
    Cuts history cut := by
  refine ⟨h.suffix.trans (nextSegment_suffix history), .inr ?_⟩
  rcases h.aligned with rfl | halign
  · cases hnext : nextSegment history with
    | nil => exact absurd hnext hne
    | cons item rest =>
      obtain ⟨text, rfl⟩ := nextSegment_cons hnext
      exact ⟨text, rest, rfl⟩
  · exact halign

namespace CutsLeast

theorem whole (h : estimatedBytes history ≤ maxBytes) : CutsLeast maxBytes history history where
  cuts := .refl history
  fits _ := h
  longest _ hcut _ := hcut.suffix
  shortest hlarge := absurd h (Nat.not_le.mpr (hlarge history (.refl history)))

/-- A history of one segment has no other cut. -/
theorem last (hnext : nextSegment history = []) :
    CutsLeast maxBytes history history := by
  have honly : ∀ cut, Cuts history cut → cut = history := by
    intro cut hcut
    by_contra hne
    obtain ⟨hcut, text, more, rfl⟩ := hcut.next hne
    rw [hnext] at hcut
    exact List.cons_ne_nil _ _ (List.suffix_nil.mp hcut.suffix)
  refine ⟨.refl history, ?_, ?_, ?_⟩
  · rintro ⟨cut, hcut, hfits⟩
    rw [honly cut hcut] at hfits
    exact hfits
  · intro cut hcut _
    exact hcut.suffix
  · intro _
    refine .inr ⟨?_, rfl⟩
    intro item hitem
    have hskipped := List.dropWhile_eq_nil_iff.mp hnext item hitem
    rwa [Bool.not_eq_true'] at hskipped

/-- What is dropped is in no cut that fits, and is not in the shortest one. -/
theorem next (hlarge : maxBytes < estimatedBytes history) (hne : nextSegment history ≠ [])
    (h : CutsLeast maxBytes (nextSegment history) rest) : CutsLeast maxBytes history rest := by
  have hfitting : ∀ cut, Cuts history cut → estimatedBytes cut ≤ maxBytes →
      Cuts (nextSegment history) cut := by
    intro cut hcut hfits
    apply (hcut.next ?_).1
    rintro rfl
    exact Nat.not_le.mpr hlarge hfits
  refine ⟨h.cuts.of_next hne, ?_, ?_, ?_⟩
  · rintro ⟨cut, hcut, hfits⟩
    exact h.fits ⟨cut, hfitting cut hcut hfits, hfits⟩
  · intro cut hcut hfits
    exact h.longest cut (hfitting cut hcut hfits) hfits
  · intro hnone
    have hlast := h.shortest fun cut hcut => hnone cut (hcut.of_next hne)
    obtain ⟨dropped, hhistory⟩ := nextSegment_suffix history
    have hdropped : dropped ≠ [] := by
      rintro rfl
      have hshorter := length_nextSegment_lt hne
      rw [List.nil_append] at hhistory
      rw [hhistory] at hshorter
      exact lt_irrefl _ hshorter
    rcases hlast with ⟨before, text, more, _, hbefore, hmore, rfl⟩ | ⟨hmore, rfl⟩
    · refine .inl ⟨dropped ++ before, text, more, ?_, ?_, hmore, rfl⟩
      · exact fun hnil => hdropped (List.append_eq_nil_iff.mp hnil).1
      · rw [← hhistory, hbefore, List.append_assoc]
    · cases hrest : nextSegment history with
      | nil => exact absurd hrest hne
      | cons item rest =>
        obtain ⟨text, rfl⟩ := nextSegment_cons hrest
        rw [hrest] at hmore hhistory
        exact .inl ⟨dropped, text, rest, hdropped, hhistory.symm, hmore, rfl⟩

end CutsLeast

theorem truncateLoop_least {fuel : Nat} (hfuel : history.length ≤ fuel) :
    CutsLeast maxBytes history (truncateLoop maxBytes fuel (estimatedBytes history) history) := by
  induction fuel generalizing history with
  | zero =>
    rw [List.length_eq_zero_iff.mp (Nat.le_zero.mp hfuel)]
    exact .whole (Nat.zero_le _)
  | succ fuel ih =>
    rw [truncateLoop]
    split
    · rename_i hsmall
      exact .whole hsmall
    · rename_i hlarge
      have hlarge := Nat.not_le.mp hlarge
      cases hnext : nextSegment history with
      | nil => exact .last hnext
      | cons item rest =>
        have hbytes := estimatedBytes_nextSegment history
        rw [hnext] at hbytes
        dsimp only
        rw [hbytes]
        have hne : nextSegment history ≠ [] := by
          rw [hnext]
          exact List.cons_ne_nil _ _
        have hshorter := length_nextSegment_lt hne
        rw [hnext] at hshorter
        apply CutsLeast.next hlarge hne
        rw [hnext]
        exact ih (by omega)

/-- As little as possible is dropped, and the total that says when to stop is right all along. -/
theorem truncateHistory_least (maxBytes : Nat) (history : List HistoryItem) :
    CutsLeast maxBytes history (truncateHistory maxBytes history) ∧
    (∀ state ∈ truncateTotals maxBytes history.length (estimatedBytes history) history,
      state.1 = estimatedBytes state.2) ∧
    ((truncateTotals maxBytes history.length (estimatedBytes history) history).getLast?).map
      Prod.snd = some (truncateHistory maxBytes history) :=
  ⟨truncateLoop_least le_rfl, truncateTotals_eq _ _ _, getLast?_truncateTotals _ _ _ _⟩

end Buzz.Agent
