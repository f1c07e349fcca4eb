import Buzz.Agent.HandoffPrompt
import Buzz.Agent.TurnRun

namespace Buzz.Agent
set_option autoImplicit true

/-- The snippets are those of the newest part of a history, the oldest of them perhaps cut, and the
others are counted. -/
def TakesNewest (history : List HistoryItem) (s : Snippets) : Prop :=
  ∃ older recent, history = older ++ recent ∧ s.dropped = older.length ∧
    (s.snippets.reverse = recent.map historySnippet ∨
      ∃ item rest maxBytes, recent = item :: rest ∧
        s.snippets.reverse = clampBytes (historySnippet item) maxBytes :: rest.map historySnippet)

/-- The snippets, the newest first, all fit. Or the newest of them fit together with the note on the
others, and none of the others would fit beside them. -/
def FitsBudget (budget : Nat) (snippets : List String) : Prop :=
  totalSize String.utf8ByteSize snippets ≤ budget ∨
  ∃ kept older, snippets = kept ++ older ∧ kept ≠ [] ∧ older ≠ [] ∧
    totalSize String.utf8ByteSize kept + (omittedNote older.length).utf8ByteSize ≤ budget ∧
    ∀ snippet ∈ older, budget < totalSize String.utf8ByteSize kept + snippet.utf8ByteSize

variable {budget : Nat} {history : List HistoryItem} {items kept older : List String}

theorem utf8ByteSize_join (snippets : List String) :
    (String.join snippets).utf8ByteSize = totalSize String.utf8ByteSize snippets := by
  induction snippets with
  | nil => rfl
  | cons s snippets ih =>
    rw [totalSize_cons, ← ih, String.join_cons, String.utf8ByteSize_append]

theorem promptText_size (head : String) (s : Snippets) :
    (promptText head s).utf8ByteSize = fixedBytes head +
      (if 0 < s.dropped then (omittedNote s.dropped).utf8ByteSize else 0) +
      totalSize String.utf8ByteSize s.snippets := by
  have hreverse : totalSize String.utf8ByteSize s.snippets.reverse =
      totalSize String.utf8ByteSize s.snippets := by
    rw [totalSize, List.map_reverse, List.sum_reverse]
    rfl
  have hnote : (if 0 < s.dropped then omittedNote s.dropped else "").utf8ByteSize =
      if 0 < s.dropped then (omittedNote s.dropped).utf8ByteSize else 0 := by
    split
    · rfl
    · rfl
  rw [promptText, String.utf8ByteSize_append, String.utf8ByteSize_append,
    String.utf8ByteSize_append, String.utf8ByteSize_append, utf8ByteSize_join, hreverse, hnote,
    fixedBytes]
  omega

/-- Once there is a snippet, the others are taken or left out. -/
theorem foldl_pushSnippet (items : List String) {s : Snippets} (hne : s.snippets ≠ []) :
    items.foldl (pushSnippet budget) s =
      ⟨s.snippets ++ fill String.utf8ByteSize budget s.bytes items,
        s.bytes + totalSize String.utf8ByteSize (fill String.utf8ByteSize budget s.bytes items),
        s.dropped + (items.length - (fill String.utf8ByteSize budget s.bytes items).length)⟩ := by
  induction items generalizing s with
  | nil =>
    rw [fill, List.append_nil]
    rfl
  | cons item items ih =>
    have hlength : (fill String.utf8ByteSize budget s.bytes items).length ≤ items.length :=
      length_fill_le
    rw [List.foldl_cons, pushSnippet, fill]
    by_cases hfits : s.bytes + item.utf8ByteSize ≤ budget
    · rw [if_neg (Nat.not_lt.mpr hfits), if_pos hfits, ih (by simp)]
      rw [List.append_assoc, List.singleton_append, totalSize_cons, List.length_cons,
        List.length_cons, Nat.add_sub_add_right, Nat.add_assoc]
    · have hempty : s.snippets.isEmpty = false := by
        rw [List.isEmpty_eq_false_iff]
        exact hne
      have hnext := ih (s := { s with dropped := s.dropped + 1 }) hne
      rw [if_pos (Nat.not_le.mp hfits), if_neg hfits, hempty, if_neg Bool.false_ne_true, hnext,
        List.length_cons]
      congr 1
      dsimp only
      omega

/-- The newest snippet is taken whole, and of the others those that still fit. -/
theorem takes_fill (hitems : history.reverse.map historySnippet = items)
    (hfirst : ∀ item ∈ items.head?, item.utf8ByteSize ≤ budget) :
    (historySnippets budget history).snippets = fill String.utf8ByteSize budget 0 items ∧
    (historySnippets budget history).dropped =
      items.length - (fill String.utf8ByteSize budget 0 items).length := by
  rw [historySnippets, hitems]
  cases items with
  | nil => exact ⟨rfl, rfl⟩
  | cons item items =>
    have hfits : 0 + item.utf8ByteSize ≤ budget := by
      rw [Nat.zero_add]
      exact hfirst item rfl
    rw [List.foldl_cons, pushSnippet, if_neg (Nat.not_lt.mpr hfits), foldl_pushSnippet, fill,
      if_pos hfits]
    · constructor
      · rfl
      · dsimp only
        rw [List.length_cons, List.length_cons, Nat.add_sub_add_right, Nat.zero_add]
    · exact List.cons_ne_nil _ _

theorem historySnippet_pos (item : HistoryItem) : 4 ≤ (historySnippet item).utf8ByteSize := by
  cases item with
  | user s =>
    rw [historySnippet, String.utf8ByteSize_append, String.utf8ByteSize_append]
    have hlabel : "[user] ".utf8ByteSize = 7 := by decide
    omega
  | assistant text toolCalls details =>
    rw [historySnippet, String.utf8ByteSize_append, String.utf8ByteSize_append,
      String.utf8ByteSize_append]
    have hlabel : "[assistant] ".utf8ByteSize = 12 := by decide
    omega
  | toolResult r =>
    rw [historySnippet, String.utf8ByteSize_append, String.utf8ByteSize_append]
    have hlabel : 7 ≤ (if r.isError then "[tool_err] " else "[tool] ").utf8ByteSize := by
      split
      · decide
      · decide
    omega

theorem getLast?_historySnippet (item : HistoryItem) :
    (historySnippet item).toList.getLast? = some '\n' := by
  have hline : ∀ s : String, (s ++ "\n").toList.getLast? = some '\n' := by
    intro s
    rw [String.toList_append]
    exact List.getLast?_concat
  cases item with
  | user | assistant | toolResult => exact hline _

theorem textSize_takeBytes (maxBytes : Nat) (cs : List Char) :
    textSize (takeBytes maxBytes cs) ≤ maxBytes := by
  induction cs generalizing maxBytes with
  | nil => exact Nat.zero_le _
  | cons c cs ih =>
    rw [takeBytes]
    split
    · rename_i hfits
      have hrest := ih (maxBytes - c.utf8Size)
      rw [textSize_cons]
      omega
    · exact Nat.zero_le _

/-- A text that is cut is short, or ends in a mark. -/
theorem clampBytes_ne_historySnippet {s : String} {maxBytes : Nat} (hcut : clampBytes s maxBytes ≠ s)
    (item : HistoryItem) : clampBytes s maxBytes ≠ historySnippet item := by
  intro heq
  have hpos := historySnippet_pos item
  have hline := getLast?_historySnippet item
  rw [← heq] at hpos hline
  rw [clampBytes] at hcut hpos hline
  split at hcut
  · exact hcut rfl
  · rename_i hlarge
    rw [if_neg hlarge] at hpos hline
    split at hpos
    · have hsize := textSize_takeBytes maxBytes s.toList
      rw [utf8ByteSize_ofList] at hpos
      omega
    · rename_i hlong
      have hmark : "…".toList.getLast? = some '…' := by decide
      rw [if_neg hlong, String.toList_append, List.getLast?_append, hmark, Option.some_or] at hline
      exact absurd (Option.some.inj hline) (by decide)

/-- A newest snippet that is too large is cut, and nothing else is taken. -/
theorem takes_clamped {item : String} {items : List String}
    (hitems : history.reverse.map historySnippet = item :: items)
    (hlarge : budget < item.utf8ByteSize) :
    (historySnippets budget history).snippets = [clampBytes item budget] ∧
    (historySnippets budget history).dropped = items.length + 1 := by
  have hnone : fill String.utf8ByteSize budget budget items = [] := by
    rw [fill_eq_nil_iff]
    intro snippet hsnippet
    have hmem : snippet ∈ history.reverse.map historySnippet := by
      rw [hitems]
      exact List.mem_cons_of_mem _ hsnippet
    obtain ⟨old, _, rfl⟩ := List.mem_map.mp hmem
    have hpos := historySnippet_pos old
    omega
  rw [historySnippets, hitems, List.foldl_cons, pushSnippet,
    if_pos (by rw [Nat.zero_add]; exact hlarge), if_pos List.isEmpty_nil, foldl_pushSnippet, hnone]
  · refine ⟨rfl, ?_⟩
    dsimp only
    rw [List.length_nil, Nat.sub_zero, Nat.zero_add, Nat.add_comm]
  · exact List.cons_ne_nil _ _

/-- Where the newest part that fits is all that is taken, and there is room for the note, the budget
is kept. -/
theorem within_of_fits {explicit : Nat} {head : String}
    (h : FitsBudget (explicit - fixedBytes head) (history.reverse.map historySnippet)) :
    (promptText head (historySnippets (explicit - fixedBytes head) history)).utf8ByteSize ≤
        max explicit (fixedBytes head) ∧
      TakesNewest history (historySnippets (explicit - fixedBytes head) history) := by
  generalize hbudget : explicit - fixedBytes head = budget at h
  have hsplit : ∃ kept older, history.reverse.map historySnippet = kept ++ older ∧
      (older = [] ∨ kept ≠ [] ∧ older ≠ []) ∧
      totalSize String.utf8ByteSize kept +
        (if 0 < older.length then (omittedNote older.length).utf8ByteSize else 0) ≤ budget ∧
      ∀ snippet ∈ older, budget < totalSize String.utf8ByteSize kept + snippet.utf8ByteSize := by
    rcases h with h | ⟨kept, older, hitems, hkept, holder, hnote, hnone⟩
    · exact ⟨_, [], (List.append_nil _).symm, .inl rfl, h, nofun⟩
    · refine ⟨kept, older, hitems, .inr ⟨hkept, holder⟩, ?_, hnone⟩
      rw [if_pos (List.length_pos_iff.mpr holder)]
      exact hnote
  obtain ⟨kept, older, hitems, hsome, hnote, hnone⟩ := hsplit
  have hkept : 0 + totalSize String.utf8ByteSize kept ≤ budget := by omega
  have hfill : fill String.utf8ByteSize budget 0 (kept ++ older) = kept := by
    rw [fill_append hkept, fill_eq_nil_iff.mpr, List.append_nil]
    rw [Nat.zero_add]
    exact hnone
  have hfirst : ∀ item ∈ (kept ++ older).head?, item.utf8ByteSize ≤ budget := by
    cases kept with
    | nil =>
      rcases hsome with rfl | ⟨hne, _⟩
      · exact nofun
      · exact absurd rfl hne
    | cons first kept =>
      intro item hitem
      cases hitem
      rw [totalSize_cons] at hkept
      omega
  obtain ⟨hsnippets, hdropped⟩ := takes_fill hitems hfirst
  rw [hfill] at hsnippets hdropped
  rw [List.length_append, Nat.add_sub_cancel_left] at hdropped
  constructor
  · rw [promptText_size, hsnippets, hdropped]
    omega
  · obtain ⟨recent, past, hhistory, hrecent, hpast⟩ := List.map_eq_append_iff.mp hitems
    refine ⟨past.reverse, recent.reverse, ?_, ?_, .inl ?_⟩
    · rw [← List.reverse_append, ← hhistory, List.reverse_reverse]
    · rw [hdropped, ← hpast, List.length_map, List.length_reverse]
    · rw [hsnippets, List.map_reverse, hrecent]

/-- The counting of a snippet that is cut, as if it was left out, is off by one. -/
theorem not_takesNewest_of_clamped {item : String} {items : List String}
    (hitems : history.reverse.map historySnippet = item :: items)
    (hlarge : budget < item.utf8ByteSize) :
    ¬ TakesNewest history (historySnippets budget history) := by
  rintro ⟨older, recent, hhistory, hcount, htaken⟩
  obtain ⟨hsnippets, hdropped⟩ := takes_clamped hitems hlarge
  have hlength := congrArg List.length hitems
  rw [List.length_map, List.length_reverse, hhistory, List.length_append, List.length_cons] at hlength
  have hrecent : recent = [] := by
    rw [← List.length_eq_zero_iff]
    omega
  rw [hsnippets, hrecent] at htaken
  rcases htaken with htaken | ⟨_, _, _, hcons, _⟩
  · cases htaken
  · cases hcons

/-- Nothing older than a snippet that is left out is among the newest part. -/
theorem fill_eq_nil_of_takesNewest {kept older : List String} {first : String}
    (hitems : history.reverse.map historySnippet = kept ++ first :: older) (hne : kept ≠ [])
    (hkept : totalSize String.utf8ByteSize kept ≤ budget)
    (hlarge : budget < totalSize String.utf8ByteSize kept + first.utf8ByteSize)
    (h : TakesNewest history (historySnippets budget history)) :
    fill String.utf8ByteSize budget (totalSize String.utf8ByteSize kept) (first :: older) = [] := by
  have hfirst : ∀ item ∈ (kept ++ first :: older).head?, item.utf8ByteSize ≤ budget := by
    cases kept with
    | nil => exact absurd rfl hne
    | cons item kept =>
      intro item hitem
      cases hitem
      rw [totalSize_cons] at hkept
      omega
  obtain ⟨hsnippets, hdropped⟩ := takes_fill hitems hfirst
  have hfill : fill String.utf8ByteSize budget 0 (kept ++ first :: older) = kept ++
      fill String.utf8ByteSize budget (0 + totalSize String.utf8ByteSize kept) (first :: older) :=
    fill_append (by rwa [Nat.zero_add]) _
  rw [Nat.zero_add] at hfill
  rw [hfill] at hsnippets hdropped
  have hfirstOut : first ∉ fill String.utf8ByteSize budget (totalSize String.utf8ByteSize kept)
      (first :: older) := by
    intro hmem
    exact absurd (fits_of_mem_fill hmem) (Nat.not_le.mpr hlarge)
  have hfits : ∀ z ∈ fill String.utf8ByteSize budget (totalSize String.utf8ByteSize kept)
      (first :: older), z ∈ first :: older ∧
        totalSize String.utf8ByteSize kept + z.utf8ByteSize ≤ budget :=
    fun z hz => ⟨mem_of_mem_fill hz, fits_of_mem_fill hz⟩
  have hmoreLength : (fill String.utf8ByteSize budget (totalSize String.utf8ByteSize kept)
      (first :: older)).length ≤ (first :: older).length := length_fill_le
  generalize fill String.utf8ByteSize budget (totalSize String.utf8ByteSize kept) (first :: older) =
    more at hsnippets hdropped hfirstOut hfits hmoreLength ⊢
  obtain ⟨past, recent, hhistory, hcount, htaken⟩ := h
  -- the newest part, the newest snippet first
  have hnewest : (recent.map historySnippet).reverse = kept ++ (first :: older).take more.length := by
    have hall : (recent.map historySnippet).reverse ++ (past.map historySnippet).reverse =
        kept ++ first :: older := by
      rw [← hitems, hhistory, List.reverse_append, List.map_append, List.map_reverse,
        List.map_reverse]
    have hlength := congrArg List.length hall
    rw [List.length_append, List.length_append, List.length_reverse, List.length_reverse,
      List.length_map, List.length_map] at hlength
    rw [List.length_append, List.length_append] at hdropped
    have htake : (recent.map historySnippet).reverse.length = kept.length + more.length := by
      rw [List.length_reverse, List.length_map]
      omega
    have hprefix := congrArg (List.take (kept.length + more.length)) hall
    rwa [← htake, List.take_left, htake, List.take_length_add_append] at hprefix
  by_contra hmore
  rcases htaken with htaken | ⟨item, rest, maxBytes, rfl, htaken⟩
  · rw [List.reverse_eq_iff] at htaken
    rw [← htaken, hsnippets] at hnewest
    have hequal := List.append_cancel_left hnewest
    apply hfirstOut
    rw [hequal]
    cases more with
    | nil => exact absurd rfl hmore
    | cons => exact List.mem_cons_self
  · rw [List.reverse_eq_iff, hsnippets, List.reverse_cons] at htaken
    rw [List.map_cons, List.reverse_cons] at hnewest
    obtain ⟨before, last, rfl⟩ := (List.eq_nil_or_concat more).resolve_left hmore
    rw [List.concat_eq_append] at *
    rw [← List.append_assoc] at htaken
    obtain ⟨hrest, hlast⟩ := List.append_inj' htaken rfl
    rw [← hrest, List.append_assoc] at hnewest
    have htake := List.append_cancel_left hnewest
    rw [List.length_append, List.length_singleton, List.take_succ_cons] at htake
    cases before with
    | cons first' before =>
      rw [List.cons_append] at htake
      obtain ⟨rfl, _⟩ := List.cons.inj htake
      exact hfirstOut List.mem_cons_self
    | nil =>
      obtain ⟨hitem, _⟩ := List.cons.inj htake
      obtain ⟨hclamped, _⟩ := List.cons.inj hlast
      have hcut : clampBytes (historySnippet item) maxBytes ≠ historySnippet item := by
        intro hwhole
        apply hfirstOut
        rw [List.nil_append, List.mem_singleton, hclamped, hwhole, hitem]
      have hsnippet : last ∈ history.reverse.map historySnippet := by
        rw [hitems]
        exact List.mem_append_right _ (hfits last List.mem_cons_self).1
      obtain ⟨old, _, hold⟩ := List.mem_map.mp hsnippet
      exact clampBytes_ne_historySnippet hcut old (hclamped.symm.trans hold.symm)

/-- What is taken is the newest part only where nothing older than a snippet that is left out is
taken. -/
theorem fits_of_within {explicit : Nat} {head : String}
    (hsize : (promptText head (historySnippets (explicit - fixedBytes head) history)).utf8ByteSize ≤
      max explicit (fixedBytes head))
    (hnewest : TakesNewest history (historySnippets (explicit - fixedBytes head) history)) :
    FitsBudget (explicit - fixedBytes head) (history.reverse.map historySnippet) := by
  generalize hbudget : explicit - fixedBytes head = budget at hsize hnewest
  obtain ⟨kept, rest, hitems, hkept, hnext⟩ : ∃ kept rest,
      history.reverse.map historySnippet = kept ++ rest ∧
      0 + totalSize String.utf8ByteSize kept ≤ budget ∧
      ∀ a ∈ rest.head?, budget < 0 + totalSize String.utf8ByteSize kept + a.utf8ByteSize :=
    exists_kept (Nat.zero_le budget) _
  rw [Nat.zero_add] at hkept hnext
  cases rest with
  | nil =>
    rw [hitems, List.append_nil]
    exact .inl hkept
  | cons first older =>
    have hlarge := hnext first rfl
    cases kept with
    | nil =>
      rw [totalSize_nil, Nat.zero_add] at hlarge
      exact absurd hnewest (not_takesNewest_of_clamped hitems hlarge)
    | cons newest kept =>
      have hnone := fill_eq_nil_of_takesNewest hitems (List.cons_ne_nil _ _) hkept hlarge hnewest
      have hfirst : ∀ item ∈ (newest :: kept ++ first :: older).head?,
          item.utf8ByteSize ≤ budget := by
        intro item hitem
        cases hitem
        rw [totalSize_cons] at hkept
        omega
      have hfill : fill String.utf8ByteSize budget 0 (newest :: kept ++ first :: older) =
          newest :: kept ++ fill String.utf8ByteSize budget
            (0 + totalSize String.utf8ByteSize (newest :: kept)) (first :: older) :=
        fill_append (by rwa [Nat.zero_add]) _
      rw [Nat.zero_add, hnone, List.append_nil] at hfill
      obtain ⟨hsnippets, hdropped⟩ := takes_fill hitems hfirst
      rw [hfill] at hsnippets hdropped
      rw [List.length_append, Nat.add_sub_cancel_left] at hdropped
      rw [promptText_size, hsnippets, hdropped, 
        if_pos (List.length_pos_iff.mpr (List.cons_ne_nil _ _))] at hsize
      refine .inr ⟨newest :: kept, first :: older, hitems, List.cons_ne_nil _ _,
        List.cons_ne_nil _ _, ?_, fill_eq_nil_iff.mp hnone⟩
      omega

/-- A handoff prompt keeps to the budget that it is given, and what it tells of the history is the
newest part with the right count of the rest. -/
structure PromptWithin (cfg : Config) (provider : Provider) (tools : List String) (explicit : Nat)
    (t : Turn) : Prop where
  size : (buildHandoffPrompt cfg provider tools (some explicit) t).utf8ByteSize ≤
    max explicit (fixedBytes (handoffHead t.handoffCount t.originalTask tools))
  newest : TakesNewest t.history (historySnippets
    (explicit - fixedBytes (handoffHead t.handoffCount t.originalTask tools)) t.history)

/-- That is so just when the history fits, or can be cut where the note on the rest fits too. -/
theorem promptWithin_iff (cfg : Config) (provider : Provider) (tools : List String)
    (explicit : Nat) (t : Turn) :
    PromptWithin cfg provider tools explicit t ↔
      FitsBudget (explicit - fixedBytes (handoffHead t.handoffCount t.originalTask tools))
        (t.history.reverse.map historySnippet) := by
  constructor
  · rintro ⟨hsize, hnewest⟩
    exact fits_of_within hsize hnewest
  · intro hfits
    obtain ⟨hsize, hnewest⟩ := within_of_fits hfits
    exact ⟨hsize, hnewest⟩

theorem not_fitsBudget_singleton {snippet : String} (hlarge : budget < snippet.utf8ByteSize) :
    ¬ FitsBudget budget [snippet] := by
  rintro (hall | ⟨kept, older, hsplit, hkept, holder, _⟩)
  · rw [totalSize_cons, totalSize_nil] at hall
    omega
  · have hlength := congrArg List.length hsplit
    have hkeptLength := List.length_pos_iff.mpr hkept
    have holderLength := List.length_pos_iff.mpr holder
    rw [List.length_append, List.length_singleton] at hlength
    omega

def longText : String :=
  String.ofList (List.replicate 8192 'x')

theorem longText_size : longText.utf8ByteSize = 8192 := by
  have hascii : ∀ c ∈ List.replicate 8192 'x', c.utf8Size = 1 := by
    intro c hc
    rw [List.eq_of_mem_replicate hc]
    decide
  have hlength := (textSize_of_ascii _ hascii).trans List.length_replicate
  exact (utf8ByteSize_ofList _).trans hlength

def longTurn : Turn :=
  { Session.new.turn smallConfig with history := [.user longText] }

theorem not_promptWithin_of_long {text : String} (hlong : 8192 ≤ text.utf8ByteSize) (t : Turn) :
    ¬ PromptWithin smallConfig .anthropic [] 4096 { t with history := [.user text] } := by
  rintro ⟨hsize, hnewest⟩
  apply not_fitsBudget_singleton _ (fits_of_within hsize hnewest)
  rw [historySnippet, String.utf8ByteSize_append, String.utf8ByteSize_append]
  omega

/-- A message of 8192 bytes is cut to the 4096 bytes of the first rung, and the note comes on top. -/
theorem promptWithin_fails : ¬ PromptWithin smallConfig .anthropic [] 4096 longTurn :=
  not_promptWithin_of_long longText_size.ge _

end Buzz.Agent
