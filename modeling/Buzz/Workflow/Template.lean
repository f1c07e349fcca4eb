import Buzz.Workflow.Executor

namespace Buzz.Workflow
set_option autoImplicit true
open Json

inductive TemplatePiece where
  | literal (cs : List Char)
  | placeholder (raw : List Char)

/-- A template cut from left to right: a placeholder is an opening, the shortest text up to the next
close, and the close. An opening that is never closed makes the rest literal. -/
inductive Cut : List Char → List TemplatePiece → Prop
  | done (h : ∀ before after, cs ≠ before ++ (OPEN ++ after)) : Cut cs [.literal cs]
  | unclosed (hopen : FirstAt OPEN before rest cs)
      (hclose : ∀ raw after, rest ≠ raw ++ (CLOSE ++ after)) : Cut cs [.literal cs]
  | placeholder {pieces : List TemplatePiece} (hopen : FirstAt OPEN before rest cs)
      (hclose : FirstAt CLOSE raw after rest) (h : Cut after pieces) : Cut cs (.literal before :: .placeholder raw :: pieces)

theorem trim_sublist (cs : List Char) : (trim (String.ofList cs)).toList.Sublist cs := by
  rw [trim, String.toList_ofList, String.toList_ofList]
  exact (List.rdropWhile_prefix _ _).sublist.trans (List.dropWhile_suffix _).sublist

section Loop
variable {value : String → Except String (Option String)} {cs result : List Char}
  {pieces pieces' : List TemplatePiece}

theorem nextPlaceholder_none (h : ∀ before after, cs ≠ before ++ (OPEN ++ after)) :
    nextPlaceholder cs = .none := by
  rw [nextPlaceholder, cutAt_eq_none_iff.mpr h]

theorem nextPlaceholder_unclosed (hopen : FirstAt OPEN before rest cs)
    (hclose : ∀ raw after, rest ≠ raw ++ (CLOSE ++ after)) :
    nextPlaceholder cs = .unclosed before rest := by
  rw [nextPlaceholder, cutAt_eq_some_iff.mpr hopen]
  dsimp only
  rw [cutAt_eq_none_iff.mpr hclose]

theorem nextPlaceholder_some (hopen : FirstAt OPEN before rest cs)
    (hclose : FirstAt CLOSE raw after rest) : nextPlaceholder cs = .some before raw after := by
  rw [nextPlaceholder, cutAt_eq_some_iff.mpr hopen]
  dsimp only
  rw [cutAt_eq_some_iff.mpr hclose]

/-- Every template has a cut. -/
theorem exists_cut (cs : List Char) : ∃ pieces, Cut cs pieces := by
  induction hlength : cs.length using Nat.strong_induction_on generalizing cs with
  | _ n ih =>
    subst hlength
    cases hopen : cutAt OPEN cs with
    | none => exact ⟨_, .done (cutAt_eq_none_iff.mp hopen)⟩
    | some r =>
      obtain ⟨before, rest⟩ := r
      have hfirst := cutAt_eq_some_iff.mp hopen
      cases hclose : cutAt CLOSE rest with
      | none => exact ⟨_, .unclosed hfirst (cutAt_eq_none_iff.mp hclose)⟩
      | some r =>
        obtain ⟨raw, after⟩ := r
        have hnext := nextPlaceholder_some hfirst (cutAt_eq_some_iff.mp hclose)
        obtain ⟨pieces, hpieces⟩ := ih after.length (length_nextPlaceholder hnext) after rfl
        exact ⟨_, .placeholder hfirst (cutAt_eq_some_iff.mp hclose) hpieces⟩

theorem Cut.unique (h : Cut cs pieces) (h' : Cut cs pieces') : pieces = pieces' := by
  induction h generalizing pieces' with
  | done hnone =>
    cases h' with
    | done => rfl
    | unclosed => rfl
    | placeholder hopen => exact absurd hopen.eq (hnone _ _)
  | unclosed hopen hclose =>
    cases h' with
    | done => rfl
    | unclosed => rfl
    | placeholder hopen' hclose' =>
      obtain ⟨rfl, rfl⟩ := hopen.unique hopen'
      exact absurd hclose'.eq (hclose _ _)
  | placeholder hopen hclose _ ih =>
    cases h' with
    | done hnone => exact absurd hopen.eq (hnone _ _)
    | unclosed hopen' hnone =>
      obtain ⟨rfl, rfl⟩ := hopen.unique hopen'
      exact absurd hclose.eq (hnone _ _)
    | placeholder hopen' hclose' h' =>
      obtain ⟨rfl, rfl⟩ := hopen.unique hopen'
      obtain ⟨rfl, rfl⟩ := hclose.unique hclose'
      rw [ih h']

/-- What the loop writes for a piece. -/
def TemplatePiece.written (value : String → Except String (Option String)) :
    TemplatePiece → List Char
  | .literal cs => cs
  | .placeholder raw =>
    match value (trim (String.ofList raw)) with
    | .ok (some v) => v.toList
    | _ => OPEN ++ (trim (String.ofList raw)).toList ++ CLOSE

/-- What a piece stands for: a placeholder without a value stands for itself. -/
def TemplatePiece.meant (value : String → Except String (Option String)) :
    TemplatePiece → List Char
  | .literal cs => cs
  | .placeholder raw =>
    match value (trim (String.ofList raw)) with
    | .ok (some v) => v.toList
    | _ => OPEN ++ raw ++ CLOSE

/-- Some placeholder of the cut has a value but no filtered value. -/
def Fails (value : String → Except String (Option String)) (pieces : List TemplatePiece)
    (e : String) : Prop :=
  ∃ raw, .placeholder raw ∈ pieces ∧ value (trim (String.ofList raw)) = .error e

theorem fails_cons : Fails value (.literal before :: .placeholder raw :: pieces) e ↔
    value (trim (String.ofList raw)) = .error e ∨ Fails value pieces e := by
  constructor
  · rintro ⟨other, hmem, herror⟩
    simp only [List.mem_cons, reduceCtorEq, TemplatePiece.placeholder.injEq, false_or] at hmem
    rcases hmem with rfl | hmem
    · exact .inl herror
    · exact .inr ⟨other, hmem, herror⟩
  · rintro (herror | ⟨other, hmem, herror⟩)
    · exact ⟨raw, List.mem_cons_of_mem _ List.mem_cons_self, herror⟩
    · exact ⟨other, List.mem_cons_of_mem _ (List.mem_cons_of_mem _ hmem), herror⟩

/-- The loop writes the pieces one after another, or ends with the error of one of them. -/
theorem resolveLoop_spec (h : Cut cs pieces) (result : List Char) :
    ((∀ e, ¬ Fails value pieces e) ∧
      resolveLoop value cs result = .ok (result ++ pieces.flatMap (·.written value))) ∨
    ∃ e, Fails value pieces e ∧ resolveLoop value cs result = .error e := by
  induction h generalizing result with
  | @done cs hnone =>
    left
    refine ⟨?_, ?_⟩
    · rintro e ⟨raw, hmem, _⟩
      cases List.mem_singleton.mp hmem
    · rw [resolveLoop.eq_def, nextPlaceholder_none hnone, List.flatMap_singleton]
      rfl
  | @unclosed before rest cs hopen hclose =>
    left
    refine ⟨?_, ?_⟩
    · rintro e ⟨raw, hmem, _⟩
      cases List.mem_singleton.mp hmem
    · rw [resolveLoop.eq_def, nextPlaceholder_unclosed hopen hclose, List.flatMap_singleton]
      dsimp only [TemplatePiece.written]
      rw [hopen.eq]
      simp only [List.append_assoc]
  | @placeholder before rest cs raw after pieces hopen hclose _ ih =>
    rw [resolveLoop.eq_def, nextPlaceholder_some hopen hclose]
    dsimp only
    have hno : (∀ e, value (trim (String.ofList raw)) ≠ .error e) →
        (∀ e, ¬ Fails value pieces e) →
        ∀ e, ¬ Fails value (.literal before :: .placeholder raw :: pieces) e := by
      intro hraw hrest e hfails
      rcases fails_cons.mp hfails with herror | hfails
      · exact hraw e herror
      · exact hrest e hfails
    cases hvalue : value (trim (String.ofList raw)) with
    | error e => exact .inr ⟨e, fails_cons.mpr (.inl hvalue), rfl⟩
    | ok own =>
      rw [hvalue] at hno
      cases own with
      | none =>
        dsimp only
        rcases ih (result ++ before ++ OPEN ++ (trim (String.ofList raw)).toList ++ CLOSE) with
          ⟨hrest, hloop⟩ | ⟨e, hfails, hloop⟩
        · refine .inl ⟨hno nofun hrest, ?_⟩
          rw [hloop, List.flatMap_cons, List.flatMap_cons]
          simp only [TemplatePiece.written, hvalue, List.append_assoc]
        · exact .inr ⟨e, fails_cons.mpr (.inr hfails), hloop⟩
      | some v =>
        dsimp only
        rcases ih (result ++ before ++ v.toList) with ⟨hrest, hloop⟩ | ⟨e, hfails, hloop⟩
        · refine .inl ⟨hno nofun hrest, ?_⟩
          rw [hloop, List.flatMap_cons, List.flatMap_cons]
          simp only [TemplatePiece.written, hvalue, List.append_assoc]
        · exact .inr ⟨e, fails_cons.mpr (.inr hfails), hloop⟩

/-- The placeholders without a value have no white space at their ends. -/
def Untrimmed (value : String → Except String (Option String)) (pieces : List TemplatePiece) :
    Prop :=
  ∀ raw, .placeholder raw ∈ pieces → value (trim (String.ofList raw)) = .ok none →
    (trim (String.ofList raw)).toList = raw

theorem length_written_le (piece : TemplatePiece) :
    (piece.written value).length ≤ (piece.meant value).length := by
  cases piece with
  | literal cs => exact Nat.le_refl _
  | placeholder raw =>
    rw [TemplatePiece.written, TemplatePiece.meant]
    split
    · exact Nat.le_refl _
    · have hle := (trim_sublist raw).length_le
      simp only [List.length_append]
      omega

/-- Parts that are never longer make the same whole only when each is the same. -/
theorem flatMap_eq_iff {f g : TemplatePiece → List Char} (h : ∀ p, (f p).length ≤ (g p).length) :
    pieces.flatMap f = pieces.flatMap g ↔ ∀ p ∈ pieces, f p = g p := by
  constructor
  · intro heq
    induction pieces with
    | nil => exact nofun
    | cons p pieces ih =>
      rw [List.flatMap_cons, List.flatMap_cons] at heq
      have hlength := congrArg List.length heq
      rw [List.length_append, List.length_append] at hlength
      have htail : (pieces.flatMap f).length ≤ (pieces.flatMap g).length := by
        rw [List.length_flatMap, List.length_flatMap]
        exact List.sum_le_sum fun p _ => h p
      have hp := h p
      obtain ⟨hhead, hrest⟩ := List.append_inj heq (by omega)
      exact List.forall_mem_cons.mpr ⟨hhead, ih hrest⟩
  · intro heq
    exact List.flatMap_congr heq

theorem written_eq_meant_iff (hno : ∀ e, ¬ Fails value pieces e) :
    pieces.flatMap (·.written value) = pieces.flatMap (·.meant value) ↔
      Untrimmed value pieces := by
  rw [flatMap_eq_iff length_written_le]
  constructor
  · intro h raw hmem hnone
    have heq := h _ hmem
    simp only [TemplatePiece.written, TemplatePiece.meant, hnone] at heq
    exact List.append_cancel_left (List.append_cancel_right heq)
  · intro h piece hmem
    cases piece with
    | literal cs => rfl
    | placeholder raw =>
      rw [TemplatePiece.written, TemplatePiece.meant]
      cases hvalue : value (trim (String.ofList raw)) with
      | error e => exact absurd ⟨raw, hmem, hvalue⟩ (hno e)
      | ok own =>
        cases own with
        | none =>
          dsimp only
          rw [h raw hmem hvalue]
        | some v => rfl

/-- The pieces of a template that has no value to put in make the template. -/
theorem Cut.meant_eq (h : Cut cs pieces)
    (hnone : ∀ raw, .placeholder raw ∈ pieces → value (trim (String.ofList raw)) = .ok none) :
    pieces.flatMap (·.meant value) = cs := by
  induction h with
  | done => exact List.append_nil _
  | unclosed => exact List.append_nil _
  | @placeholder before rest cs raw after pieces hopen hclose _ ih =>
    have hraw := hnone raw (List.mem_cons_of_mem _ List.mem_cons_self)
    have hrest := ih fun other hmem =>
      hnone other (List.mem_cons_of_mem _ (List.mem_cons_of_mem _ hmem))
    rw [List.flatMap_cons, List.flatMap_cons, hrest, hopen.eq, hclose.eq]
    simp only [TemplatePiece.meant, hraw, List.append_assoc]

end Loop

section Template
variable {F : Type} (keys : KeyFormat) (fmt : FloatFormat F) (ctx : TriggerContext)
  (outputs : StepOutputs F)

/-- The path of a placeholder, and its filter, from all that stands between its braces. -/
def placeholderParts (raw : List Char) : String × Option String :=
  pathAndFilter (trim (String.ofList raw))

/-- The path of the placeholder resolves, but its filter does not take the value. -/
def BadFilter (raw : List Char) : Prop :=
  ∃ v f e, resolveVariable fmt ctx outputs (placeholderParts raw).1 = some v ∧
    (placeholderParts raw).2 = some f ∧ applyFilter keys v f = .error e

/-- What a piece stands for: literal text itself, a placeholder its filtered value or, if its path
does not resolve, itself. -/
def pieceMeaning (piece : TemplatePiece) : List Char :=
  piece.meant (placeholderValue keys fmt ctx outputs)

/-- The output is what the pieces of the template stand for, and only a bad filter fails. -/
def SubstitutesOnce (template : String) : Prop :=
  ∃ pieces, Cut template.toList pieces ∧
    match resolveTemplate keys fmt ctx outputs template with
    | .ok out => out.toList = pieces.flatMap (pieceMeaning keys fmt ctx outputs)
    | .error _ => ∃ raw, .placeholder raw ∈ pieces ∧ BadFilter keys fmt ctx outputs raw

/-- Some filter is bad, or the placeholders whose path does not resolve have no white space at
their ends. -/
def WrittenTight (pieces : List TemplatePiece) : Prop :=
  (∃ raw, .placeholder raw ∈ pieces ∧ BadFilter keys fmt ctx outputs raw) ∨
  ∀ raw, .placeholder raw ∈ pieces →
    resolveVariable fmt ctx outputs (placeholderParts raw).1 = none →
    (trim (String.ofList raw)).toList = raw

variable {keys fmt ctx outputs} {pieces : List TemplatePiece} {template : String}

theorem placeholderValue_error_iff {raw : List Char} :
    (∃ e, placeholderValue keys fmt ctx outputs (trim (String.ofList raw)) = .error e) ↔
      BadFilter keys fmt ctx outputs raw := by
  rw [placeholderValue, BadFilter, placeholderParts]
  generalize pathAndFilter (trim (String.ofList raw)) = parts
  obtain ⟨path, filter⟩ := parts
  dsimp only
  cases resolveVariable fmt ctx outputs path with
  | none =>
    constructor
    · rintro ⟨e, he⟩
      cases he
    · rintro ⟨v, f, e, hv, _⟩
      cases hv
  | some v =>
    cases filter with
    | none =>
      constructor
      · rintro ⟨e, he⟩
        cases he
      · rintro ⟨_, f, e, _, hf, _⟩
        cases hf
    | some f =>
      dsimp only
      cases hfilter : applyFilter keys v f with
      | ok w =>
        constructor
        · rintro ⟨e, he⟩
          cases he
        · rintro ⟨v', f', e, hv, hf, he⟩
          cases hv
          cases hf
          rw [hfilter] at he
          cases he
      | error e =>
        constructor
        · intro _
          exact ⟨v, f, e, rfl, rfl, hfilter⟩
        · intro _
          exact ⟨e, rfl⟩

theorem placeholderValue_none_iff {raw : List Char} :
    placeholderValue keys fmt ctx outputs (trim (String.ofList raw)) = .ok none ↔
      resolveVariable fmt ctx outputs (placeholderParts raw).1 = none := by
  rw [placeholderValue, placeholderParts]
  generalize pathAndFilter (trim (String.ofList raw)) = parts
  obtain ⟨path, filter⟩ := parts
  dsimp only
  cases resolveVariable fmt ctx outputs path with
  | none => exact ⟨fun _ => rfl, fun _ => rfl⟩
  | some v =>
    cases filter with
    | none => exact ⟨nofun, nofun⟩
    | some f =>
      dsimp only
      cases applyFilter keys v f with
      | ok w => exact ⟨nofun, nofun⟩
      | error e => exact ⟨nofun, nofun⟩

theorem exists_fails_iff :
    (∃ e, Fails (placeholderValue keys fmt ctx outputs) pieces e) ↔
      ∃ raw, .placeholder raw ∈ pieces ∧ BadFilter keys fmt ctx outputs raw := by
  constructor
  · rintro ⟨e, raw, hmem, herror⟩
    exact ⟨raw, hmem, placeholderValue_error_iff.mp ⟨e, herror⟩⟩
  · rintro ⟨raw, hmem, hbad⟩
    obtain ⟨e, herror⟩ := placeholderValue_error_iff.mpr hbad
    exact ⟨e, raw, hmem, herror⟩

/-- The early return for templates without placeholders changes nothing. -/
theorem resolveTemplate_eq (template : String) : resolveTemplate keys fmt ctx outputs template =
    (resolveLoop (placeholderValue keys fmt ctx outputs) template.toList []).map String.ofList := by
  rw [resolveTemplate]
  cases hopen : cutAt OPEN template.toList with
  | none =>
    rw [Option.isNone_none, if_pos rfl, resolveLoop.eq_def,
      nextPlaceholder_none (cutAt_eq_none_iff.mp hopen)]
    dsimp only
    rw [List.nil_append]
    exact congrArg Except.ok String.ofList_toList.symm
  | some r => rfl

theorem substitutesOnce_of_cut (h : Cut template.toList pieces) :
    SubstitutesOnce keys fmt ctx outputs template ↔
      WrittenTight keys fmt ctx outputs pieces := by
  rcases resolveLoop_spec h [] with ⟨hno, hloop⟩ | ⟨e, hfails, hloop⟩
  · have hresolve : resolveTemplate keys fmt ctx outputs template =
        .ok (String.ofList (pieces.flatMap
          (·.written (placeholderValue keys fmt ctx outputs)))) := by
      rw [resolveTemplate_eq, hloop]
      rfl
    have hgood : ¬ ∃ raw, .placeholder raw ∈ pieces ∧ BadFilter keys fmt ctx outputs raw := by
      rw [← exists_fails_iff]
      rintro ⟨e, hfails⟩
      exact hno e hfails
    have hmeant : SubstitutesOnce keys fmt ctx outputs template ↔
        pieces.flatMap (·.written (placeholderValue keys fmt ctx outputs)) =
          pieces.flatMap (·.meant (placeholderValue keys fmt ctx outputs)) := by
      rw [SubstitutesOnce, hresolve]
      dsimp only
      rw [String.toList_ofList]
      constructor
      · rintro ⟨pieces', hcut, heq⟩
        rw [← h.unique hcut] at heq
        exact heq
      · intro heq
        exact ⟨pieces, h, heq⟩
    rw [hmeant, written_eq_meant_iff hno, WrittenTight, or_iff_right hgood, Untrimmed]
    simp only [placeholderValue_none_iff]
  · have hbad := exists_fails_iff.mp ⟨e, hfails⟩
    have hresolve : resolveTemplate keys fmt ctx outputs template = .error e := by
      rw [resolveTemplate_eq, hloop]
      rfl
    constructor
    · intro _
      exact .inl hbad
    · intro _
      refine ⟨pieces, h, ?_⟩
      rw [hresolve]
      exact hbad

variable (keys fmt ctx outputs template) in
/-- Every template has one cut, and its pieces are substituted just when no placeholder that is left
alone has white space at its ends. -/
theorem substitutesOnce_iff :
    (∃ pieces, Cut template.toList pieces ∧ ∀ pieces', Cut template.toList pieces' →
      pieces' = pieces) ∧
    (SubstitutesOnce keys fmt ctx outputs template ↔
      ∃ pieces, Cut template.toList pieces ∧ WrittenTight keys fmt ctx outputs pieces) := by
  obtain ⟨pieces, hcut⟩ := exists_cut template.toList
  refine ⟨⟨pieces, hcut, fun _ h' => h'.unique hcut⟩, ?_⟩
  rw [substitutesOnce_of_cut hcut]
  constructor
  · intro htight
    exact ⟨pieces, hcut, htight⟩
  · rintro ⟨pieces', hcut', htight⟩
    rw [hcut.unique hcut']
    exact htight

end Template

def noTrigger : TriggerContext :=
  ⟨"", "", "", "", "", "", false, ∅⟩

/-- `{{ x }}` is left alone, but it comes out as `{{x}}`. -/
theorem resolveTemplate_trims :
    ¬ SubstitutesOnce ⟨fun _ => none, fun _ => none⟩ floatText noTrigger ∅
      "\x7b\x7b x \x7d\x7d" := by
  have hcut : Cut "\x7b\x7b x \x7d\x7d".toList
      [.literal [], .placeholder [' ', 'x', ' '], .literal []] := by
    have hopen : FirstAt OPEN [] [' ', 'x', ' ', '\x7d', '\x7d'] "\x7b\x7b x \x7d\x7d".toList :=
      cutAt_eq_some_iff.mp (by decide)
    have hclose : FirstAt CLOSE [' ', 'x', ' '] [] [' ', 'x', ' ', '\x7d', '\x7d'] :=
      cutAt_eq_some_iff.mp (by decide)
    exact .placeholder hopen hclose (.done (cutAt_eq_none_iff.mp (by decide)))
  rw [substitutesOnce_of_cut hcut]
  have hunknown : resolveVariable floatText noTrigger ∅ (placeholderParts [' ', 'x', ' ']).1 =
      none := by decide
  have hmem : ∀ raw, .placeholder raw ∈ [TemplatePiece.literal [], .placeholder [' ', 'x', ' '],
      .literal []] → raw = [' ', 'x', ' '] := by
    intro raw hraw
    simpa using hraw
  rintro (⟨raw, hraw, v, f, e, hresolve, _⟩ | htight)
  · rw [hmem raw hraw, hunknown] at hresolve
    cases hresolve
  · have htrim := htight _ (List.mem_cons_of_mem _ List.mem_cons_self) hunknown
    exact absurd htrim (by decide)

end Buzz.Workflow
