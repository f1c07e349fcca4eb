import Buzz.Lib.Occurrence

namespace Buzz.DevMcp
set_option autoImplicit true

def maxInputBytes : ℕ := 1024 * 1024

def maxFileBytes : ℕ := 10 * 1024 * 1024

/-- What a call asks for, apart from where the file is. -/
structure StrReplaceParams where
  oldStr : List Char
  newStr : List Char
  replaceAll : Bool

inductive Refusal where
  | emptyOldStr
  | inputTooLong
  | fileTooLarge
  | notFound
  | multipleLocations
  | resultTooLarge (projected : ℤ)

structure Edit where
  newContent : List Char
  count : ℕ
  projected : ℤ

/-- A value that saturates at the bounds of `i64`. -/
def saturate (x : ℤ) : ℤ := max (-2 ^ 63) (min x (2 ^ 63 - 1))

/-- The rounds of the loop, which stops at the second occurrence. -/
def countFrom {pat : List Char} (h : pat ≠ []) (count : ℕ) (text : List Char) : ℕ :=
  match hcut : cutAt pat text with
  | none => count
  | some (_, after) => if 2 ≤ count + 1 then count + 1 else countFrom h (count + 1) after
termination_by text.length
decreasing_by exact length_of_cutAt h hcut

def countOccurrencesCapped (text pattern : List Char) : ℕ :=
  if h : pattern = [] then 0 else countFrom h 0 text

def readTextFile (content : List Char) : Except Refusal (List Char) :=
  if maxFileBytes < textSize content then .error .fileTooLarge else .ok content

namespace StrReplaceParams

def count (p : StrReplaceParams) (h : p.oldStr ≠ []) (content : List Char) : ℕ :=
  if p.replaceAll then matchCount h content else countOccurrencesCapped content p.oldStr

def sizeDelta (p : StrReplaceParams) : ℤ :=
  (textSize p.newStr : ℤ) - textSize p.oldStr

/-- The size of the result, before it is allocated. -/
def projected (p : StrReplaceParams) (content : List Char) (count : ℕ) : ℤ :=
  saturate ((textSize content : ℤ) + saturate (p.sizeDelta * count))

def newContent (p : StrReplaceParams) (h : p.oldStr ≠ []) (content : List Char) : List Char :=
  if p.replaceAll then Buzz.replaceAll h p.newStr content
  else replaceFirst p.oldStr p.newStr content

/-- The edit of a content in which the pattern occurs some number of times. -/
def edit (p : StrReplaceParams) (h : p.oldStr ≠ []) (content : List Char) (count : ℕ) :
    Except Refusal Edit :=
  if count = 0 then .error .notFound
  else if p.replaceAll = false ∧ 1 < count then .error .multipleLocations
  else if p.projected content count < 0 ∨ (maxFileBytes : ℤ) < p.projected content count then
    .error (.resultTooLarge (p.projected content count))
  else .ok
    { newContent := p.newContent h content
      count := count
      projected := p.projected content count }

def run (p : StrReplaceParams) (file : List Char) : Except Refusal Edit :=
  if h : p.oldStr = [] then .error .emptyOldStr
  else if maxInputBytes < textSize p.oldStr ∨ maxInputBytes < textSize p.newStr then
    .error .inputTooLong
  else
    match readTextFile file with
    | .error e => .error e
    | .ok content => p.edit h content (p.count h content)

/-- The file after a call. -/
def fileAfter (p : StrReplaceParams) (file : List Char) : List Char :=
  match p.run file with
  | .error _ => file
  | .ok edit => edit.newContent

def InputsFit (p : StrReplaceParams) (file : List Char) : Prop :=
  textSize p.oldStr ≤ maxInputBytes ∧ textSize p.newStr ≤ maxInputBytes ∧
    textSize file ≤ maxFileBytes

/-- The limits of one replacement. -/
def WithinLimits (p : StrReplaceParams) (file : List Char) : Prop :=
  p.InputsFit file ∧ textSize file + textSize p.newStr ≤ maxFileBytes + textSize p.oldStr

end StrReplaceParams

section Count

variable {pat text before after : List Char} (h : pat ≠ [])

theorem countFrom_none (hcut : cutAt pat text = none) (count : ℕ) :
    countFrom h count text = count := by
  rw [countFrom]
  split
  · rfl
  · rename_i hsome
    rw [hcut] at hsome
    cases hsome

theorem countFrom_some (hcut : cutAt pat text = some (before, after)) (count : ℕ) :
    countFrom h count text =
      if 2 ≤ count + 1 then count + 1 else countFrom h (count + 1) after := by
  rw [countFrom]
  split
  · rename_i hnone
    rw [hcut] at hnone
    cases hnone
  · rename_i hsome
    rw [hcut] at hsome
    cases hsome
    rfl

theorem countFrom_eq (text : List Char) {count : ℕ} (hcount : count ≤ 1) :
    countFrom h count text = min 2 (count + matchCount h text) := by
  induction text using cutAt_induction h generalizing count with
  | hnone text hcut =>
    rw [countFrom_none h hcut, matchCount_none h hcut]
    omega
  | hsome text before after hcut ih =>
    rw [countFrom_some h hcut, matchCount_some h hcut]
    by_cases hstop : 2 ≤ count + 1
    · rw [if_pos hstop]
      omega
    · rw [if_neg hstop, ih (by omega)]
      omega

/-- The two ways to count agree up to the cap. -/
theorem countOccurrencesCapped_eq (text : List Char) :
    countOccurrencesCapped text pat = min 2 (matchCount h text) := by
  rw [countOccurrencesCapped, dif_neg h, countFrom_eq h text (Nat.zero_le 1), Nat.zero_add]

theorem matchCount_le (text : List Char) : matchCount h text ≤ textSize text := by
  induction text using cutAt_induction h with
  | hnone text hcut =>
    rw [matchCount_none h hcut]
    exact Nat.zero_le _
  | hsome text before after hcut ih =>
    have hpos := textSize_pos h
    rw [matchCount_some h hcut, (firstAt_of_cutAt hcut).eq, textSize_append, textSize_append]
    omega

theorem matchCount_eq_one : matchCount h text = 1 ↔
    ∃ before after, FirstAt pat before after text ∧ ∀ b a, after ≠ b ++ (pat ++ a) := by
  cases hcut : cutAt pat text with
  | none =>
    rw [matchCount_none h hcut]
    constructor
    · exact nofun
    · intro hfirst
      obtain ⟨before, after, hfirst, -⟩ := hfirst
      exact absurd hfirst.eq (not_of_cutAt hcut before after)
  | some r =>
    have hfirst := firstAt_of_cutAt hcut
    rw [matchCount_some h hcut, Nat.add_eq_right]
    constructor
    · intro hzero
      refine ⟨r.1, r.2, hfirst, ?_⟩
      apply not_of_cutAt
      cases hnext : cutAt pat r.2 with
      | none => rfl
      | some r' =>
        rw [matchCount_some h hnext] at hzero
        cases hzero
    · intro hone
      obtain ⟨before, after, hfirst', hlast⟩ := hone
      obtain ⟨-, rfl⟩ := hfirst.unique hfirst'
      exact matchCount_none h (cutAt_eq_none_iff.mpr hlast)

end Count

namespace StrReplaceParams

variable {p : StrReplaceParams} {file : List Char} {e : Edit}

theorem count_le (h : p.oldStr ≠ []) (file : List Char) : p.count h file ≤ matchCount h file := by
  rw [count, countOccurrencesCapped_eq h]
  split
  · exact le_rfl
  · exact min_le_right _ _

/-- Nothing saturates within the limits. -/
theorem projected_eq (hfit : p.InputsFit file) (count : ℕ) (hcount : count ≤ textSize file) :
    p.projected file count = (textSize file : ℤ) + p.sizeDelta * count := by
  obtain ⟨hold, hnew, hfile⟩ := hfit
  rw [maxInputBytes] at hold hnew
  rw [maxFileBytes] at hfile
  have hdelta : |p.sizeDelta| ≤ 1024 * 1024 := by
    rw [sizeDelta, abs_le]
    omega
  have hproduct : |p.sizeDelta * count| ≤ 1024 * 1024 * (10 * 1024 * 1024) := by
    rw [abs_mul, Nat.abs_cast]
    exact mul_le_mul hdelta (by omega) (Int.natCast_nonneg _) (by norm_num)
  have hbounds := abs_le.mp hproduct
  rw [projected, saturate, saturate]
  omega

theorem run_ok_iff : p.run file = .ok e ↔ ∃ h : p.oldStr ≠ [], p.InputsFit file ∧
    p.edit h file (p.count h file) = .ok e := by
  rw [run, readTextFile]
  by_cases h : p.oldStr = []
  · rw [dif_pos h]
    exact ⟨nofun, fun hrun => absurd h hrun.1⟩
  · rw [dif_neg h]
    by_cases hlong : maxInputBytes < textSize p.oldStr ∨ maxInputBytes < textSize p.newStr
    · rw [if_pos hlong]
      refine ⟨nofun, ?_⟩
      intro hrun
      obtain ⟨-, hfit, -⟩ := hrun
      have hold := hfit.1
      have hnew := hfit.2.1
      omega
    · rw [if_neg hlong]
      by_cases hlarge : maxFileBytes < textSize file
      · rw [if_pos hlarge]
        refine ⟨nofun, ?_⟩
        intro hrun
        obtain ⟨-, hfit, -⟩ := hrun
        exact absurd hfit.2.2 (Nat.not_le.mpr hlarge)
      · rw [if_neg hlarge]
        have hfit : p.InputsFit file := ⟨by omega, by omega, by omega⟩
        exact ⟨fun hedit => ⟨h, hfit, hedit⟩, fun hrun => hrun.2.2⟩

theorem edit_ok_iff (h : p.oldStr ≠ []) (count : ℕ) : p.edit h file count = .ok e ↔
    count ≠ 0 ∧ ¬ (p.replaceAll = false ∧ 1 < count) ∧
    ¬ (p.projected file count < 0 ∨ (maxFileBytes : ℤ) < p.projected file count) ∧
    e = { newContent := p.newContent h file, count := count,
          projected := p.projected file count } := by
  rw [edit]
  by_cases hzero : count = 0
  · rw [if_pos hzero]
    exact ⟨nofun, fun hok => absurd hzero hok.1⟩
  · rw [if_neg hzero]
    by_cases hmany : p.replaceAll = false ∧ 1 < count
    · rw [if_pos hmany]
      exact ⟨nofun, fun hok => absurd hmany hok.2.1⟩
    · rw [if_neg hmany]
      by_cases hsize : p.projected file count < 0 ∨ (maxFileBytes : ℤ) < p.projected file count
      · rw [if_pos hsize]
        exact ⟨nofun, fun hok => absurd hsize hok.2.2.1⟩
      · rw [if_neg hsize]
        constructor
        · intro hok
          exact ⟨hzero, hmany, hsize, (Except.ok.inj hok).symm⟩
        · intro hok
          rw [hok.2.2.2]

/-- The preflight is the size of the result. -/
theorem projected_newContent (hall : p.replaceAll = true) (hrun : p.run file = .ok e) :
    e.projected = textSize e.newContent := by
  obtain ⟨h, hfit, hedit⟩ := run_ok_iff.mp hrun
  obtain ⟨-, -, -, rfl⟩ := (edit_ok_iff h _).mp hedit
  have hsize := textSize_replaceAll h p.newStr file
  have hcount : p.count h file = matchCount h file := if_pos hall
  have hnew : p.newContent h file = Buzz.replaceAll h p.newStr file := if_pos hall
  change p.projected file (p.count h file) = (textSize (p.newContent h file) : ℤ)
  rw [projected_eq hfit _ ((count_le h file).trans (matchCount_le h file)), hcount, hnew,
    sizeDelta, Int.sub_mul, mul_comm (textSize p.newStr : ℤ), mul_comm (textSize p.oldStr : ℤ)]
  zify at hsize
  omega

/-- Without `replaceAll` a call edits where the search finds one occurrence and no more behind it. -/
theorem run_single (hall : p.replaceAll = false) : (∃ e, p.run file = .ok e) ↔
    p.oldStr ≠ [] ∧ p.WithinLimits file ∧ ∃ before after,
      FirstAt p.oldStr before after file ∧ ∀ b a, after ≠ b ++ (p.oldStr ++ a) := by
  have hdelta : p.sizeDelta * (1 : ℕ) = (textSize p.newStr : ℤ) - textSize p.oldStr := by
    rw [Nat.cast_one, mul_one, sizeDelta]
  constructor
  · intro hok
    obtain ⟨e, hrun⟩ := hok
    obtain ⟨h, hfit, hedit⟩ := run_ok_iff.mp hrun
    obtain ⟨hzero, hmany, hsize, -⟩ := (edit_ok_iff h _).mp hedit
    have hone : p.count h file = 1 := by
      have hle : ¬ 1 < p.count h file := fun hlt => hmany ⟨hall, hlt⟩
      omega
    have hmatch : matchCount h file = 1 := by
      rw [count, hall, if_neg Bool.false_ne_true, countOccurrencesCapped_eq h] at hone
      omega
    rw [hone, projected_eq hfit 1 (hmatch ▸ matchCount_le h file), hdelta] at hsize
    exact ⟨h, ⟨hfit, by omega⟩, (matchCount_eq_one h).mp hmatch⟩
  · intro hok
    obtain ⟨h, ⟨hfit, hlimit⟩, hfirst⟩ := hok
    have hmatch := (matchCount_eq_one h).mpr hfirst
    have hone : p.count h file = 1 := by
      rw [count, hall, if_neg Bool.false_ne_true, countOccurrencesCapped_eq h, hmatch]
      rfl
    have hsize : textSize p.oldStr ≤ textSize file := by
      obtain ⟨before, after, hfirst, -⟩ := hfirst
      rw [hfirst.eq, textSize_append, textSize_append]
      omega
    refine ⟨_, run_ok_iff.mpr ⟨h, hfit, (edit_ok_iff h _).mpr ⟨?_, ?_, ?_, rfl⟩⟩⟩
    · rw [hone]
      exact Nat.one_ne_zero
    · rw [hone]
      exact fun hmany => absurd hmany.2 (Nat.lt_irrefl 1)
    · rw [hone, projected_eq hfit 1 (hmatch ▸ matchCount_le h file), hdelta]
      omega

/-- What is written without `replaceAll` is the file with an occurrence replaced. -/
theorem newContent_single (hall : p.replaceAll = false) (hrun : p.run file = .ok e) :
    ∃ before after, file = before ++ (p.oldStr ++ after) ∧
      e.newContent = before ++ (p.newStr ++ after) := by
  obtain ⟨-, -, before, after, hfirst, -⟩ := (run_single hall).mp ⟨e, hrun⟩
  obtain ⟨h, hfit, hedit⟩ := run_ok_iff.mp hrun
  obtain ⟨-, -, -, rfl⟩ := (edit_ok_iff h _).mp hedit
  refine ⟨before, after, hfirst.eq, ?_⟩
  change p.newContent h file = _
  rw [newContent, hall, if_neg Bool.false_ne_true, replaceFirst, cutAt_eq_some_iff.mpr hfirst]

/-- Each match is replaced, and that is what is reported. -/
theorem newContent_all (hall : p.replaceAll = true) (hrun : p.run file = .ok e) :
    ∃ parts : List (List Char), parts.length = e.count + 1 ∧
      file = p.oldStr.intercalate parts ∧ e.newContent = p.newStr.intercalate parts := by
  obtain ⟨h, hfit, hedit⟩ := run_ok_iff.mp hrun
  obtain ⟨-, -, -, rfl⟩ := (edit_ok_iff h _).mp hedit
  refine ⟨pieces h file, ?_, (intercalate_pieces h file).symm, ?_⟩
  · change _ = p.count h file + 1
    rw [length_pieces, count, if_pos hall]
  · change p.newContent h file = _
    rw [newContent, if_pos hall, replaceAll_eq]

/-- Only the unambiguous edit is made, and the report is about the edit that is made. -/
structure Unambiguous (p : StrReplaceParams) (file : List Char) : Prop where
  writes : p.replaceAll = false → ((∃ e, p.run file = .ok e) ↔
    p.oldStr ≠ [] ∧ (∃! i, OccursAt p.oldStr file i) ∧ p.WithinLimits file)
  edits : p.replaceAll = false → ∀ e, p.run file = .ok e → ∃ before after,
    file = before ++ (p.oldStr ++ after) ∧ p.fileAfter file = before ++ (p.newStr ++ after)
  unchanged : (∀ e, p.run file ≠ .ok e) → p.fileAfter file = file
  reports : p.replaceAll = true → ∀ e, p.run file = .ok e →
    (∃ parts : List (List Char), parts.length = e.count + 1 ∧
      file = p.oldStr.intercalate parts ∧ p.fileAfter file = p.newStr.intercalate parts) ∧
    e.projected = textSize (p.fileAfter file)

/-- A second occurrence overlaps the first, and none starts behind the first. -/
structure Overlapping (p : StrReplaceParams) (file : List Char) : Prop where
  single : p.replaceAll = false
  nonempty : p.oldStr ≠ []
  limits : p.WithinLimits file
  second : ∃ before after, FirstAt p.oldStr before after file ∧
    (∀ b a, after ≠ b ++ (p.oldStr ++ a)) ∧
    ∃ i, i ≠ textSize before ∧ OccursAt p.oldStr file i

theorem fileAfter_ok (hrun : p.run file = .ok e) : p.fileAfter file = e.newContent := by
  rw [fileAfter, hrun]

theorem fileAfter_error (h : ∀ e, p.run file ≠ .ok e) : p.fileAfter file = file := by
  rw [fileAfter]
  cases hrun : p.run file with
  | error => rfl
  | ok e => exact absurd hrun (h e)

theorem firstAt_of_unique (hunique : ∃! i, OccursAt p.oldStr file i) (hold : p.oldStr ≠ []) :
    ∃ before after, FirstAt p.oldStr before after file ∧ ∀ b a, after ≠ b ++ (p.oldStr ++ a) := by
  obtain ⟨i, ⟨before, after, heq, hi⟩, hother⟩ := hunique
  refine ⟨before, after, ⟨heq, ?_⟩, ?_⟩
  · intro b a hb
    have hsize : textSize before = textSize b := hi.trans (hother _ ⟨b, a, hb, rfl⟩).symm
    rw [before_eq_of_textSize (heq.symm.trans hb) hsize]
  · intro b a hafter
    have hposition := hother (textSize (before ++ (p.oldStr ++ b)))
      ⟨before ++ (p.oldStr ++ b), a, by
        rw [heq, hafter]
        simp only [List.append_assoc], rfl⟩
    have hpos := textSize_pos hold
    rw [textSize_append, textSize_append] at hposition
    omega

/-- A call makes only the unambiguous edit unless occurrences overlap. -/
theorem unambiguous_iff (p : StrReplaceParams) (file : List Char) :
    p.Unambiguous file ↔ ¬ p.Overlapping file := by
  constructor
  · intro h hover
    obtain ⟨before, after, hfirst, hlast, i, hi, hoccurs⟩ := hover.second
    have hrun := (run_single hover.single).mpr
      ⟨hover.nonempty, hover.limits, before, after, hfirst, hlast⟩
    obtain ⟨-, ⟨j, -, hother⟩, -⟩ := (h.writes hover.single).mp hrun
    exact hi ((hother i hoccurs).trans
      (hother (textSize before) ⟨before, after, hfirst.eq, rfl⟩).symm)
  · intro hover
    constructor
    · intro hall
      rw [run_single hall]
      constructor
      · intro hrun
        obtain ⟨hold, hlimits, before, after, hfirst, hlast⟩ := hrun
        refine ⟨hold, ⟨textSize before, ⟨before, after, hfirst.eq, rfl⟩, ?_⟩, hlimits⟩
        intro i hoccurs
        by_contra hi
        exact hover ⟨hall, hold, hlimits, before, after, hfirst, hlast, i, hi, hoccurs⟩
      · intro hrun
        exact ⟨hrun.1, hrun.2.2, firstAt_of_unique hrun.2.1 hrun.1⟩
    · intro hall e hrun
      rw [fileAfter_ok hrun]
      exact newContent_single hall hrun
    · exact fileAfter_error
    · intro hall e hrun
      rw [fileAfter_ok hrun]
      exact ⟨newContent_all hall hrun, projected_newContent hall hrun⟩

/-- `aa` is replaced in `aaa`, where it occurs twice. -/
theorem not_unambiguous_aaa :
    ¬ Unambiguous ⟨['a', 'a'], ['b'], false⟩ ['a', 'a', 'a'] := by
  have hcut : cutAt ['a', 'a'] ['a', 'a', 'a'] = some ([], ['a']) := rfl
  have hlast : cutAt ['a', 'a'] ['a'] = none := rfl
  intro h
  have hlimits : WithinLimits ⟨['a', 'a'], ['b'], false⟩ ['a', 'a', 'a'] :=
    ⟨⟨by decide, by decide, by decide⟩, by decide⟩
  have hrun := (@run_single ⟨['a', 'a'], ['b'], false⟩ ['a', 'a', 'a'] rfl).mpr
    ⟨nofun, hlimits, [], ['a'], firstAt_of_cutAt hcut, not_of_cutAt hlast⟩
  obtain ⟨-, ⟨i, -, hother⟩, -⟩ := (h.writes rfl).mp hrun
  have hfirst := hother 0 ⟨[], ['a'], rfl, rfl⟩
  have hsecond := hother 1 ⟨['a'], [], rfl, rfl⟩
  omega

end StrReplaceParams

end Buzz.DevMcp
