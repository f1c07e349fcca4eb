import Buzz.Lib.JsonParse

namespace Buzz.Json
set_option autoImplicit true
open Hex

/-- The value of a document as it stands: repeated names are kept, and numbers are their texts. -/
abbrev Doc : Type := Value (List Char)

/-- A value of any kind, read as it stands. The depth is as in `parseValue`. -/
def parseDoc : ℕ → Parser Doc
  | 0, _ => none
  | depth + 1, cs =>
    match skipWs cs with
    | 'n' :: 'u' :: 'l' :: 'l' :: rest => some (.null, rest)
    | 't' :: 'r' :: 'u' :: 'e' :: rest => some (.bool true, rest)
    | 'f' :: 'a' :: 'l' :: 's' :: 'e' :: rest => some (.bool false, rest)
    | '"' :: rest => (parseString ('"' :: rest)).map fun r => (.string r.1, r.2)
    | '[' :: rest =>
      if depth = 0 then none
      else (parseArray (parseDoc depth) ('[' :: rest)).map fun r => (.array r.1, r.2)
    | '\x7b' :: rest =>
      if depth = 0 then none
      else
        (parseObject (fun name cs => (parseDoc depth cs).map fun r => ((name, r.1), r.2))
          ('\x7b' :: rest)).map fun r => (.object r.1, r.2)
    | cs =>
      let lexeme := cs.takeWhile isNumberChar
      if isNumber lexeme then some (.number (.float lexeme), cs.drop lexeme.length) else none

def Blank (cs : List Char) : Prop :=
  ∀ c ∈ cs, isWs c = true

/-- Four hexadecimal digits and their value. -/
inductive UnitText : List Char → ℕ → Prop
  | digits (ha : digitVal a = some x) (hb : digitVal b = some y) (hc : digitVal c = some z)
      (hd : digitVal d = some w) :
      UnitText [a, b, c, d] (((x.val * 16 + y.val) * 16 + z.val) * 16 + w.val)

def shortEscapes : List (Char × Char) :=
  [('"', '"'), ('\\', '\\'), ('/', '/'), ('b', '\x08'), ('f', '\x0c'), ('n', '\n'), ('r', '\r'),
    ('t', '\t')]

/-- What stands behind a backslash, and the character that it means. -/
inductive EscapeText : List Char → Char → Prop
  | short (h : (e, c) ∈ shortEscapes) : EscapeText [e] c
  | unit (h : UnitText ds n) (hno : ¬ (0xD800 ≤ n ∧ n < 0xE000)) :
      EscapeText ('u' :: ds) (Char.ofNat n)
  | pair (h : UnitText ds high) (hhigh : 0xD800 ≤ high ∧ high < 0xDC00) (h' : UnitText ds' low)
      (hlow : 0xDC00 ≤ low ∧ low < 0xE000) :
      EscapeText ('u' :: (ds ++ '\\' :: 'u' :: ds'))
        (Char.ofNat (0x10000 + (high - 0xD800) * 0x400 + (low - 0xDC00)))

/-- The inside of a string literal. -/
inductive StringText : List Char → List Char → Prop
  | nil : StringText [] []
  | plain (hquote : c ≠ '"') (hslash : c ≠ '\\') (hcontrol : 32 ≤ c.toNat) (h : StringText cs s) :
      StringText (c :: cs) (c :: s)
  | escape (he : EscapeText e c) (h : StringText cs s) : StringText ('\\' :: (e ++ cs)) (c :: s)

inductive Literal : List Char → String → Prop
  | quoted (h : StringText body s) : Literal ('"' :: (body ++ ['"'])) (String.ofList s)

/-- The text of something with white space around it. -/
structure Piece (α : Type) where
  before : List Char
  text : List Char
  after : List Char
  value : α
  blank_before : Blank before
  blank_after : Blank after

def Piece.written (p : Piece α) : List Char :=
  p.before ++ p.text ++ p.after

/-- The grammar of values: which texts stand for a value, and for which. -/
inductive Denotes : List Char → Doc → Prop
  | null : Denotes ['n', 'u', 'l', 'l'] .null
  | yes : Denotes ['t', 'r', 'u', 'e'] (.bool true)
  | no : Denotes ['f', 'a', 'l', 's', 'e'] (.bool false)
  | number (h : isNumber lexeme = true) : Denotes lexeme (.number (.float lexeme))
  | string (h : Literal text s) : Denotes text (.string s)
  | emptyArray (h : Blank ws) : Denotes ('[' :: (ws ++ [']'])) (.array [])
  | array (item : Piece Doc) (items : List (Piece Doc))
      (h : ∀ p ∈ item :: items, Denotes p.text p.value) :
      Denotes (printArray ((item :: items).map (·.written)))
        (.array ((item :: items).map (·.value)))
  | emptyObject (h : Blank ws) : Denotes ('\x7b' :: (ws ++ ['\x7d'])) (.object [])
  | object (member : Piece String × Piece Doc) (members : List (Piece String × Piece Doc))
      (hname : ∀ m ∈ member :: members, Literal m.1.text m.1.value)
      (h : ∀ m ∈ member :: members, Denotes m.2.text m.2.value) :
      Denotes (printObject ((member :: members).map fun m => m.1.written ++ ':' :: m.2.written))
        (.object ((member :: members).map fun m => (m.1.value, m.2.value)))

/-- A whole text that stands for a value. -/
inductive IsDocument : List Char → Doc → Prop
  | value (p : Piece Doc) (h : Denotes p.text p.value) : IsDocument p.written p.value

section Strings
variable {rest : List Char}

theorem UnitText.parse (h : UnitText ds n) (rest : List Char) :
    parseUnit (ds ++ rest) = some (n, rest) := by
  cases h with
  | digits ha hb hc hd =>
    simp only [List.cons_append, List.nil_append, parseUnit, ha, hb, hc, hd]

theorem EscapeText.parse (h : EscapeText e c) (rest : List Char) :
    parseEscape (e ++ rest) = some (c, rest) := by
  cases h with
  | short hmem =>
    simp only [shortEscapes, List.mem_cons, Prod.mk.injEq, List.not_mem_nil, or_false] at hmem
    rcases hmem with ⟨rfl, rfl⟩ | ⟨rfl, rfl⟩ | ⟨rfl, rfl⟩ | ⟨rfl, rfl⟩ | ⟨rfl, rfl⟩ | ⟨rfl, rfl⟩ |
      ⟨rfl, rfl⟩ | ⟨rfl, rfl⟩
    all_goals rfl
  | unit hunit hno =>
    rw [List.cons_append, parseEscape, hunit.parse]
    dsimp only
    rw [if_neg (fun hhigh => hno ⟨hhigh.1, by omega⟩), if_neg (fun hlow => hno ⟨by omega, hlow.2⟩)]
  | pair hunit hhigh hunit' hlow =>
    simp only [List.cons_append, List.append_assoc, parseEscape, hunit.parse, hunit'.parse,
      if_pos hhigh, if_pos hlow]

theorem StringText.parse (h : StringText cs s) (rest : List Char) {fuel : ℕ}
    (hfuel : cs.length < fuel) :
    parseStringBody fuel (cs ++ '"' :: rest) = some (s, rest) := by
  induction h generalizing fuel with
  | nil =>
    obtain ⟨fuel, rfl⟩ := Nat.exists_eq_succ_of_ne_zero (Nat.ne_of_gt (Nat.zero_lt_of_lt hfuel))
    rw [List.nil_append, parseStringBody, if_pos rfl]
  | plain hquote hslash hcontrol _ ih =>
    obtain ⟨fuel, rfl⟩ := Nat.exists_eq_succ_of_ne_zero (Nat.ne_of_gt (Nat.zero_lt_of_lt hfuel))
    rw [List.cons_append, parseStringBody, if_neg hquote, if_neg hslash,
      if_neg (Nat.not_lt.mpr hcontrol), ih (Nat.lt_of_succ_lt_succ hfuel)]
    rfl
  | escape he _ ih =>
    obtain ⟨fuel, rfl⟩ := Nat.exists_eq_succ_of_ne_zero (Nat.ne_of_gt (Nat.zero_lt_of_lt hfuel))
    rw [List.length_cons, List.length_append] at hfuel
    rw [List.cons_append, parseStringBody, if_neg (by decide), if_pos rfl, List.append_assoc,
      he.parse]
    dsimp only
    rw [ih (by omega)]
    rfl

theorem Literal.parse (h : Literal text s) (rest : List Char) :
    parseString (text ++ rest) = some (s, rest) := by
  cases h with
  | quoted hbody =>
    rw [List.cons_append, parseString, skipWs_cons rfl, List.append_assoc, List.singleton_append]
    change (parseStringBody _ _).map _ = _
    rw [hbody.parse rest]
    · rfl
    · rw [List.length_append, List.length_cons]
      omega

theorem Literal.starts (h : Literal text s) : ∃ cs, text = '"' :: cs := by
  cases h with
  | quoted hbody => exact ⟨_, rfl⟩

end Strings

section Lists
variable {p : Parser α} {text rest ws : List Char} {a : α} {close : Char} {fuel depth : ℕ}

/-- Where a number ends. -/
def Ends (rest : List Char) : Prop :=
  ∀ c ∈ rest.head?, isNumberChar c = false

/-- The parser takes exactly the text off the front, unless it gives up. -/
structure Takes (p : Parser α) (text : List Char) (a : α) : Prop where
  starts : ∃ c cs, text = c :: cs ∧ isWs c = false ∧ c ≠ ']' ∧ c ≠ '\x7d'
  takes : ∀ rest, Ends rest → p (text ++ rest) = none ∨ p (text ++ rest) = some (a, rest)

/-- White space in front makes no difference. -/
def Skips (p : Parser α) : Prop :=
  ∀ cs, p (skipWs cs) = p cs

theorem skipWs_blank (hws : Blank ws) (hc : isWs c = false) :
    skipWs (ws ++ c :: cs) = c :: cs := by
  rw [skipWs, List.dropWhile_append_of_pos hws, ← skipWs, skipWs_cons hc]

theorem skipWs_of_blank (hws : Blank ws) : skipWs ws = [] :=
  List.dropWhile_eq_nil_iff.mpr hws

theorem isNumberChar_of_isWs (h : isWs c = true) : isNumberChar c = false := by
  rw [isWs, Bool.or_eq_true, Bool.or_eq_true, Bool.or_eq_true, beq_iff_eq, beq_iff_eq,
    beq_iff_eq, beq_iff_eq] at h
  rcases h with ((rfl | rfl) | rfl) | rfl
  all_goals rfl

theorem ends_blank (hws : Blank ws) (h : Ends rest) : Ends (ws ++ rest) := by
  cases ws with
  | nil => exact h
  | cons c ws =>
    intro d hd
    cases hd
    exact isNumberChar_of_isWs (hws c List.mem_cons_self)

/-- White space around a text is passed over. -/
theorem Takes.piece (hp : Skips p) {x : Piece α} (h : Takes p x.text x.value) (hrest : Ends rest) :
    p (x.written ++ rest) = none ∨ p (x.written ++ rest) = some (x.value, x.after ++ rest) := by
  have hskip : p (x.written ++ rest) = p (x.text ++ (x.after ++ rest)) := by
    obtain ⟨c, cs, hc, hws, _⟩ := h.starts
    rw [Piece.written, List.append_assoc, List.append_assoc, ← hp (x.before ++ _), hc,
      List.cons_append, skipWs_blank x.blank_before hws]
  rw [hskip]
  exact h.takes _ (ends_blank x.blank_after hrest)

theorem ends_items (hclose : close = ']' ∨ close = '\x7d') (items : List (Piece α)) :
    Ends (items.flatMap (fun x => ',' :: x.written) ++ close :: rest) := by
  intro c hc
  cases items with
  | nil =>
    cases hc
    rcases hclose with rfl | rfl
    · rfl
    · rfl
  | cons x items =>
    cases hc
    rfl

theorem parseItems_takes (hclose : close = ']' ∨ close = '\x7d') (hp : Skips p)
    (items : List (Piece α)) (h : ∀ x ∈ items, Takes p x.text x.value) (hws : Blank ws) :
    parseItems close p fuel (ws ++ (items.flatMap (fun x => ',' :: x.written) ++ close :: rest)) =
      none ∨
    parseItems close p fuel (ws ++ (items.flatMap (fun x => ',' :: x.written) ++ close :: rest)) =
      some (items.map (·.value), rest) := by
  induction items generalizing fuel ws with
  | nil =>
    have hnotws : isWs close = false := by
      rcases hclose with rfl | rfl
      · rfl
      · rfl
    cases fuel with
    | zero => exact .inl rfl
    | succ fuel =>
      right
      rw [List.flatMap_nil, List.nil_append, parseItems, skipWs_blank hws hnotws]
      dsimp only
      rw [if_pos rfl]
      rfl
  | cons x items ih =>
    have hcomma : ',' ≠ close := by
      rcases hclose with rfl | rfl
      · decide
      · decide
    cases fuel with
    | zero => exact .inl rfl
    | succ fuel =>
      rw [List.flatMap_cons, List.cons_append, List.cons_append, parseItems, skipWs_blank hws rfl]
      dsimp only
      rw [if_neg hcomma, if_pos rfl, List.append_assoc]
      rcases (h x List.mem_cons_self).piece hp (ends_items hclose items) with hnone | hsome
      · rw [hnone]
        exact .inl rfl
      · rw [hsome]
        dsimp only
        rcases ih (fun y hy => h y (List.mem_cons_of_mem _ hy)) x.blank_after with hnone | hsome
        · rw [hnone]
          exact .inl rfl
        · rw [hsome]
          exact .inr rfl

theorem parseSeq_empty {opening : Char} (hopen : isWs opening = false)
    (hclose : close = ']' ∨ close = '\x7d') (hws : Blank ws) :
    parseSeq opening close p (opening :: (ws ++ [close]) ++ rest) = some ([], rest) := by
  have hnotws : isWs close = false := by
    rcases hclose with rfl | rfl
    · rfl
    · rfl
  rw [List.cons_append, List.append_assoc, List.singleton_append, parseSeq, skipWs_cons hopen]
  dsimp only
  rw [if_pos rfl, skipWs_blank hws hnotws, List.head?_cons, if_pos rfl]
  rfl

/-- A list in brackets, with white space wherever it may be. -/
theorem parseSeq_takes {opening : Char} (hopen : isWs opening = false)
    (hclose : close = ']' ∨ close = '\x7d') (hp : Skips p) (x : Piece α) (items : List (Piece α))
    (h : ∀ y ∈ x :: items, Takes p y.text y.value) :
    parseSeq opening close p (printSeq opening close ((x :: items).map (·.written)) ++ rest) =
      none ∨
    parseSeq opening close p (printSeq opening close ((x :: items).map (·.written)) ++ rest) =
      some ((x :: items).map (·.value), rest) := by
  have hx := h x List.mem_cons_self
  obtain ⟨c, cs, hc, hnotws, hbracket, hbrace⟩ := hx.starts
  have hne : c ≠ close := by
    rcases hclose with rfl | rfl
    · exact hbracket
    · exact hbrace
  have hflat : (items.map (·.written)).flatMap (fun y => ',' :: y) =
      items.flatMap fun y => ',' :: y.written := by
    rw [List.flatMap_map]
  have hhead : ∀ more, (skipWs (x.written ++ more)).head? ≠ some close := by
    intro more
    rw [Piece.written, List.append_assoc, List.append_assoc, hc, List.cons_append,
      skipWs_blank x.blank_before hnotws, List.head?_cons]
    intro heq
    exact hne (Option.some.inj heq)
  rw [printSeq, List.cons_append, parseSeq, skipWs_cons hopen]
  dsimp only
  rw [if_pos rfl, List.append_assoc, List.singleton_append, List.map_cons,
    intercalate_cons_flatMap, hflat, List.append_assoc, if_neg (hhead _), hp]
  rcases hx.piece hp (ends_items hclose items) with hnone | hsome
  · rw [hnone]
    exact .inl rfl
  · rw [hsome]
    dsimp only
    rcases parseItems_takes hclose hp items (fun y hy => h y (List.mem_cons_of_mem _ hy))
      x.blank_after with hnone | hsome
    · rw [hnone]
      exact .inl rfl
    · rw [hsome]
      exact .inr rfl

end Lists

section Numbers
variable {cs : List Char}

theorem isNumberChar_of_isDigit (h : isDigit c = true) : isNumberChar c = true := by
  rw [isNumberChar, h]
  rfl

theorem isNumberChar_of_all (h : cs.all isDigit = true) : ∀ c ∈ cs, isNumberChar c = true :=
  fun c hc => isNumberChar_of_isDigit (List.all_eq_true.mp h c hc)

theorem isNumberChar_of_isFraction (h : isFraction cs = true) :
    ∀ c ∈ cs, isNumberChar c = true := by
  cases cs with
  | nil => exact nofun
  | cons c cs =>
    rw [isFraction, Bool.and_eq_true, Bool.and_eq_true, beq_iff_eq] at h
    obtain ⟨⟨rfl, _⟩, hdigits⟩ := h
    exact List.forall_mem_cons.mpr ⟨rfl, isNumberChar_of_all hdigits⟩

theorem isNumberChar_of_isExponent (h : isExponent cs = true) :
    ∀ c ∈ cs, isNumberChar c = true := by
  rw [isExponent.eq_def] at h
  split at h
  · exact nofun
  · rw [Bool.and_eq_true] at h
    exact List.forall_mem_cons.mpr ⟨rfl, isNumberChar_of_all h.2⟩
  · rw [Bool.and_eq_true] at h
    exact List.forall_mem_cons.mpr ⟨rfl, isNumberChar_of_all h.2⟩
  · rw [Bool.and_eq_true] at h
    exact isNumberChar_of_all h.2

/-- A number has at least one character, and only characters of numbers. -/
theorem isNumberChar_of_isNumber (h : isNumber cs = true) :
    cs ≠ [] ∧ ∀ c ∈ cs, isNumberChar c = true := by
  refine ⟨?_, ?_⟩
  · rintro rfl
    cases h
  · have hunsigned : ∀ c ∈ (if cs.head? = some '-' then cs.tail else cs),
        isNumberChar c = true := by
      rw [isNumber] at h
      generalize (if cs.head? = some '-' then cs.tail else cs) = ds at h ⊢
      rw [Bool.and_eq_true, Bool.and_eq_true] at h
      obtain ⟨⟨_, hfraction⟩, hexponent⟩ := h
      have hsplit := @List.takeWhile_append_dropWhile _ (fun c => c != 'e' && c != 'E') ds
      have hhead : ∀ c ∈ (ds.dropWhile fun c => c != 'e' && c != 'E').head?,
          isNumberChar c = true := by
        intro c hc
        have hnot := List.head?_dropWhile_not (fun c => c != 'e' && c != 'E') ds
        rw [hc] at hnot
        have hletter : c = 'e' ∨ c = 'E' := by
          rw [← Decidable.not_not (p := c = 'e' ∨ c = 'E'), not_or]
          simpa using hnot
        rcases hletter with rfl | rfl
        · rfl
        · rfl
      generalize ds.takeWhile (fun c => c != 'e' && c != 'E') = mantissa at *
      generalize (ds.dropWhile fun c => c != 'e' && c != 'E') = tail at *
      have hmantissa : ∀ c ∈ mantissa, isNumberChar c = true := by
        rw [← List.take_append_drop (mantissa.takeWhile isDigit).length mantissa,
          List.forall_mem_append]
        refine ⟨?_, isNumberChar_of_isFraction hfraction⟩
        intro c hc
        rw [← List.prefix_iff_eq_take.mp (List.takeWhile_prefix isDigit)] at hc
        exact isNumberChar_of_isDigit (List.mem_takeWhile_imp hc)
      subst hsplit
      rw [List.forall_mem_append]
      refine ⟨hmantissa, ?_⟩
      cases tail with
      | nil => exact fun _ h => absurd h List.not_mem_nil
      | cons c more =>
        refine List.forall_mem_cons.mpr ⟨hhead c rfl, ?_⟩
        apply isNumberChar_of_isExponent
        have hboth : more ≠ [] ∧ isExponent more = true := by simpa using hexponent
        exact hboth.2
    cases cs with
    | nil => exact fun _ h => absurd h List.not_mem_nil
    | cons c cs =>
      by_cases hsign : c = '-'
      · subst hsign
        rw [List.head?_cons, if_pos rfl] at hunsigned
        exact List.forall_mem_cons.mpr ⟨rfl, hunsigned⟩
      · rw [List.head?_cons, if_neg (fun heq => hsign (Option.some.inj heq))] at hunsigned
        exact hunsigned

end Numbers

section Values
variable {text : List Char} {doc : Doc} {depth : ℕ}

theorem Denotes.starts (h : Denotes text doc) :
    ∃ c cs, text = c :: cs ∧ isWs c = false ∧ c ≠ ']' ∧ c ≠ '\x7d' := by
  cases h with
  | null => exact ⟨_, _, rfl, rfl, by decide, by decide⟩
  | yes => exact ⟨_, _, rfl, rfl, by decide, by decide⟩
  | no => exact ⟨_, _, rfl, rfl, by decide, by decide⟩
  | number hnumber =>
    obtain ⟨hne, hchars⟩ := isNumberChar_of_isNumber hnumber
    obtain ⟨c, cs, rfl⟩ := List.exists_cons_of_ne_nil hne
    have hc := hchars c List.mem_cons_self
    refine ⟨c, cs, rfl, ?_, ?_, ?_⟩
    · apply Bool.eq_false_of_not_eq_true
      intro hws
      rw [isNumberChar_of_isWs hws] at hc
      cases hc
    · rintro rfl
      cases hc
    · rintro rfl
      cases hc
  | string hliteral =>
    obtain ⟨cs, rfl⟩ := hliteral.starts
    exact ⟨_, _, rfl, rfl, by decide, by decide⟩
  | emptyArray => exact ⟨_, _, rfl, rfl, by decide, by decide⟩
  | array => exact ⟨_, _, rfl, rfl, by decide, by decide⟩
  | emptyObject => exact ⟨_, _, rfl, rfl, by decide, by decide⟩
  | object => exact ⟨_, _, rfl, rfl, by decide, by decide⟩

theorem skips_parseDoc (depth : ℕ) : Skips (parseDoc depth) := by
  intro cs
  cases depth with
  | zero => rfl
  | succ depth =>
    rw [parseDoc, parseDoc, skipWs, skipWs, List.dropWhile_idempotent]

theorem parseDoc_quote (depth : ℕ) (cs : List Char) : parseDoc (depth + 1) ('"' :: cs) =
    (parseString ('"' :: cs)).map fun r => (.string r.1, r.2) := by
  rw [parseDoc, skipWs_cons rfl]
  rfl

theorem parseDoc_bracket (depth : ℕ) (cs : List Char) : parseDoc (depth + 1) ('[' :: cs) =
    if depth = 0 then none
    else (parseArray (parseDoc depth) ('[' :: cs)).map fun r => (.array r.1, r.2) := by
  rw [parseDoc, skipWs_cons rfl]
  rfl

theorem parseDoc_brace (depth : ℕ) (cs : List Char) : parseDoc (depth + 1) ('\x7b' :: cs) =
    if depth = 0 then none
    else
      (parseObject (fun name cs => (parseDoc depth cs).map fun r => ((name, r.1), r.2))
        ('\x7b' :: cs)).map fun r => (.object r.1, r.2) := by
  rw [parseDoc, skipWs_cons rfl]
  rfl

theorem parseDoc_number (hc : isNumberChar c = true) (depth : ℕ) (cs : List Char) :
    parseDoc (depth + 1) (c :: cs) =
      if isNumber ((c :: cs).takeWhile isNumberChar) then
        some (.number (.float ((c :: cs).takeWhile isNumberChar)),
          (c :: cs).drop ((c :: cs).takeWhile isNumberChar).length)
      else none := by
  have hws : isWs c = false := by
    apply Bool.eq_false_of_not_eq_true
    intro hws
    rw [isNumberChar_of_isWs hws] at hc
    cases hc
  rw [parseDoc.eq_def]
  dsimp only
  rw [skipWs_cons hws]
  split
  case h_7 => rfl
  all_goals
    rename_i heq
    obtain ⟨rfl, _⟩ := List.cons.inj heq
    cases hc

theorem skips_parseMember (value : String → Parser α) : Skips (parseMember value) := by
  intro cs
  rw [parseMember, parseMember, parseString, parseString, skipWs, skipWs,
    List.dropWhile_idempotent]

/-- A member of an object, with its name, its colon and its value as one text. -/
def memberPiece (m : Piece String × Piece Doc) : Piece (String × Doc) where
  before := m.1.before
  text := m.1.text ++ (m.1.after ++ ':' :: (m.2.before ++ m.2.text))
  after := m.2.after
  value := (m.1.value, m.2.value)
  blank_before := m.1.blank_before
  blank_after := m.2.blank_after

theorem memberPiece_written (m : Piece String × Piece Doc) :
    (memberPiece m).written = m.1.written ++ ':' :: m.2.written := by
  simp [memberPiece, Piece.written]

theorem takes_member {m : Piece String × Piece Doc} (hname : Literal m.1.text m.1.value)
    (h : Takes (parseDoc depth) m.2.text m.2.value) :
    Takes (parseMember fun name cs => (parseDoc depth cs).map fun r => ((name, r.1), r.2))
      (memberPiece m).text (memberPiece m).value := by
  refine ⟨?_, ?_⟩
  · obtain ⟨cs, hcs⟩ := hname.starts
    refine ⟨'"', cs ++ (m.1.after ++ ':' :: (m.2.before ++ m.2.text)), ?_, rfl, by decide,
      by decide⟩
    rw [memberPiece, hcs]
    rfl
  · intro rest hrest
    have hvalue := h.takes rest hrest
    have hskip : parseDoc depth (m.2.before ++ (m.2.text ++ rest)) =
        parseDoc depth (m.2.text ++ rest) := by
      obtain ⟨c, cs, hc, hws, _⟩ := h.starts
      rw [← skips_parseDoc depth (m.2.before ++ _), hc, List.cons_append,
        skipWs_blank m.2.blank_before hws]
    rw [memberPiece]
    dsimp only
    rw [List.append_assoc, List.append_assoc, List.cons_append, List.append_assoc, parseMember,
      hname.parse]
    dsimp only
    rw [skipWs_blank m.1.blank_after rfl]
    change (parseDoc depth _).map _ = none ∨ (parseDoc depth _).map _ = _
    rw [hskip]
    rcases hvalue with hnone | hsome
    · rw [hnone]
      exact .inl rfl
    · rw [hsome]
      exact .inr rfl

/-- What the grammar derives is read as it stands, if it is read at all: the brackets may be too
deep. -/
theorem Denotes.takes (h : Denotes text doc) (depth : ℕ) : Takes (parseDoc depth) text doc := by
  induction h generalizing depth with
  | null =>
    refine ⟨Denotes.null.starts, fun rest hrest => ?_⟩
    cases depth with
    | zero => exact .inl rfl
    | succ depth => exact .inr rfl
  | yes =>
    refine ⟨Denotes.yes.starts, fun rest hrest => ?_⟩
    cases depth with
    | zero => exact .inl rfl
    | succ depth => exact .inr rfl
  | no =>
    refine ⟨Denotes.no.starts, fun rest hrest => ?_⟩
    cases depth with
    | zero => exact .inl rfl
    | succ depth => exact .inr rfl
  | @number lexeme hnumber =>
    refine ⟨(Denotes.number hnumber).starts, fun rest hrest => ?_⟩
    obtain ⟨hne, hchars⟩ := isNumberChar_of_isNumber hnumber
    obtain ⟨c, cs, hlexeme⟩ := List.exists_cons_of_ne_nil hne
    have htake : (lexeme ++ rest).takeWhile isNumberChar = lexeme := by
      rw [List.takeWhile_append_of_pos hchars]
      cases rest with
      | nil => exact List.append_nil lexeme
      | cons d rest =>
        rw [List.takeWhile_cons, hrest d rfl]
        exact List.append_nil lexeme
    cases depth with
    | zero => exact .inl rfl
    | succ depth =>
      right
      rw [hlexeme] at hchars hnumber htake ⊢
      rw [List.cons_append] at htake ⊢
      rw [parseDoc_number (hchars c List.mem_cons_self), htake, if_pos hnumber,
        ← List.cons_append, List.drop_left]
  | string hliteral =>
    refine ⟨(Denotes.string hliteral).starts, fun rest hrest => ?_⟩
    obtain ⟨cs, hcs⟩ := hliteral.starts
    have hread := hliteral.parse rest
    cases depth with
    | zero => exact .inl rfl
    | succ depth =>
      right
      rw [hcs, List.cons_append] at hread ⊢
      rw [parseDoc_quote, hread]
      rfl
  | emptyArray hws =>
    refine ⟨(Denotes.emptyArray hws).starts, fun rest hrest => ?_⟩
    cases depth with
    | zero => exact .inl rfl
    | succ depth =>
      rw [List.cons_append, parseDoc_bracket]
      split
      · exact .inl rfl
      · right
        rw [parseArray, ← List.cons_append, parseSeq_empty rfl (.inl rfl) hws]
        rfl
  | array item items hitems ih =>
    refine ⟨(Denotes.array item items hitems).starts, fun rest hrest => ?_⟩
    cases depth with
    | zero => exact .inl rfl
    | succ depth =>
      have htakes := @parseSeq_takes _ (parseDoc depth) rest ']' '[' rfl (.inl rfl)
        (skips_parseDoc depth) item items (fun p hp => ih p hp depth)
      rw [printArray, printSeq, List.cons_append] at *
      rw [parseDoc_bracket]
      split
      · exact .inl rfl
      · rw [parseArray]
        rcases htakes with hnone | hsome
        · rw [hnone]
          exact .inl rfl
        · rw [hsome]
          exact .inr rfl
  | emptyObject hws =>
    refine ⟨(Denotes.emptyObject hws).starts, fun rest hrest => ?_⟩
    cases depth with
    | zero => exact .inl rfl
    | succ depth =>
      rw [List.cons_append, parseDoc_brace]
      split
      · exact .inl rfl
      · right
        rw [parseObject, ← List.cons_append, parseSeq_empty rfl (.inr rfl) hws]
        rfl
  | object member members hname hmembers ih =>
    refine ⟨(Denotes.object member members hname hmembers).starts, fun rest hrest => ?_⟩
    cases depth with
    | zero => exact .inl rfl
    | succ depth =>
      have hmember : ∀ p ∈ memberPiece member :: members.map memberPiece,
          Takes (parseMember fun name cs => (parseDoc depth cs).map fun r => ((name, r.1), r.2))
            p.text p.value := by
        rw [← List.map_cons]
        intro p hp
        obtain ⟨m, hm, rfl⟩ := List.mem_map.mp hp
        exact takes_member (hname m hm) (ih m hm depth)
      have htakes := @parseSeq_takes _ _ rest '\x7d' '\x7b' rfl (.inr rfl) (skips_parseMember _)
        (memberPiece member) (members.map memberPiece) hmember
      have hwritten : (fun m : Piece String × Piece Doc => (memberPiece m).written) =
          fun m => m.1.written ++ ':' :: m.2.written := funext memberPiece_written
      rw [← List.map_cons, List.map_map, List.map_map, Function.comp_def, Function.comp_def,
        hwritten] at htakes
      rw [printObject, printSeq, List.cons_append]
      rw [printSeq, List.cons_append] at htakes
      rw [parseDoc_brace]
      split
      · exact .inl rfl
      · rw [parseObject]
        rcases htakes with hnone | hsome
        · rw [hnone]
          exact .inl rfl
        · rw [hsome]
          exact .inr rfl

theorem IsDocument.parse (h : IsDocument text doc) (depth : ℕ) :
    parseDocument (parseDoc depth) text = none ∨
      parseDocument (parseDoc depth) text = some doc := by
  cases h with
  | value p h =>
    have hends : Ends [] := by
      intro c hc
      cases hc
    have hpiece := (h.takes depth).piece (skips_parseDoc depth) hends
    rw [List.append_nil, List.append_nil] at hpiece
    rw [parseDocument]
    rcases hpiece with hnone | hsome
    · rw [hnone]
      exact .inl rfl
    · rw [hsome]
      dsimp only
      rw [if_pos (skipWs_of_blank p.blank_after)]
      exact .inr rfl

theorem reads_doc_null : Reads (parseDoc (depth + 1)) ['n', 'u', 'l', 'l'] .null where
  starts := ⟨'n', _, rfl, rfl, by decide, by decide⟩
  reads _ _ := rfl

theorem reads_doc_string (s : String) :
    Reads (parseDoc (depth + 1)) (printString s) (.string s) where
  starts := (reads_string s).starts
  reads rest _ := by
    have hread := parseString_print s rest
    rw [printString, List.cons_append] at hread ⊢
    rw [parseDoc_quote, hread]
    rfl

theorem reads_doc_object (members : List (String × List Char × Doc))
    (h : ∀ m ∈ members, Reads (parseDoc (depth + 1)) m.2.1 m.2.2) :
    Reads (parseDoc (depth + 2)) (printObject (members.map fun m => printMember m.1 m.2.1))
      (.object (members.map fun m => (m.1, m.2.2))) := by
  have hread := @reads_object _
    (fun name cs => (parseDoc (depth + 1) cs).map fun r => ((name, r.1), r.2))
    (members.map fun m => (printMember m.1 m.2.1, m.1, m.2.2)) ?_
  · simp only [List.map_map, Function.comp_def] at hread
    refine ⟨hread.starts, fun rest hrest => ?_⟩
    have hthis := hread.reads rest hrest
    rw [printObject, printSeq, List.cons_append] at hthis ⊢
    rw [parseDoc_brace, if_neg (Nat.succ_ne_zero depth), hthis]
    rfl
  · intro x hx
    obtain ⟨m, hm, rfl⟩ := List.mem_map.mp hx
    apply reads_member
    refine ⟨(h m hm).starts, fun rest hrest => ?_⟩
    rw [(h m hm).reads rest hrest]
    rfl

end Values

/-- Some object, at any depth, has two members of one name. -/
inductive Repeats : Doc → Prop
  | here (h : ¬ (members.map Prod.fst).Nodup) : Repeats (.object members)
  | item (hv : v ∈ items) (h : Repeats v) : Repeats (.array items)
  | member (hm : m ∈ members) (h : Repeats m.2) : Repeats (.object members)

end Buzz.Json
