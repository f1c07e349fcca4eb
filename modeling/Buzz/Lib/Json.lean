import Buzz.Lib.Utf8

namespace Buzz.Json
set_option autoImplicit true
open Hex

/-- A parser takes a value off the front of the text. -/
abbrev Parser (α : Type) := List Char → Option (α × List Char)

def isWs (c : Char) : Bool :=
  c == ' ' || c == '\n' || c == '\t' || c == '\r'

def skipWs (cs : List Char) : List Char :=
  cs.dropWhile isWs

/-- A character inside a string literal. -/
def escapeChar (c : Char) : List Char :=
  if c = '"' then ['\\', '"']
  else if c = '\\' then ['\\', '\\']
  else if c = '\x08' then ['\\', 'b']
  else if c = '\t' then ['\\', 't']
  else if c = '\n' then ['\\', 'n']
  else if c = '\x0c' then ['\\', 'f']
  else if c = '\r' then ['\\', 'r']
  else if c.toNat < 32 then
    ['\\', 'u', '0', '0', digitChar (Fin.ofNat 16 (c.toNat / 16)),
      digitChar (Fin.ofNat 16 (c.toNat % 16))]
  else [c]

def printString (s : String) : List Char :=
  '"' :: (s.toList.flatMap escapeChar ++ ['"'])

/-- A code unit written with four hexadecimal digits. -/
def parseUnit : Parser Nat
  | a :: b :: c :: d :: rest =>
    match digitVal a, digitVal b, digitVal c, digitVal d with
    | some a, some b, some c, some d => some (((a.val * 16 + b.val) * 16 + c.val) * 16 + d.val, rest)
    | _, _, _, _ => none
  | _ => none

/-- The character that an escape stands for. A high surrogate needs a low one behind it. -/
def parseEscape : Parser Char
  | '"' :: rest => some ('"', rest)
  | '\\' :: rest => some ('\\', rest)
  | '/' :: rest => some ('/', rest)
  | 'b' :: rest => some ('\x08', rest)
  | 'f' :: rest => some ('\x0c', rest)
  | 'n' :: rest => some ('\n', rest)
  | 'r' :: rest => some ('\r', rest)
  | 't' :: rest => some ('\t', rest)
  | 'u' :: rest =>
    match parseUnit rest with
    | none => none
    | some (high, rest) =>
      if 0xD800 ≤ high ∧ high < 0xDC00 then
        match rest with
        | '\\' :: 'u' :: rest =>
          match parseUnit rest with
          | none => none
          | some (low, rest) =>
            if 0xDC00 ≤ low ∧ low < 0xE000 then
              some (Char.ofNat (0x10000 + (high - 0xD800) * 0x400 + (low - 0xDC00)), rest)
            else none
        | _ => none
      else if 0xDC00 ≤ high ∧ high < 0xE000 then none
      else some (Char.ofNat high, rest)
  | _ => none

/-- The rest of a string literal, with fuel for its characters. -/
def parseStringBody : Nat → Parser (List Char)
  | 0, _ => none
  | _ + 1, [] => none
  | fuel + 1, c :: rest =>
    if c = '"' then some ([], rest)
    else if c = '\\' then
      match parseEscape rest with
      | none => none
      | some (e, rest) => (parseStringBody fuel rest).map fun r => (e :: r.1, r.2)
    else if c.toNat < 32 then none
    else (parseStringBody fuel rest).map fun r => (c :: r.1, r.2)

def parseString : Parser String := fun cs =>
  match skipWs cs with
  | '"' :: rest => (parseStringBody rest.length rest).map fun r => (String.ofList r.1, r.2)
  | _ => none

/-- `null` or a value. -/
def parseOption (p : Parser α) : Parser (Option α) := fun cs =>
  match skipWs cs with
  | 'n' :: 'u' :: 'l' :: 'l' :: rest => some (none, rest)
  | cs => (p cs).map fun r => (some r.1, r.2)

def printOption (pr : α → List Char) : Option α → List Char
  | none => ['n', 'u', 'l', 'l']
  | some a => pr a

/-- The items behind the first one, up to the closing character. -/
def parseItems (close : Char) (p : Parser α) : Nat → Parser (List α)
  | 0, _ => none
  | fuel + 1, cs =>
    match skipWs cs with
    | [] => none
    | c :: rest =>
      if c = close then some ([], rest)
      else if c = ',' then
        match p rest with
        | none => none
        | some (a, rest) => (parseItems close p fuel rest).map fun r => (a :: r.1, r.2)
      else none

/-- A bracketed list with commas. -/
def parseSeq (opening close : Char) (p : Parser α) : Parser (List α) := fun cs =>
  match skipWs cs with
  | [] => none
  | c :: rest =>
    if c = opening then
      if (skipWs rest).head? = some close then some ([], (skipWs rest).tail)
      else
        match p (skipWs rest) with
        | none => none
        | some (a, rest) => (parseItems close p rest.length rest).map fun r => (a :: r.1, r.2)
    else none

def printSeq (opening close : Char) (items : List (List Char)) : List Char :=
  opening :: (List.intercalate [','] items ++ [close])

/-- A member of an object. Its name decides how its value is read. -/
def parseMember (value : String → Parser α) : Parser α := fun cs =>
  match parseString cs with
  | none => none
  | some (name, rest) =>
    match skipWs rest with
    | ':' :: rest => value name rest
    | _ => none

def printMember (name : String) (value : List Char) : List Char :=
  printString name ++ ':' :: value

def parseArray (p : Parser α) : Parser (List α) :=
  parseSeq '[' ']' p

def parseObject (value : String → Parser α) : Parser (List α) :=
  parseSeq '\x7b' '\x7d' (parseMember value)

def printArray (items : List (List Char)) : List Char :=
  printSeq '[' ']' items

def printObject (members : List (List Char)) : List Char :=
  printSeq '\x7b' '\x7d' members

def isDigit (c : Char) : Bool :=
  '0' ≤ c && c ≤ '9'

/-- Digits without a superfluous zero in front. -/
def isInteger : List Char → Bool
  | [] => false
  | ['0'] => true
  | c :: cs => c != '0' && (c :: cs).all isDigit

def isFraction : List Char → Bool
  | [] => true
  | c :: cs => c == '.' && !cs.isEmpty && cs.all isDigit

def isExponent : List Char → Bool
  | [] => true
  | '+' :: cs => !cs.isEmpty && cs.all isDigit
  | '-' :: cs => !cs.isEmpty && cs.all isDigit
  | cs => !cs.isEmpty && cs.all isDigit

def isNumber (cs : List Char) : Bool :=
  let cs := if cs.head? = some '-' then cs.tail else cs
  let mantissa := cs.takeWhile fun c => c != 'e' && c != 'E'
  let int := mantissa.takeWhile isDigit
  isInteger int && isFraction (mantissa.drop int.length) &&
    (cs.length == mantissa.length ||
      (cs.length != mantissa.length + 1 && isExponent (cs.drop (mantissa.length + 1))))

def isNumberChar (c : Char) : Bool :=
  isDigit c || c == '-' || c == '+' || c == '.' || c == 'e' || c == 'E'

def digitsVal (cs : List Char) : Nat :=
  cs.foldl (fun n c => 10 * n + (c.toNat - 48)) 0

/-- An unsigned integer below a bound. Any other number is refused. -/
def parseUnsigned (bound : Nat) : Parser Nat := fun cs =>
  let cs := skipWs cs
  let lexeme := cs.takeWhile isNumberChar
  if isInteger lexeme && digitsVal lexeme < bound then
    some (digitsVal lexeme, cs.drop lexeme.length)
  else none

def printNat (n : Nat) : List Char :=
  Nat.toDigits 10 n

/-- Pass over a value of any kind, with fuel for its depth. -/
def skipValue : Nat → Parser Unit
  | 0, _ => none
  | fuel + 1, cs =>
    match skipWs cs with
    | 'n' :: 'u' :: 'l' :: 'l' :: rest => some ((), rest)
    | 't' :: 'r' :: 'u' :: 'e' :: rest => some ((), rest)
    | 'f' :: 'a' :: 'l' :: 's' :: 'e' :: rest => some ((), rest)
    | '"' :: rest => (parseString ('"' :: rest)).map fun r => ((), r.2)
    | '[' :: rest => (parseArray (skipValue fuel) ('[' :: rest)).map fun r => ((), r.2)
    | '\x7b' :: rest =>
      (parseObject (fun _ => skipValue fuel) ('\x7b' :: rest)).map fun r => ((), r.2)
    | cs =>
      if isNumber (cs.takeWhile isNumberChar) then
        some ((), cs.drop (cs.takeWhile isNumberChar).length)
      else none

/-- The whole text is one value. -/
def parseDocument (p : Parser α) (cs : List Char) : Option α :=
  match p cs with
  | some (a, rest) => if skipWs rest = [] then some a else none
  | none => none

/-- What may follow a value inside a document. -/
def Delimited (rest : List Char) : Prop :=
  ∀ c ∈ rest.head?, c = ',' ∨ c = ']' ∨ c = '\x7d'

/-- The text of a value: it starts with a character of its own, and the parser takes exactly it
off the front. -/
structure Reads (p : Parser α) (text : List Char) (a : α) : Prop where
  starts : ∃ c cs, text = c :: cs ∧ isWs c = false ∧ c ≠ ']' ∧ c ≠ '\x7d'
  reads : ∀ rest, Delimited rest → p (text ++ rest) = some (a, rest)

theorem skipWs_cons (h : isWs c = false) : skipWs (c :: cs) = c :: cs := by
  rw [skipWs, List.dropWhile_cons, h]
  rfl

theorem Reads.skipWs_eq (h : Reads p text a) : skipWs (text ++ rest) = text ++ rest := by
  obtain ⟨c, cs, rfl, hc, _⟩ := h.starts
  exact skipWs_cons hc

theorem parseUnit_control (h : n < 256) :
    parseUnit ('0' :: '0' :: digitChar (Fin.ofNat 16 (n / 16)) ::
      digitChar (Fin.ofNat 16 (n % 16)) :: rest) = some (n, rest) := by
  have hzero : digitVal '0' = some 0 := rfl
  simp only [parseUnit, hzero, digitVal_digitChar, Option.some.injEq, Prod.mk.injEq, and_true,
    Fin.val_ofNat, Fin.val_zero]
  omega

/-- A character stands for itself, or its escape reads back. -/
theorem escapeChar_cases (c : Char) :
    (∃ e, escapeChar c = '\\' :: e ∧ ∀ rest, parseEscape (e ++ rest) = some (c, rest)) ∨
      (escapeChar c = [c] ∧ c ≠ '"' ∧ c ≠ '\\' ∧ ¬c.toNat < 32) := by
  unfold escapeChar
  split_ifs with h1 h2 h3 h4 h5 h6 h7 h8
  · exact .inl ⟨['"'], rfl, fun _ => by rw [h1]; rfl⟩
  · exact .inl ⟨['\\'], rfl, fun _ => by rw [h2]; rfl⟩
  · exact .inl ⟨['b'], rfl, fun _ => by rw [h3]; rfl⟩
  · exact .inl ⟨['t'], rfl, fun _ => by rw [h4]; rfl⟩
  · exact .inl ⟨['n'], rfl, fun _ => by rw [h5]; rfl⟩
  · exact .inl ⟨['f'], rfl, fun _ => by rw [h6]; rfl⟩
  · exact .inl ⟨['r'], rfl, fun _ => by rw [h7]; rfl⟩
  · refine .inl ⟨_, rfl, fun rest => ?_⟩
    simp only [List.cons_append, List.nil_append, parseEscape]
    rw [parseUnit_control (by omega)]
    dsimp only
    rw [if_neg (by omega), if_neg (by omega), Char.ofNat_toNat]
  · exact .inr ⟨rfl, h1, h2, h8⟩

theorem parseStringBody_print (s : List Char) (rest : List Char) (fuel : Nat)
    (hf : (s.flatMap escapeChar).length < fuel) :
    parseStringBody fuel (s.flatMap escapeChar ++ '"' :: rest) = some (s, rest) := by
  induction s generalizing fuel with
  | nil =>
    obtain ⟨fuel, rfl⟩ := Nat.exists_eq_succ_of_ne_zero (Nat.ne_of_gt (Nat.zero_lt_of_lt hf))
    rw [List.flatMap_nil, List.nil_append, parseStringBody, if_pos rfl]
  | cons c s ih =>
    obtain ⟨fuel, rfl⟩ := Nat.exists_eq_succ_of_ne_zero (Nat.ne_of_gt (Nat.zero_lt_of_lt hf))
    rw [List.flatMap_cons] at hf ⊢
    rw [List.length_append] at hf
    rcases escapeChar_cases c with ⟨e, he, hread⟩ | ⟨he, hq, hb, hctl⟩
    · rw [he, List.length_cons] at hf
      rw [he, List.cons_append, List.cons_append, parseStringBody, if_neg (by decide), if_pos rfl,
        List.append_assoc, hread]
      dsimp only
      rw [ih fuel (by omega)]
      rfl
    · rw [he, List.length_singleton] at hf
      rw [he, List.singleton_append, List.cons_append, parseStringBody, if_neg hq, if_neg hb,
        if_neg hctl, ih fuel (by omega)]
      rfl

theorem parseString_print (s : String) (rest : List Char) :
    parseString (printString s ++ rest) = some (s, rest) := by
  have hbody := parseStringBody_print s.toList rest
    (s.toList.flatMap escapeChar ++ '"' :: rest).length (by simp)
  rw [printString, List.cons_append, parseString, skipWs_cons rfl, List.append_assoc,
    List.singleton_append]
  change (parseStringBody _ _).map _ = _
  rw [hbody, Option.map_some, String.ofList_toList]

theorem reads_string (s : String) : Reads parseString (printString s) s where
  starts := ⟨'"', _, rfl, rfl, by decide, by decide⟩
  reads rest _ := parseString_print s rest

theorem reads_none (p : Parser α) : Reads (parseOption p) ['n', 'u', 'l', 'l'] none where
  starts := ⟨'n', _, rfl, rfl, by decide, by decide⟩
  reads _ _ := rfl

theorem reads_some_string (s : String) :
    Reads (parseOption parseString) (printString s) (some s) where
  starts := (reads_string s).starts
  reads rest _ := by
    have hread := parseString_print s rest
    rw [printString, List.cons_append] at hread ⊢
    rw [parseOption, skipWs_cons rfl]
    change (parseString _).map _ = _
    rw [hread]
    rfl

theorem reads_member {value : String → Parser α} (h : Reads (value name) text a) :
    Reads (parseMember value) (printMember name text) a where
  starts := ⟨'"', _, rfl, rfl, by decide, by decide⟩
  reads rest hrest := by
    rw [printMember, List.append_assoc, parseMember, parseString_print]
    dsimp only
    rw [List.cons_append, skipWs_cons rfl]
    exact h.reads rest hrest

theorem delimited_items (hclose : close = ']' ∨ close = '\x7d') (items : List (List Char × α)) :
    Delimited (items.flatMap (fun x => ',' :: x.1) ++ close :: rest) := by
  intro c hc
  cases items with
  | nil =>
    cases hc
    exact .inr hclose
  | cons x items =>
    cases hc
    exact .inl rfl

theorem parseItems_print (hclose : close = ']' ∨ close = '\x7d') (items : List (List Char × α))
    (h : ∀ x ∈ items, Reads p x.1 x.2) (rest : List Char) (fuel : Nat) (hf : items.length < fuel) :
    parseItems close p fuel (items.flatMap (fun x => ',' :: x.1) ++ close :: rest) =
      some (items.map Prod.snd, rest) := by
  have hws : isWs close = false := by
    rcases hclose with rfl | rfl <;> rfl
  induction items generalizing fuel with
  | nil =>
    obtain ⟨fuel, rfl⟩ := Nat.exists_eq_succ_of_ne_zero (Nat.ne_of_gt (Nat.zero_lt_of_lt hf))
    rw [List.flatMap_nil, List.nil_append, parseItems, skipWs_cons hws]
    dsimp only
    rw [if_pos rfl]
    rfl
  | cons x items ih =>
    obtain ⟨fuel, rfl⟩ := Nat.exists_eq_succ_of_ne_zero (Nat.ne_of_gt (Nat.zero_lt_of_lt hf))
    rw [List.length_cons] at hf
    have hcomma : ',' ≠ close := by
      rcases hclose with rfl | rfl <;> decide
    rw [List.flatMap_cons, List.cons_append, List.cons_append, parseItems, skipWs_cons rfl]
    dsimp only
    rw [if_neg hcomma, if_pos rfl, List.append_assoc,
      (h x List.mem_cons_self).reads _ (delimited_items hclose items)]
    dsimp only
    rw [ih (fun y hy => h y (List.mem_cons_of_mem _ hy)) fuel (by omega)]
    rfl

theorem intercalate_cons_flatMap {sep : Char} (x : List Char) (items : List (List Char)) :
    List.intercalate [sep] (x :: items) = x ++ items.flatMap fun y => sep :: y := by
  induction items generalizing x with
  | nil => simp [List.intercalate]
  | cons y items ih =>
    rw [List.intercalate_cons_cons, ih, List.flatMap_cons]
    simp

theorem reads_seq (hopen : isWs opening = false ∧ opening ≠ ']' ∧ opening ≠ '\x7d')
    (hclose : close = ']' ∨ close = '\x7d') (items : List (List Char × α))
    (h : ∀ x ∈ items, Reads p x.1 x.2) :
    Reads (parseSeq opening close p) (printSeq opening close (items.map Prod.fst))
      (items.map Prod.snd) where
  starts := ⟨opening, _, rfl, hopen⟩
  reads rest hrest := by
    have hws : isWs close = false := by
      rcases hclose with rfl | rfl <;> rfl
    rw [printSeq, List.cons_append, parseSeq, skipWs_cons hopen.1]
    dsimp only
    rw [if_pos rfl, List.append_assoc, List.singleton_append]
    cases items with
    | nil =>
      rw [List.map_nil, List.intercalate, List.intersperse, List.flatten_nil, List.nil_append,
        skipWs_cons hws, List.head?_cons, if_pos rfl]
      rfl
    | cons x items =>
      have hx := h x List.mem_cons_self
      obtain ⟨c, cs, hc, hcws, hbr, hbc⟩ := hx.starts
      have hne : c ≠ close := by
        rcases hclose with rfl | rfl
        · exact hbr
        · exact hbc
      have htail := parseItems_print hclose items (fun y hy => h y (List.mem_cons_of_mem _ hy)) rest
      have hflat : (items.map Prod.fst).flatMap (fun y => ',' :: y) =
          items.flatMap fun y => ',' :: y.1 := by
        rw [List.flatMap_map]
      rw [List.map_cons, intercalate_cons_flatMap, hflat, List.append_assoc, hx.skipWs_eq]
      rw [if_neg, hx.reads _ (delimited_items hclose items)]
      · dsimp only
        rw [htail]
        · rfl
        · rw [List.length_append, List.length_cons]
          have hone : ∀ i ∈ items.map fun y => (',' :: y.1).length, 1 ≤ i := by
            intro i hi
            obtain ⟨y, _, rfl⟩ := List.mem_map.mp hi
            exact Nat.succ_pos _
          have hlen := List.length_le_sum_of_one_le _ hone
          rw [← List.length_flatMap, List.length_map] at hlen
          omega
      · rw [hc, List.cons_append, List.head?_cons]
        intro he
        exact hne (Option.some.inj he)

theorem reads_array (items : List (List Char × α)) (h : ∀ x ∈ items, Reads p x.1 x.2) :
    Reads (parseArray p) (printArray (items.map Prod.fst)) (items.map Prod.snd) :=
  reads_seq ⟨rfl, by decide, by decide⟩ (.inl rfl) items h

theorem reads_object {value : String → Parser α} (members : List (List Char × α))
    (h : ∀ x ∈ members, Reads (parseMember value) x.1 x.2) :
    Reads (parseObject value) (printObject (members.map Prod.fst)) (members.map Prod.snd) :=
  reads_seq ⟨rfl, by decide, by decide⟩ (.inr rfl) members h

theorem parseDocument_of_reads (h : Reads p text a) : parseDocument p text = some a := by
  have hread := h.reads [] (by simp [Delimited])
  rw [List.append_nil] at hread
  rw [parseDocument, hread]
  rfl

/-- Text of one-byte characters that need no escape. -/
def Plain (cs : List Char) : Prop :=
  ∀ c ∈ cs, escapeChar c = [c] ∧ c.utf8Size = 1

theorem plain_of_ascii (c : Char) (hlow : 32 ≤ c.toNat) (hhigh : c.toNat < 128) (hq : c ≠ '"')
    (hb : c ≠ '\\') : escapeChar c = [c] ∧ c.utf8Size = 1 := by
  constructor
  · rcases escapeChar_cases c with ⟨e, he, _⟩ | ⟨he, _⟩
    · unfold escapeChar at he ⊢
      rw [if_neg hq, if_neg hb] at he ⊢
      split_ifs at he ⊢ with h3 h4 h5 h6 h7 h8
      · rw [h3] at hlow
        exact absurd hlow (by decide)
      · rw [h4] at hlow
        exact absurd hlow (by decide)
      · rw [h5] at hlow
        exact absurd hlow (by decide)
      · rw [h6] at hlow
        exact absurd hlow (by decide)
      · rw [h7] at hlow
        exact absurd hlow (by decide)
      · omega
      · rfl
    · exact he
  · rw [Char.utf8Size_eq_one_iff, UInt32.le_iff_toNat_le]
    exact Nat.le_of_lt_succ hhigh

theorem flatMap_escapeChar (h : Plain cs) : cs.flatMap escapeChar = cs := by
  induction cs with
  | nil => rfl
  | cons c cs ih =>
    rw [Plain, List.forall_mem_cons] at h
    rw [List.flatMap_cons, h.1.1, ih h.2]
    rfl

theorem textSize_printString (h : Plain s.toList) :
    textSize (printString s) = s.utf8ByteSize + 2 := by
  rw [printString, flatMap_escapeChar h, textSize_cons, textSize_append, utf8ByteSize_eq]
  have hq : textSize ['"'] = 1 := by decide
  have hq' : ('"' : Char).utf8Size = 1 := by decide
  omega

theorem textSize_printMember (name : String) (value : List Char) :
    textSize (printMember name value) = textSize (printString name) + 1 + textSize value := by
  rw [printMember, textSize_append, textSize_cons]
  have hc : (':' : Char).utf8Size = 1 := by decide
  omega

theorem textSize_intercalate (items : List (List Char)) :
    textSize (List.intercalate [','] items) = (items.map textSize).sum + (items.length - 1) := by
  cases items with
  | nil => rfl
  | cons x items =>
    rw [intercalate_cons_flatMap, textSize_append, List.map_cons, List.sum_cons, List.length_cons]
    have hrest : textSize (items.flatMap fun y => ',' :: y) =
        (items.map textSize).sum + items.length := by
      induction items with
      | nil => rfl
      | cons y items ih =>
        have hc : (',' : Char).utf8Size = 1 := by decide
        rw [List.flatMap_cons, textSize_append, textSize_cons, ih, List.map_cons, List.sum_cons,
          List.length_cons, hc]
        omega
    omega

theorem textSize_printArray (items : List (List Char)) :
    textSize (printArray items) = (items.map textSize).sum + (items.length - 1) + 2 := by
  have ho : ('[' : Char).utf8Size = 1 := by decide
  have hc : textSize [']'] = 1 := by decide
  rw [printArray, printSeq, textSize_cons, textSize_append, textSize_intercalate, ho, hc]
  omega

theorem textSize_printObject (items : List (List Char)) :
    textSize (printObject items) = (items.map textSize).sum + (items.length - 1) + 2 := by
  have ho : ('\x7b' : Char).utf8Size = 1 := by decide
  have hc : textSize ['\x7d'] = 1 := by decide
  rw [printObject, printSeq, textSize_cons, textSize_append, textSize_intercalate, ho, hc]
  omega

end Buzz.Json
