import Buzz.Lib.Json

namespace Buzz.Json
set_option autoImplicit true

/-- How finite floating-point numbers are written: the shortest text that reads back, which is
never the text of an integer. -/
structure FloatFormat (F : Type) where
  format : F → List Char
  injective : Function.Injective format
  numberChars : ∀ x, ∀ c ∈ format x, isNumberChar c = true
  notInteger : ∀ x, ∃ c ∈ format x, c = '.' ∨ c = 'e'

/-- Floating-point numbers by their texts. -/
def FloatText : Type :=
  { cs : List Char // (∀ c ∈ cs, isNumberChar c = true) ∧ ∃ c ∈ cs, c = '.' ∨ c = 'e' }

def floatText : FloatFormat FloatText where
  format := Subtype.val
  injective := Subtype.val_injective
  numberChars x := x.property.1
  notInteger x := x.property.2

/-- A number of a JSON value. -/
inductive Number (F : Type) where
  | posInt (n : UInt64)
  | negInt (i : Int64) (h : i.toInt < 0)
  | float (x : F)

inductive Value (F : Type) where
  | null
  | bool (b : Bool)
  | number (n : Number F)
  | string (s : String)
  | array (items : List (Value F))
  | object (members : List (String × Value F))

variable {F : Type}

/-- Induction over the values inside a value. -/
theorem Value.ind {P : Value F → Prop} (null : P .null) (bool : ∀ b, P (.bool b))
    (number : ∀ n, P (.number n)) (string : ∀ s, P (.string s))
    (array : ∀ items, (∀ v ∈ items, P v) → P (.array items))
    (object : ∀ members, (∀ m ∈ members, P m.2) → P (.object members)) : ∀ v, P v := by
  apply @Value.rec F P (fun items => ∀ v ∈ items, P v) (fun members => ∀ m ∈ members, P m.2)
    (fun m => P m.2) null bool number string array object
  · exact fun v hv => (List.not_mem_nil hv).elim
  · exact fun v items hv ih => List.forall_mem_cons.mpr ⟨hv, ih⟩
  · exact fun m hm => (List.not_mem_nil hm).elim
  · exact fun m members hm ih => List.forall_mem_cons.mpr ⟨hm, ih⟩
  · exact fun k v hv => hv

/-- Put a member where its key belongs. A key that is there gets the new value. -/
def insertKey (k : String) (v : α) : List (String × α) → List (String × α)
  | [] => [(k, v)]
  | (l, w) :: ms =>
    if k < l then (k, v) :: (l, w) :: ms
    else if k = l then (k, v) :: ms
    else (l, w) :: insertKey k v ms

/-- The members of a map in the order of their keys. -/
def collect (ms : List (String × α)) : List (String × α) :=
  ms.foldl (fun acc m => insertKey m.1 m.2 acc) []

theorem insertKey_map (g : α → β) (k : String) (v : α) (ms : List (String × α)) :
    insertKey k (g v) (ms.map fun m => (m.1, g m.2)) =
      (insertKey k v ms).map fun m => (m.1, g m.2) := by
  induction ms with
  | nil => rfl
  | cons m ms ih =>
    rw [List.map_cons, insertKey, insertKey]
    split
    · rfl
    · split
      · rfl
      · rw [ih, List.map_cons]

theorem collect_map (g : α → β) (ms : List (String × α)) :
    collect (ms.map fun m => (m.1, g m.2)) = (collect ms).map fun m => (m.1, g m.2) := by
  have hacc (acc : List (String × α)) :
      (ms.map fun m => (m.1, g m.2)).foldl (fun acc m => insertKey m.1 m.2 acc)
        (acc.map fun m => (m.1, g m.2)) =
      (ms.foldl (fun acc m => insertKey m.1 m.2 acc) acc).map fun m => (m.1, g m.2) := by
    induction ms generalizing acc with
    | nil => rfl
    | cons m ms ih =>
      rw [List.map_cons, List.foldl_cons, List.foldl_cons]
      dsimp only
      rw [insertKey_map, ih]
  exact hacc []

mutual

/-- The value with its members in the order of their keys. Two values are the same JSON value if
they agree in this order. -/
def sortKeys : Value F → Value F
  | .array items => .array (sortItems items)
  | .object members => .object (collect (sortMembers members))
  | v => v

def sortItems : List (Value F) → List (Value F)
  | [] => []
  | v :: vs => sortKeys v :: sortItems vs

def sortMembers : List (String × Value F) → List (String × Value F)
  | [] => []
  | (k, v) :: ms => (k, sortKeys v) :: sortMembers ms

end

def writeNumber (fmt : FloatFormat F) : Number F → List Char
  | .posInt n => printNat n.toNat
  | .negInt i _ => '-' :: printNat i.toInt.natAbs
  | .float x => fmt.format x

mutual

/-- The compact text of a value, with its members as they stand. -/
def write (fmt : FloatFormat F) : Value F → List Char
  | .null => ['n', 'u', 'l', 'l']
  | .bool true => ['t', 'r', 'u', 'e']
  | .bool false => ['f', 'a', 'l', 's', 'e']
  | .number n => writeNumber fmt n
  | .string s => printString s
  | .array items => printArray (writeItems fmt items)
  | .object members => printObject (writeMembers fmt members)

def writeItems (fmt : FloatFormat F) : List (Value F) → List (List Char)
  | [] => []
  | v :: vs => write fmt v :: writeItems fmt vs

def writeMembers (fmt : FloatFormat F) : List (String × Value F) → List (List Char)
  | [] => []
  | (k, v) :: ms => printMember k (write fmt v) :: writeMembers fmt ms

end

theorem sortItems_eq (vs : List (Value F)) : sortItems vs = vs.map sortKeys := by
  induction vs with
  | nil => rfl
  | cons v vs ih => rw [sortItems, ih, List.map_cons]

theorem sortMembers_eq (ms : List (String × Value F)) :
    sortMembers ms = ms.map fun m => (m.1, sortKeys m.2) := by
  induction ms with
  | nil => rfl
  | cons m ms ih => rw [sortMembers, ih, List.map_cons]

variable {fmt : FloatFormat F}

theorem writeItems_eq (vs : List (Value F)) : writeItems fmt vs = vs.map (write fmt) := by
  induction vs with
  | nil => rfl
  | cons v vs ih => rw [writeItems, ih, List.map_cons]

theorem writeMembers_eq (ms : List (String × Value F)) :
    writeMembers fmt ms = ms.map fun m => printMember m.1 (write fmt m.2) := by
  induction ms with
  | nil => rfl
  | cons m ms ih => rw [writeMembers, ih, List.map_cons]

theorem isDigit_of_mem_printNat (h : c ∈ printNat n) : isDigit c = true := by
  have hd := Nat.isDigit_of_mem_toDigits (by decide) (by decide) h
  rw [Char.isDigit, Bool.and_eq_true, decide_eq_true_eq, decide_eq_true_eq] at hd
  rw [isDigit, Bool.and_eq_true, decide_eq_true_eq, decide_eq_true_eq]
  exact hd

theorem printNat_injective : Function.Injective printNat := by
  intro m n h
  have hm := Nat.ofDigitChars_ten_toDigits (n := m)
  rw [show Nat.toDigits 10 m = Nat.toDigits 10 n from h, Nat.ofDigitChars_ten_toDigits] at hm
  exact hm.symm

theorem numberChars_writeNumber (n : Number F) :
    ∀ c ∈ writeNumber fmt n, isNumberChar c = true := by
  have hdigit (k : Nat) : ∀ c ∈ printNat k, isNumberChar c = true := by
    intro c hc
    rw [isNumberChar, isDigit_of_mem_printNat hc]
    rfl
  cases n with
  | posInt n => exact hdigit _
  | negInt i h => exact List.forall_mem_cons.mpr ⟨rfl, hdigit _⟩
  | float x => exact fmt.numberChars x

theorem writeNumber_ne_nil (n : Number F) : writeNumber fmt n ≠ [] := by
  cases n with
  | posInt n => exact Nat.toDigits_ne_nil
  | negInt i h => exact List.cons_ne_nil _ _
  | float x =>
    obtain ⟨c, hc, _⟩ := fmt.notInteger x
    exact List.ne_nil_of_mem hc

/-- An integer is digits behind at most one sign, so no float has its text. -/
theorem format_ne_integer (x : F) (n : Nat) :
    fmt.format x ≠ printNat n ∧ fmt.format x ≠ '-' :: printNat n := by
  obtain ⟨c, hc, hpoint⟩ := fmt.notInteger x
  have hnot : c ∉ printNat n := by
    intro hm
    have hd := isDigit_of_mem_printNat hm
    rcases hpoint with rfl | rfl
    · exact absurd hd (by decide)
    · exact absurd hd (by decide)
  have hsign : c ≠ '-' := by
    rcases hpoint with rfl | rfl
    · decide
    · decide
  constructor
  · intro h
    rw [h] at hc
    exact hnot hc
  · intro h
    rw [h] at hc
    exact (List.mem_cons.mp hc).elim hsign hnot

theorem printNat_ne_neg (m n : Nat) : printNat m ≠ '-' :: printNat n := by
  intro h
  have hm : '-' ∈ printNat m := by
    rw [h]
    exact List.mem_cons_self
  exact absurd (isDigit_of_mem_printNat hm) (by decide)

theorem writeNumber_injective : Function.Injective (writeNumber fmt) := by
  intro m n h
  cases m with
  | posInt m =>
    cases n with
    | posInt n => rw [UInt64.toNat_inj.mp (printNat_injective h)]
    | negInt j hj => exact (printNat_ne_neg _ _ h).elim
    | float y => exact ((format_ne_integer y _).1 h.symm).elim
  | negInt i hi =>
    cases n with
    | posInt n => exact (printNat_ne_neg _ _ h.symm).elim
    | negInt j hj =>
      have habs := printNat_injective (List.tail_eq_of_cons_eq h)
      have hint : i.toInt = j.toInt := by omega
      obtain rfl := Int64.toInt_inj.mp hint
      rfl
    | float y => exact ((format_ne_integer y _).2 h.symm).elim
  | float x =>
    cases n with
    | posInt n => exact ((format_ne_integer x _).1 h).elim
    | negInt j hj => exact ((format_ne_integer x _).2 h).elim
    | float y => rw [fmt.injective h]

theorem takeWhile_number (hu : ∀ c ∈ u, isNumberChar c = true) (hx : Delimited x) :
    (u ++ x).takeWhile isNumberChar = u := by
  rw [List.takeWhile_append_of_pos hu]
  cases x with
  | nil => exact List.append_nil u
  | cons c x =>
    have hc : isNumberChar c = false := by
      rcases hx c rfl with rfl | rfl | rfl
      · rfl
      · rfl
      · rfl
    rw [List.takeWhile_cons, hc]
    exact List.append_nil u

/-- What kind of value a text is of shows in its first character. -/
inductive Kind where
  | null | bool | number | string | array | object
deriving DecidableEq

def Value.kind : Value F → Kind
  | .null => .null
  | .bool _ => .bool
  | .number _ => .number
  | .string _ => .string
  | .array _ => .array
  | .object _ => .object

def leadKind (c : Char) : Option Kind :=
  if isNumberChar c then some .number
  else if c = 'n' then some .null
  else if c = 't' ∨ c = 'f' then some .bool
  else if c = '"' then some .string
  else if c = '[' then some .array
  else if c = '\x7b' then some .object
  else none

theorem write_lead (fmt : FloatFormat F) (v : Value F) : ∃ c cs, write fmt v = c :: cs ∧ leadKind c = some v.kind := by
  cases v with
  | null => exact ⟨_, _, rfl, rfl⟩
  | bool b =>
    cases b with
    | false => exact ⟨_, _, rfl, rfl⟩
    | true => exact ⟨_, _, rfl, rfl⟩
  | number n =>
    rw [write]
    have hne : writeNumber fmt n ≠ [] := writeNumber_ne_nil n
    obtain ⟨c, cs, hw⟩ := List.exists_cons_of_ne_nil hne
    have hc : isNumberChar c = true :=
      numberChars_writeNumber n c (by rw [hw]; exact List.mem_cons_self)
    exact ⟨c, cs, hw, if_pos hc⟩
  | string s => exact ⟨_, _, rfl, rfl⟩
  | array items => exact ⟨_, _, rfl, rfl⟩
  | object members => exact ⟨_, _, rfl, rfl⟩

theorem kind_eq_of_write {v w : Value F} (h : write fmt v ++ x = write fmt w ++ y) :
    v.kind = w.kind := by
  obtain ⟨c, cs, hv, hc⟩ := write_lead fmt v
  obtain ⟨d, ds, hw, hd⟩ := write_lead fmt w
  rw [hv, hw, List.cons_append, List.cons_append, List.cons.injEq] at h
  rw [h.1, hd] at hc
  exact (Option.some.inj hc).symm

/-- The text of `a` cannot be taken for the text of another value. -/
def Cuts (t : α → List Char) (a : α) : Prop :=
  ∀ b x y, Delimited x → Delimited y → t a ++ x = t b ++ y → a = b

theorem delimited_flatMap (hclose : close = ']' ∨ close = '\x7d') (t : α → List Char)
    (as : List α) : Delimited (as.flatMap (fun a => ',' :: t a) ++ close :: rest) := by
  intro c hc
  cases as with
  | nil =>
    cases hc
    exact .inr hclose
  | cons a as =>
    cases hc
    exact .inl rfl

theorem items_cut {t : α → List Char} {as bs : List α} (hclose : close = ']' ∨ close = '\x7d')
    (hcut : ∀ a ∈ as, Cuts t a)
    (h : as.flatMap (fun a => ',' :: t a) ++ close :: x =
      bs.flatMap (fun a => ',' :: t a) ++ close :: y) : as = bs := by
  have hcomma : ',' ≠ close := by
    rcases hclose with rfl | rfl
    · decide
    · decide
  induction as generalizing bs with
  | nil =>
    cases bs with
    | nil => rfl
    | cons b bs => exact (hcomma (List.head_eq_of_cons_eq h).symm).elim
  | cons a as ih =>
    cases bs with
    | nil => exact (hcomma (List.head_eq_of_cons_eq h)).elim
    | cons b bs =>
      rw [List.forall_mem_cons] at hcut
      rw [List.flatMap_cons, List.flatMap_cons, List.append_assoc, List.append_assoc,
        List.cons_append, List.cons_append] at h
      have htail := List.tail_eq_of_cons_eq h
      obtain rfl := hcut.1 b _ _ (delimited_flatMap hclose t as) (delimited_flatMap hclose t bs) htail
      rw [ih hcut.2 (List.append_cancel_left htail)]

theorem printSeq_cut {t : α → List Char} {as bs : List α} (hclose : close = ']' ∨ close = '\x7d')
    (hlead : ∀ a, ∃ c cs, t a = c :: cs ∧ c ≠ close) (hcut : ∀ a ∈ as, Cuts t a)
    (h : printSeq opening close (as.map t) ++ x = printSeq opening close (bs.map t) ++ y) :
    as = bs := by
  rw [printSeq, printSeq, List.cons_append, List.cons_append, List.append_assoc, List.append_assoc,
    List.singleton_append, List.singleton_append] at h
  have hbody := List.tail_eq_of_cons_eq h
  cases as with
  | nil =>
    cases bs with
    | nil => rfl
    | cons b bs =>
      obtain ⟨c, cs, hb, hc⟩ := hlead b
      rw [List.map_cons, intercalate_cons_flatMap, hb] at hbody
      exact (hc (List.head_eq_of_cons_eq hbody).symm).elim
  | cons a as =>
    cases bs with
    | nil =>
      obtain ⟨c, cs, ha, hc⟩ := hlead a
      rw [List.map_cons, intercalate_cons_flatMap, ha] at hbody
      exact (hc (List.head_eq_of_cons_eq hbody)).elim
    | cons b bs =>
      rw [List.forall_mem_cons] at hcut
      rw [List.map_cons, List.map_cons, intercalate_cons_flatMap, intercalate_cons_flatMap,
        List.flatMap_map, List.flatMap_map, List.append_assoc, List.append_assoc] at hbody
      obtain rfl := hcut.1 b _ _ (delimited_flatMap hclose t as) (delimited_flatMap hclose t bs) hbody
      rw [items_cut hclose hcut.2 (List.append_cancel_left hbody)]

theorem printString_cut (h : printString s ++ x = printString t ++ y) : s = t ∧ x = y := by
  have hs := parseString_print s x
  rw [h, parseString_print] at hs
  have he := Option.some.inj hs
  exact ⟨(congrArg Prod.fst he).symm, (congrArg Prod.snd he).symm⟩

theorem member_cut {m : String × Value F} (hm : Cuts (write fmt) m.2) :
    Cuts (fun m : String × Value F => printMember m.1 (write fmt m.2)) m := by
  intro n x y hx hy h
  dsimp only [printMember] at h
  rw [List.append_assoc, List.append_assoc] at h
  obtain ⟨hkey, hrest⟩ := printString_cut h
  exact Prod.ext hkey (hm n.2 x y hx hy (List.tail_eq_of_cons_eq hrest))

/-- The text of a value, up to what may follow it, fixes the value. -/
theorem write_cut (v : Value F) : Cuts (write fmt) v := by
  induction v using Value.ind with
  | null =>
    intro w x y hx hy h
    have hkind := kind_eq_of_write h
    cases w with
    | null => rfl
    | _ => exact Kind.noConfusion hkind
  | bool b =>
    intro w x y hx hy h
    have hkind := kind_eq_of_write h
    cases w with
    | bool c =>
      cases b with
      | false =>
        cases c with
        | false => rfl
        | true => exact absurd (List.head_eq_of_cons_eq h) (by decide)
      | true =>
        cases c with
        | false => exact absurd (List.head_eq_of_cons_eq h) (by decide)
        | true => rfl
    | _ => exact Kind.noConfusion hkind
  | number m =>
    intro w x y hx hy h
    have hkind := kind_eq_of_write h
    cases w with
    | number n =>
      have htake := congrArg (List.takeWhile isNumberChar) h
      rw [write, write, takeWhile_number (numberChars_writeNumber m) hx,
        takeWhile_number (numberChars_writeNumber n) hy] at htake
      rw [writeNumber_injective htake]
    | _ => exact Kind.noConfusion hkind
  | string s =>
    intro w x y hx hy h
    have hkind := kind_eq_of_write h
    cases w with
    | string t => rw [(printString_cut h).1]
    | _ => exact Kind.noConfusion hkind
  | array items ih =>
    intro w x y hx hy h
    have hkind := kind_eq_of_write h
    cases w with
    | array others =>
      rw [write, write, writeItems_eq, writeItems_eq] at h
      have hlead (v : Value F) : ∃ c cs, write fmt v = c :: cs ∧ c ≠ ']' := by
        obtain ⟨c, cs, hv, hc⟩ := write_lead fmt v
        refine ⟨c, cs, hv, ?_⟩
        rintro rfl
        exact Option.noConfusion rfl (heq_of_eq hc)
      rw [printSeq_cut (.inl rfl) hlead ih h]
    | _ => exact Kind.noConfusion hkind
  | object members ih =>
    intro w x y hx hy h
    have hkind := kind_eq_of_write h
    cases w with
    | object others =>
      rw [write, write, writeMembers_eq, writeMembers_eq] at h
      have hlead (m : String × Value F) :
          ∃ c cs, printMember m.1 (write fmt m.2) = c :: cs ∧ c ≠ '\x7d' :=
        ⟨_, _, rfl, by decide⟩
      rw [printSeq_cut (.inr rfl) hlead (fun m hm => member_cut (ih m hm)) h]
    | _ => exact Kind.noConfusion hkind

theorem write_injective : Function.Injective (write fmt) := by
  intro v w h
  have hnil : Delimited [] := by
    intro c hc
    exact (Option.not_mem_none c hc).elim
  exact write_cut v w [] [] hnil hnil (by rw [h])

end Buzz.Json
