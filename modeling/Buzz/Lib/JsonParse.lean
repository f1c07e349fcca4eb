import Buzz.Lib.JsonValue

namespace Buzz.Json
set_option autoImplicit true

variable {F : Type}

/-- A negative number, if it fits 64 bits. -/
def negative (n : ℕ) : Option (Number F) :=
  if h : (Int64.ofInt (-n)).toInt < 0 then
    if n ≤ 2 ^ 63 then some (.negInt (Int64.ofInt (-n)) h) else none
  else none

/-- Integers that fit 64 bits stay integers. The rest is for the floats to read. -/
def parseNumber (float : List Char → Option F) (lexeme : List Char) : Option (Number F) :=
  if isInteger lexeme && digitsVal lexeme < 2 ^ 64 then
    some (.posInt (UInt64.ofNat (digitsVal lexeme)))
  else if lexeme.head? = some '-' && isInteger lexeme.tail then
    match negative (digitsVal lexeme.tail) with
    | some n => some n
    | none => (float lexeme).map .float
  else (float lexeme).map .float

/-- A value of any kind. The depth is how many brackets may still open, and one more. -/
def parseValue (float : List Char → Option F) : ℕ → Parser (Value F)
  | 0, _ => none
  | depth + 1, cs =>
    match skipWs cs with
    | 'n' :: 'u' :: 'l' :: 'l' :: rest => some (.null, rest)
    | 't' :: 'r' :: 'u' :: 'e' :: rest => some (.bool true, rest)
    | 'f' :: 'a' :: 'l' :: 's' :: 'e' :: rest => some (.bool false, rest)
    | '"' :: rest => (parseString ('"' :: rest)).map fun r => (.string r.1, r.2)
    | '[' :: rest =>
      if depth = 0 then none
      else (parseArray (parseValue float depth) ('[' :: rest)).map fun r => (.array r.1, r.2)
    | '\x7b' :: rest =>
      if depth = 0 then none
      else
        (parseObject (fun name cs => (parseValue float depth cs).map fun r => ((name, r.1), r.2))
          ('\x7b' :: rest)).map fun r => (.object (collect r.1), r.2)
    | cs =>
      let lexeme := cs.takeWhile isNumberChar
      if isNumber lexeme then
        (parseNumber float lexeme).map fun n => (.number n, cs.drop lexeme.length)
      else none

/-- `serde_json::from_str`. -/
def fromStr (float : List Char → Option F) (s : String) : Option (Value F) :=
  parseDocument (parseValue float 128) s.toList

namespace Value

def asStr : Value F → Option String
  | .string s => some s
  | _ => none

def asArray : Value F → Option (List (Value F))
  | .array items => some items
  | _ => none

def asObject : Value F → Option (List (String × Value F))
  | .object members => some members
  | _ => none

def asU64 : Value F → Option ℕ
  | .number (.posInt n) => some n.toNat
  | _ => none

end Value

/-- A parser that leaves no more than it was given. -/
def Shrinks (p : Parser α) : Prop :=
  ∀ cs a rest, p cs = some (a, rest) → rest.length ≤ cs.length

section Shrinks

variable {cs rest : List Char} {p : Parser α} {a : α} {close : Char} {items : List α} {fuel : ℕ}

theorem of_map_fst {x : Option (α × β)} {f : α → γ} {c : γ} {b : β}
    (h : (x.map fun r => (f r.1, r.2)) = some (c, b)) : ∃ a, x = some (a, b) ∧ f a = c := by
  obtain ⟨⟨a, b'⟩, hx, heq⟩ := Option.map_eq_some_iff.mp h
  obtain ⟨hf, rfl⟩ := Prod.mk.inj heq
  exact ⟨a, hx, hf⟩

theorem length_skipWs_le (cs : List Char) : (skipWs cs).length ≤ cs.length :=
  (List.dropWhile_suffix isWs).length_le

theorem parseUnit_length {n : ℕ} (h : parseUnit cs = some (n, rest)) :
    rest.length ≤ cs.length := by
  rw [parseUnit.eq_def] at h
  split at h
  · split at h
    · obtain ⟨-, rfl⟩ := Prod.mk.inj (Option.some.inj h)
      simp only [List.length_cons]
      omega
    · cases h
  · cases h

theorem parseEscape_length {c : Char} (h : parseEscape cs = some (c, rest)) :
    rest.length ≤ cs.length := by
  rw [parseEscape.eq_def] at h
  split at h
  case h_9 =>
    split at h
    · cases h
    · rename_i hunit
      have hfirst := parseUnit_length hunit
      split_ifs at h with hhigh hlow
      · split at h
        · split at h
          · cases h
          · rename_i hunit'
            have hsecond := parseUnit_length hunit'
            split_ifs at h with hrange
            obtain ⟨-, rfl⟩ := Prod.mk.inj (Option.some.inj h)
            simp only [List.length_cons] at *
            omega
        · cases h
      · obtain ⟨-, rfl⟩ := Prod.mk.inj (Option.some.inj h)
        simp only [List.length_cons]
        omega
  case h_10 => cases h
  all_goals
    obtain ⟨-, rfl⟩ := Prod.mk.inj (Option.some.inj h)
    exact Nat.le_succ _

theorem parseStringBody_length {s : List Char} (h : parseStringBody fuel cs = some (s, rest)) :
    s.length + rest.length ≤ cs.length := by
  induction fuel generalizing cs s with
  | zero => cases h
  | succ fuel ih =>
    cases cs with
    | nil => cases h
    | cons c cs =>
      rw [parseStringBody] at h
      split_ifs at h with hquote hescape hcontrol
      · obtain ⟨rfl, rfl⟩ := Prod.mk.inj (Option.some.inj h)
        simp only [List.length_nil, List.length_cons]
        omega
      · split at h
        · cases h
        · rename_i e more he
          obtain ⟨tail, htail, rfl⟩ := of_map_fst h
          have hmore := parseEscape_length he
          have hbody := ih htail
          simp only [List.length_cons]
          omega
      · obtain ⟨tail, htail, rfl⟩ := of_map_fst h
        have hbody := ih htail
        simp only [List.length_cons]
        omega

/-- A string is no longer than its text. -/
theorem parseString_length {s : String} (h : parseString cs = some (s, rest)) :
    s.toList.length + rest.length ≤ cs.length := by
  have hskip := length_skipWs_le cs
  rw [parseString] at h
  split at h
  · rename_i more hmore
    obtain ⟨body, hbody, rfl⟩ := of_map_fst h
    have hlength := parseStringBody_length hbody
    rw [hmore, List.length_cons] at hskip
    rw [String.toList_ofList]
    omega
  · cases h

theorem shrinks_parseString : Shrinks parseString := by
  intro cs s rest h
  have hlength := parseString_length h
  omega

/-- What is left behind items is no more than there was, and each item is read where no more is
left. -/
theorem parseItems_length (hp : Shrinks p) (h : parseItems close p fuel cs = some (items, rest)) :
    rest.length ≤ cs.length ∧
      ∀ a ∈ items, ∃ cs' rest', p cs' = some (a, rest') ∧ cs'.length ≤ cs.length := by
  induction fuel generalizing cs items with
  | zero => cases h
  | succ fuel ih =>
    have hskip := length_skipWs_le cs
    rw [parseItems] at h
    split at h
    · cases h
    · rename_i c more hmore
      rw [hmore, List.length_cons] at hskip
      split_ifs at h with hclose hcomma
      · obtain ⟨rfl, rfl⟩ := Prod.mk.inj (Option.some.inj h)
        exact ⟨by omega, fun a ha => absurd ha List.not_mem_nil⟩
      · split at h
        · cases h
        · rename_i a after ha
          obtain ⟨tail, htail, rfl⟩ := of_map_fst h
          have hafter := hp _ _ _ ha
          obtain ⟨hleft, hitems⟩ := ih htail
          refine ⟨by omega, fun b hb => ?_⟩
          obtain rfl | hb := List.mem_cons.mp hb
          · exact ⟨more, after, ha, by omega⟩
          · obtain ⟨cs', rest', hread, hle⟩ := hitems b hb
            exact ⟨cs', rest', hread, by omega⟩

theorem parseSeq_length (hp : Shrinks p) {opening : Char}
    (h : parseSeq opening close p cs = some (items, rest)) :
    rest.length ≤ cs.length ∧
      ∀ a ∈ items, ∃ cs' rest', p cs' = some (a, rest') ∧ cs'.length ≤ cs.length := by
  have hskip := length_skipWs_le cs
  rw [parseSeq] at h
  split at h
  · cases h
  · rename_i c more hmore
    have hskip' := length_skipWs_le more
    rw [hmore, List.length_cons] at hskip
    split_ifs at h with hopen hclose
    · obtain ⟨rfl, rfl⟩ := Prod.mk.inj (Option.some.inj h)
      rw [List.length_tail]
      exact ⟨by omega, fun a ha => absurd ha List.not_mem_nil⟩
    · split at h
      · cases h
      · rename_i a after ha
        obtain ⟨tail, htail, rfl⟩ := of_map_fst h
        have hafter := hp _ _ _ ha
        obtain ⟨hleft, hitems⟩ := parseItems_length hp htail
        refine ⟨by omega, fun b hb => ?_⟩
        obtain rfl | hb := List.mem_cons.mp hb
        · exact ⟨_, after, ha, by omega⟩
        · obtain ⟨cs', rest', hread, hle⟩ := hitems b hb
          exact ⟨cs', rest', hread, by omega⟩

theorem shrinks_parseMember {value : String → Parser α} (hvalue : ∀ name, Shrinks (value name)) :
    Shrinks (parseMember value) := by
  intro cs a rest h
  rw [parseMember] at h
  split at h
  · cases h
  · rename_i name more hname
    have hmore := shrinks_parseString _ _ _ hname
    have hskip := length_skipWs_le more
    split at h
    · rename_i after hafter
      have hrest := hvalue name _ _ _ h
      rw [hafter, List.length_cons] at hskip
      omega
    · cases h

theorem shrinks_parseValue (float : List Char → Option F) (depth : ℕ) :
    Shrinks (parseValue float depth) := by
  induction depth with
  | zero =>
    intro cs v rest h
    cases h
  | succ depth ih =>
    intro cs v rest h
    have hskip := length_skipWs_le cs
    rw [parseValue.eq_def] at h
    dsimp only at h
    split at h
    · rename_i more hmore
      obtain ⟨-, rfl⟩ := Prod.mk.inj (Option.some.inj h)
      rw [hmore] at hskip
      simp only [List.length_cons] at hskip
      omega
    · rename_i more hmore
      obtain ⟨-, rfl⟩ := Prod.mk.inj (Option.some.inj h)
      rw [hmore] at hskip
      simp only [List.length_cons] at hskip
      omega
    · rename_i more hmore
      obtain ⟨-, rfl⟩ := Prod.mk.inj (Option.some.inj h)
      rw [hmore] at hskip
      simp only [List.length_cons] at hskip
      omega
    · rename_i more hmore
      obtain ⟨s, hstring, -⟩ := of_map_fst h
      rw [hmore] at hskip
      exact (shrinks_parseString _ _ _ hstring).trans hskip
    · rename_i more hmore
      split_ifs at h with hdepth
      obtain ⟨items, hitems, -⟩ := of_map_fst h
      rw [hmore] at hskip
      exact (parseSeq_length ih hitems).1.trans hskip
    · rename_i more hmore
      split_ifs at h with hdepth
      obtain ⟨members, hmembers, -⟩ := of_map_fst (f := fun ms => Value.object (collect ms)) h
      rw [hmore] at hskip
      have hmember : Shrinks (parseMember fun name cs =>
          (parseValue float depth cs).map fun r => ((name, r.1), r.2)) := by
        apply shrinks_parseMember
        intro name cs a rest h
        obtain ⟨v, hv, -⟩ := of_map_fst h
        exact ih _ _ _ hv
      exact (parseSeq_length hmember hmembers).1.trans hskip
    · split_ifs at h with hnumber
      obtain ⟨n, -, heq⟩ := Option.map_eq_some_iff.mp h
      obtain ⟨-, rfl⟩ := Prod.mk.inj heq
      rw [List.length_drop]
      omega

theorem parseValue_string {float : List Char → Option F} {depth : ℕ} {s : String}
    (h : parseValue float depth cs = some (.string s, rest)) : s.toList.length ≤ cs.length := by
  cases depth with
  | zero => cases h
  | succ depth =>
    have hskip := length_skipWs_le cs
    rw [parseValue.eq_def] at h
    dsimp only at h
    split at h
    · cases h
    · cases h
    · cases h
    · rename_i more hmore
      obtain ⟨own, hstring, hown⟩ := of_map_fst h
      obtain rfl := Value.string.inj hown
      have hlength := parseString_length hstring
      rw [hmore] at hskip
      omega
    · split_ifs at h with hdepth
      obtain ⟨items, -, hitems⟩ := of_map_fst h
      cases hitems
    · split_ifs at h with hdepth
      obtain ⟨members, -, hmembers⟩ := of_map_fst (f := fun ms => Value.object (collect ms)) h
      cases hmembers
    · split_ifs at h with hnumber
      obtain ⟨n, -, heq⟩ := Option.map_eq_some_iff.mp h
      cases heq

theorem parseValue_array {float : List Char → Option F} {depth : ℕ} {items : List (Value F)}
    (h : parseValue float depth cs = some (.array items, rest)) : ∃ depth', ∀ v ∈ items,
      ∃ cs' rest', parseValue float depth' cs' = some (v, rest') ∧ cs'.length ≤ cs.length := by
  cases depth with
  | zero => cases h
  | succ depth =>
    have hskip := length_skipWs_le cs
    rw [parseValue.eq_def] at h
    dsimp only at h
    split at h
    · cases h
    · cases h
    · cases h
    · obtain ⟨own, -, hown⟩ := of_map_fst h
      cases hown
    · rename_i more hmore
      split_ifs at h with hdepth
      obtain ⟨own, hread, hown⟩ := of_map_fst h
      obtain rfl := Value.array.inj hown
      refine ⟨depth, fun v hv => ?_⟩
      obtain ⟨cs', rest', hv, hle⟩ :=
        (parseSeq_length (shrinks_parseValue float depth) hread).2 v hv
      rw [hmore] at hskip
      exact ⟨cs', rest', hv, hle.trans hskip⟩
    · split_ifs at h with hdepth
      obtain ⟨members, -, hmembers⟩ := of_map_fst (f := fun ms => Value.object (collect ms)) h
      cases hmembers
    · split_ifs at h with hnumber
      obtain ⟨n, -, heq⟩ := Option.map_eq_some_iff.mp h
      cases heq

/-- A string in an array is no longer than the text. -/
theorem length_of_mem_array {float : List Char → Option F} {text s : String}
    {items : List (Value F)} (h : fromStr float text = some (.array items))
    (hs : .string s ∈ items) : s.toList.length ≤ text.toList.length := by
  rw [fromStr, parseDocument] at h
  split at h
  · rename_i v rest hread
    split_ifs at h with hend
    obtain rfl := Option.some.inj h
    obtain ⟨depth, hitems⟩ := parseValue_array hread
    obtain ⟨cs', rest', hstring, hle⟩ := hitems _ hs
    exact (parseValue_string hstring).trans hle
  · cases h

end Shrinks

section Collect

theorem lookup_cons_if (k : String) (v : α) (ms : List (String × α)) (j : String) :
    ((k, v) :: ms).lookup j = if j = k then some v else ms.lookup j := by
  rw [List.lookup_cons]
  by_cases hj : j = k
  · rw [if_pos hj, beq_iff_eq.mpr hj]
  · rw [if_neg hj, beq_eq_false_iff_ne.mpr hj]

theorem lookup_insertKey (k : String) (v : α) (ms : List (String × α)) (j : String) :
    (insertKey k v ms).lookup j = if j = k then some v else ms.lookup j := by
  induction ms with
  | nil => rw [insertKey, lookup_cons_if]
  | cons m ms ih =>
    obtain ⟨l, w⟩ := m
    rw [insertKey]
    by_cases hlt : k < l
    · rw [if_pos hlt, lookup_cons_if]
    · rw [if_neg hlt]
      by_cases heq : k = l
      · rw [if_pos heq, lookup_cons_if, lookup_cons_if, ← heq]
        by_cases hj : j = k
        · rw [if_pos hj, if_pos hj]
        · rw [if_neg hj, if_neg hj, if_neg hj]
      · rw [if_neg heq, lookup_cons_if, lookup_cons_if, ih]
        by_cases hj : j = k
        · rw [if_neg fun h => heq (hj.symm.trans h), if_pos hj, if_pos hj]
        · rw [if_neg hj, if_neg hj]

/-- The last member of a name is the one that counts. -/
theorem lookup_collect (ms : List (String × α)) (j : String) :
    (collect ms).lookup j = ms.reverse.lookup j := by
  induction ms using List.reverseRecOn with
  | nil => rfl
  | append_singleton ms m ih =>
    obtain ⟨k, v⟩ := m
    have hstep : collect (ms ++ [(k, v)]) = insertKey k v (collect ms) := by
      rw [collect, List.foldl_append]
      rfl
    rw [hstep, lookup_insertKey, ih, List.reverse_append, List.reverse_singleton,
      List.singleton_append, lookup_cons_if]

theorem mem_insertKey {k : String} {v : α} {ms : List (String × α)} {m : String × α}
    (h : m ∈ insertKey k v ms) : m = (k, v) ∨ m ∈ ms := by
  induction ms with
  | nil => exact .inl (List.mem_singleton.mp h)
  | cons n ms ih =>
    rw [insertKey] at h
    split_ifs at h with hlt heq
    · exact List.mem_cons.mp h
    · exact (List.mem_cons.mp h).imp_right (List.mem_cons_of_mem _)
    · rcases List.mem_cons.mp h with rfl | h
      · exact .inr List.mem_cons_self
      · exact (ih h).imp_right (List.mem_cons_of_mem _)

theorem mem_of_mem_collect {ms : List (String × α)} {m : String × α} (h : m ∈ collect ms) :
    m ∈ ms := by
  induction ms using List.reverseRecOn with
  | nil => exact h
  | append_singleton ms n ih =>
    have hstep : collect (ms ++ [n]) = insertKey n.1 n.2 (collect ms) := by
      rw [collect, List.foldl_append]
      rfl
    rw [hstep] at h
    rw [List.mem_append, List.mem_singleton]
    exact (mem_insertKey h).symm.imp_left ih

end Collect

section Reads

variable {float : List Char → Option F} {depth : ℕ}

theorem isDigit_printNat (n : ℕ) : (printNat n).all isDigit = true := by
  rw [List.all_eq_true]
  exact fun c hc => isDigit_of_mem_printNat hc

theorem isInteger_printNat (n : ℕ) : isInteger (printNat n) = true := by
  have hlead : ∀ n, 0 < n → (printNat n).head? ≠ some '0' := by
    intro n
    induction n using Nat.strong_induction_on with
    | _ n ih =>
      intro hn
      rw [printNat, Nat.toDigits_eq_if (by decide)]
      split_ifs with hsmall
      · have hall : ∀ n : Fin 10, 0 < n.val → [n.val.digitChar].head? ≠ some '0' := by decide
        exact hall ⟨n, hsmall⟩ hn
      · have hne : Nat.toDigits 10 (n / 10) ≠ [] := Nat.toDigits_ne_nil
        rw [List.head?_append_of_ne_nil _ hne]
        exact ih (n / 10) (by omega) (by omega)
  have hdigits := isDigit_printNat n
  rcases Nat.eq_zero_or_pos n with rfl | hn
  · rfl
  · have hne := hlead n hn
    cases htext : printNat n with
    | nil => exact absurd htext Nat.toDigits_ne_nil
    | cons c cs =>
      rw [htext] at hne hdigits
      have hc : c ≠ '0' := fun h => hne (congrArg some h)
      rw [isInteger.eq_def]
      split
      · rename_i heq
        cases heq
      · rename_i heq
        exact absurd (List.cons.inj heq).1 hc
      · rename_i d ds _ heq
        rw [← heq, hdigits, Bool.and_true, bne_iff_ne]
        obtain ⟨rfl, -⟩ := List.cons.inj heq
        exact hc

theorem digitsVal_printNat (n : ℕ) : digitsVal (printNat n) = n :=
  Nat.ofDigitChars_ten_toDigits

theorem isNumber_printNat (n : ℕ) : isNumber (printNat n) = true := by
  have hmem {c : Char} (hc : c ∈ printNat n) : c ≠ '-' ∧ (c != 'e' && c != 'E') = true := by
    have hdigit := isDigit_of_mem_printNat hc
    rw [Bool.and_eq_true, bne_iff_ne, bne_iff_ne]
    refine ⟨?_, ?_, ?_⟩
    all_goals
      rintro rfl
      exact absurd hdigit (by decide)
  have hsign : (printNat n).head? ≠ some '-' := by
    intro h
    exact (hmem (List.mem_of_head? h)).1 rfl
  have hmantissa : ((printNat n).takeWhile fun c => c != 'e' && c != 'E') = printNat n :=
    List.takeWhile_eq_self_iff.mpr fun c hc => (hmem hc).2
  have hint : (printNat n).takeWhile isDigit = printNat n :=
    List.takeWhile_eq_self_iff.mpr fun c hc => isDigit_of_mem_printNat hc
  rw [isNumber, if_neg hsign, hmantissa, hint, isInteger_printNat, List.drop_length, beq_self_eq_true]
  rfl

theorem printNat_cons (n : ℕ) : ∃ c cs, printNat n = c :: cs ∧ isDigit c = true := by
  cases htext : printNat n with
  | nil => exact absurd htext Nat.toDigits_ne_nil
  | cons c cs =>
    refine ⟨c, cs, rfl, isDigit_of_mem_printNat (n := n) ?_⟩
    rw [htext]
    exact List.mem_cons_self

theorem ne_of_isDigit {c d : Char} (hc : isDigit c = true) (hd : isDigit d = false) : c ≠ d := by
  rintro rfl
  rw [hc] at hd
  cases hd

theorem isWs_of_isDigit {c : Char} (hc : isDigit c = true) : isWs c = false := by
  rw [isWs, Bool.or_eq_false_iff, Bool.or_eq_false_iff, Bool.or_eq_false_iff, beq_eq_false_iff_ne,
    beq_eq_false_iff_ne, beq_eq_false_iff_ne, beq_eq_false_iff_ne]
  exact ⟨⟨⟨ne_of_isDigit hc rfl, ne_of_isDigit hc rfl⟩, ne_of_isDigit hc rfl⟩, ne_of_isDigit hc rfl⟩

theorem reads_value_nat {n : ℕ} (h : n < 2 ^ 64) :
    Reads (parseValue float (depth + 1)) (printNat n) (.number (.posInt (UInt64.ofNat n))) where
  starts := by
    obtain ⟨c, cs, htext, hc⟩ := printNat_cons n
    exact ⟨c, cs, htext, isWs_of_isDigit hc, ne_of_isDigit hc rfl, ne_of_isDigit hc rfl⟩
  reads rest hrest := by
    obtain ⟨c, cs, htext, hc⟩ := printNat_cons n
    have hskip : skipWs (printNat n ++ rest) = printNat n ++ rest := by
      rw [htext]
      exact skipWs_cons (isWs_of_isDigit hc)
    have hhead {d : Char} {more : List Char} (heq : printNat n ++ rest = d :: more) : d = c := by
      rw [htext] at heq
      exact (List.cons.inj heq).1.symm
    rw [parseValue.eq_def]
    dsimp only
    rw [hskip]
    split
    · rename_i heq
      exact absurd (hhead heq).symm (ne_of_isDigit hc rfl)
    · rename_i heq
      exact absurd (hhead heq).symm (ne_of_isDigit hc rfl)
    · rename_i heq
      exact absurd (hhead heq).symm (ne_of_isDigit hc rfl)
    · rename_i heq
      exact absurd (hhead heq).symm (ne_of_isDigit hc rfl)
    · rename_i heq
      exact absurd (hhead heq).symm (ne_of_isDigit hc rfl)
    · rename_i heq
      exact absurd (hhead heq).symm (ne_of_isDigit hc rfl)
    · have hlexeme : (printNat n ++ rest).takeWhile isNumberChar = printNat n := by
        apply takeWhile_number _ hrest
        intro c hc
        rw [isNumberChar, isDigit_of_mem_printNat hc]
        rfl
      have hinteger : (isInteger (printNat n) && digitsVal (printNat n) < 2 ^ 64) = true := by
        rw [isInteger_printNat, digitsVal_printNat]
        exact decide_eq_true h
      rw [hlexeme, if_pos (isNumber_printNat n), parseNumber, if_pos hinteger, digitsVal_printNat,
        List.drop_left]
      rfl

theorem reads_value_string (s : String) :
    Reads (parseValue float (depth + 1)) (printString s) (.string s) where
  starts := (reads_string s).starts
  reads rest _ := by
    have hread := parseString_print s rest
    rw [printString, List.cons_append] at hread ⊢
    rw [parseValue, skipWs_cons rfl]
    change (parseString _).map _ = _
    rw [hread]
    rfl

theorem reads_value_array (items : List (List Char × Value F))
    (h : ∀ x ∈ items, Reads (parseValue float (depth + 1)) x.1 x.2) :
    Reads (parseValue float (depth + 2)) (printArray (items.map Prod.fst))
      (.array (items.map Prod.snd)) where
  starts := (reads_array items h).starts
  reads rest hrest := by
    have hread := (reads_array items h).reads rest hrest
    rw [printArray, printSeq, List.cons_append] at hread ⊢
    rw [parseValue, skipWs_cons rfl]
    change (parseArray _ _).map _ = _
    rw [hread]
    rfl

theorem reads_value_object (members : List (String × List Char × Value F))
    (h : ∀ m ∈ members, Reads (parseValue float (depth + 1)) m.2.1 m.2.2) :
    Reads (parseValue float (depth + 2)) (printObject (members.map fun m => printMember m.1 m.2.1))
      (.object (collect (members.map fun m => (m.1, m.2.2)))) := by
  have hread := @reads_object _
    (fun name cs => (parseValue float (depth + 1) cs).map fun r => ((name, r.1), r.2))
    (members.map fun m => (printMember m.1 m.2.1, m.1, m.2.2)) ?_
  · simp only [List.map_map, Function.comp_def] at hread
    refine ⟨hread.starts, fun rest hrest => ?_⟩
    have hthis := hread.reads rest hrest
    rw [printObject, printSeq, List.cons_append] at hthis ⊢
    rw [parseValue, skipWs_cons rfl]
    change (parseObject _ _).map _ = _
    rw [hthis]
    rfl
  · intro x hx
    obtain ⟨m, hm, rfl⟩ := List.mem_map.mp hx
    apply reads_member
    refine ⟨(h m hm).starts, fun rest hrest => ?_⟩
    rw [(h m hm).reads rest hrest]
    rfl

end Reads

end Buzz.Json
