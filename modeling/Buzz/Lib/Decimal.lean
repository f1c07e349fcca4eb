import Mathlib

namespace Buzz.Decimal
set_option autoImplicit true

def write (n : Nat) : List Char :=
  Nat.toDigits 10 n

def isNumeral (cs : List Char) : Bool :=
  !cs.isEmpty && cs.all Char.isDigit

/-- An unsigned integer below a bound, after an optional plus sign. -/
def parse (bound : Nat) (cs : List Char) : Option Nat :=
  let digits := if cs.head? = some '+' then cs.tail else cs
  if isNumeral digits && Nat.ofDigitChars 10 digits 0 < bound then
    some (Nat.ofDigitChars 10 digits 0)
  else none

/-- How often `unit` goes into `n`, to the nearest, ties to even. -/
def roundTo (unit n : Nat) : Nat :=
  if 2 * (n % unit) < unit then n / unit
  else if unit < 2 * (n % unit) then n / unit + 1
  else n / unit + n / unit % 2

/-- The double that is nearest to an integer. -/
def toDouble (n : Nat) : Nat :=
  if n < 2 ^ 53 then n
  else roundTo (2 ^ (Nat.log 2 n - 52)) n * 2 ^ (Nat.log 2 n - 52)

/-- One digit before the point, and no trailing zeros after it. -/
def writeMantissa (digits : List Char) : List Char :=
  let fraction := (digits.tail.reverse.dropWhile (· == '0')).reverse
  digits.take 1 ++ if fraction = [] then [] else '.' :: fraction

/-- The format `%e` with fourteen digits. -/
def writeExponent (n : Nat) : List Char :=
  let exponent := (write n).length - 1
  let rounded := roundTo (10 ^ (exponent - 13)) n
  writeMantissa (write (if rounded = 10 ^ 14 then 10 ^ 13 else rounded)) ++
    'e' :: '+' :: (write (if rounded = 10 ^ 14 then exponent + 1 else exponent)).leftpad 2 '0'

/-- The format `%.14g` of a double that is a natural number. -/
def writeG (n : Nat) : List Char :=
  if n < 10 ^ 14 then write n else writeExponent n

theorem write_ne_nil (n : Nat) : write n ≠ [] :=
  Nat.toDigits_ne_nil

theorem isDigit_of_mem_write (h : c ∈ write n) : c.isDigit = true :=
  Nat.isDigit_of_mem_toDigits (by decide) (by decide) h

theorem write_injective : Function.Injective write := by
  intro m n h
  have hm : Nat.ofDigitChars 10 (write m) 0 = m := Nat.ofDigitChars_ten_toDigits
  rw [h] at hm
  exact hm.symm.trans Nat.ofDigitChars_ten_toDigits

theorem isNumeral_write (n : Nat) : isNumeral (write n) = true := by
  rw [isNumeral, Bool.and_eq_true, List.all_eq_true]
  refine ⟨?_, fun c hc => isDigit_of_mem_write hc⟩
  rw [Bool.not_eq_true', List.isEmpty_eq_false_iff]
  exact write_ne_nil n

theorem not_mem_write (h : c.isDigit = false) : c ∉ write n := by
  intro hmem
  rw [isDigit_of_mem_write hmem] at h
  cases h

theorem parse_write (h : n < bound) : parse bound (write n) = some n := by
  have hsign : (write n).head? ≠ some '+' := by
    intro hhead
    exact not_mem_write (by decide) (List.mem_of_head? hhead)
  have hvalue : Nat.ofDigitChars 10 (write n) 0 = n := Nat.ofDigitChars_ten_toDigits
  simp only [parse, hsign, if_false, isNumeral_write, hvalue, h, decide_true, Bool.and_self, if_true]

theorem parse_eq_none (hmem : c ∈ cs) (hdigit : c.isDigit = false) (hplus : c ≠ '+') :
    parse bound cs = none := by
  have hrest : c ∈ if cs.head? = some '+' then cs.tail else cs := by
    split
    · rename_i hhead
      cases cs with
      | nil => cases hhead
      | cons d ds =>
        rcases List.mem_cons.mp hmem with rfl | hmem
        · exact (hplus (Option.some.inj hhead)).elim
        · exact hmem
    · exact hmem
  have hnot : isNumeral (if cs.head? = some '+' then cs.tail else cs) = false := by
    rw [isNumeral, Bool.and_eq_false_iff]
    right
    rw [List.all_eq_false]
    exact ⟨c, hrest, by rw [hdigit]; decide⟩
  simp only [parse, hnot, Bool.false_and, Bool.false_eq_true, if_false]

theorem mem_writeG (h : 10 ^ 14 ≤ n) : 'e' ∈ writeG n := by
  rw [writeG, if_neg (Nat.not_lt.mpr h), writeExponent]
  exact List.mem_append_right _ List.mem_cons_self

theorem mem_writeMantissa (h : c ∈ writeMantissa digits) : c ∈ digits ∨ c = '.' := by
  rw [writeMantissa, List.mem_append] at h
  rcases h with h | h
  · exact .inl (List.mem_of_mem_take h)
  · split at h
    · cases h
    · rcases List.mem_cons.mp h with rfl | h
      · exact .inr rfl
      · have htail := (List.dropWhile_sublist _).mem (List.mem_reverse.mp h)
        exact .inl (List.mem_of_mem_tail (List.mem_reverse.mp htail))

theorem mem_writeExponent (h : c ∈ writeExponent n) :
    c.isDigit = true ∨ c = '.' ∨ c = 'e' ∨ c = '+' := by
  rw [writeExponent, List.mem_append, List.mem_cons, List.mem_cons, List.leftpad,
    List.mem_append] at h
  rcases h with h | h | h | h | h
  · rcases mem_writeMantissa h with h | h
    · exact .inl (isDigit_of_mem_write h)
    · exact .inr (.inl h)
  · exact .inr (.inr (.inl h))
  · exact .inr (.inr (.inr h))
  · rw [List.eq_of_mem_replicate h]
    exact .inl (by decide)
  · exact .inl (isDigit_of_mem_write h)

theorem not_mem_writeG (hdigit : c.isDigit = false) (hdot : c ≠ '.') (he : c ≠ 'e')
    (hplus : c ≠ '+') : c ∉ writeG n := by
  intro h
  rw [writeG] at h
  split at h
  · exact not_mem_write hdigit h
  · rcases mem_writeExponent h with h | h | h | h
    · rw [h] at hdigit
      cases hdigit
    · exact hdot h
    · exact he h
    · exact hplus h

theorem writeG_of_lt (h : n < 10 ^ 14) : writeG n = write n :=
  if_pos h

theorem writeG_ne_nil (n : Nat) : writeG n ≠ [] := by
  rcases Nat.lt_or_ge n (10 ^ 14) with h | h
  · rw [writeG_of_lt h]
    exact write_ne_nil n
  · exact List.ne_nil_of_mem (mem_writeG h)

theorem div_le_roundTo (unit n : Nat) : n / unit ≤ roundTo unit n := by
  unfold roundTo
  split
  · exact Nat.le_refl _
  · split
    · exact Nat.le_succ _
    · exact Nat.le_add_right _ _

theorem toDouble_of_lt (h : n < 2 ^ 53) : toDouble n = n :=
  if_pos h

theorem le_toDouble (h : 2 ^ 53 ≤ n) : 2 ^ 52 ≤ toDouble n := by
  have hn : n ≠ 0 := Nat.ne_of_gt (Nat.lt_of_lt_of_le (by decide) h)
  have hlog : 53 ≤ Nat.log 2 n := Nat.le_log_of_pow_le (by decide) h
  have hunit : 0 < 2 ^ (Nat.log 2 n - 52) := Nat.two_pow_pos _
  have hpow : 2 ^ 52 * 2 ^ (Nat.log 2 n - 52) ≤ n := by
    rw [← Nat.pow_add, Nat.add_sub_cancel' (by omega)]
    exact Nat.pow_log_le_self 2 hn
  have hround : 2 ^ 52 ≤ roundTo (2 ^ (Nat.log 2 n - 52)) n :=
    Nat.le_trans ((Nat.le_div_iff_mul_le hunit).mpr hpow) (div_le_roundTo _ _)
  rw [toDouble, if_neg (Nat.not_lt.mpr h)]
  exact Nat.le_trans hround (Nat.le_mul_of_pos_right _ hunit)

/-- A number of at most fourteen digits is written as it is, any other with an exponent. -/
theorem writeG_toDouble (n : Nat) :
    n < 10 ^ 14 ∧ writeG (toDouble n) = write n ∨ 10 ^ 14 ≤ n ∧ 'e' ∈ writeG (toDouble n) := by
  rcases Nat.lt_or_ge n (2 ^ 53) with h | h
  · rw [toDouble_of_lt h]
    rcases Nat.lt_or_ge n (10 ^ 14) with hn | hn
    · exact .inl ⟨hn, writeG_of_lt hn⟩
    · exact .inr ⟨hn, mem_writeG hn⟩
  · have hle := le_toDouble h
    exact .inr ⟨by omega, mem_writeG (by omega)⟩

end Buzz.Decimal
