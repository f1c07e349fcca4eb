import Buzz.Lib.JsonValue
import Buzz.Lib.PrefixCode

namespace Buzz
set_option autoImplicit true

def isLeapYear (y : Int) : Bool :=
  y % 4 == 0 && (y % 100 != 0 || y % 400 == 0)

def daysInMonth (y : Int) (m : Nat) : Nat :=
  if m = 2 then if isLeapYear y then 29 else 28
  else if m = 4 ∨ m = 6 ∨ m = 9 ∨ m = 11 then 30
  else 31

/-- An instant in UTC by its calendar fields. A leap second is second 59 with a whole second more
in its nanoseconds. -/
structure DateTime where
  year : Int
  month : Nat
  day : Nat
  hour : Nat
  minute : Nat
  second : Nat
  nanosecond : Nat
  year_range : -262143 ≤ year ∧ year ≤ 262142
  month_range : 1 ≤ month ∧ month ≤ 12
  day_range : 1 ≤ day ∧ day ≤ daysInMonth year month
  hour_lt : hour < 24
  minute_lt : minute < 60
  second_lt : second < 60
  nanosecond_lt : nanosecond < 2000000000
  leap : 1000000000 ≤ nanosecond → second = 59
deriving DecidableEq

namespace DateTime

/-- Cut the nanoseconds down to the given number of digits. -/
def truncSubsecs (digits : Nat) (t : DateTime) : DateTime where
  year := t.year
  month := t.month
  day := t.day
  hour := t.hour
  minute := t.minute
  second := t.second
  nanosecond := t.nanosecond - t.nanosecond % 10 ^ (9 - digits)
  year_range := t.year_range
  month_range := t.month_range
  day_range := t.day_range
  hour_lt := t.hour_lt
  minute_lt := t.minute_lt
  second_lt := t.second_lt
  nanosecond_lt := Nat.lt_of_le_of_lt (Nat.sub_le _ _) t.nanosecond_lt
  leap h := t.leap (Nat.le_trans h (Nat.sub_le _ _))

/-- The last `w` decimal digits of a number. -/
def fixedDigits : Nat → Nat → List Char
  | 0, _ => []
  | w + 1, n => fixedDigits w (n / 10) ++ [Nat.digitChar (n % 10)]

/-- Four digits, or a sign and at least four digits outside the years 0 to 9999. -/
def writeYear (y : Int) : List Char :=
  if 0 ≤ y ∧ y ≤ 9999 then fixedDigits 4 y.toNat
  else (if y < 0 then '-' else '+') :: (Nat.toDigits 10 y.natAbs).leftpad 4 '0'

/-- No digits, or as few groups of three as the value needs. -/
def writeSubsecs (nano : Nat) : List Char :=
  if nano = 0 then []
  else if nano % 1000000 = 0 then '.' :: fixedDigits 3 (nano / 1000000)
  else if nano % 1000 = 0 then '.' :: fixedDigits 6 (nano / 1000)
  else '.' :: fixedDigits 9 nano

def toRfc3339 (t : DateTime) : List Char :=
  let sec := if 1000000000 ≤ t.nanosecond then t.second + 1 else t.second
  let nano := if 1000000000 ≤ t.nanosecond then t.nanosecond - 1000000000 else t.nanosecond
  writeYear t.year ++ '-' :: (fixedDigits 2 t.month ++ '-' :: (fixedDigits 2 t.day ++
    'T' :: (fixedDigits 2 t.hour ++ ':' :: (fixedDigits 2 t.minute ++ ':' :: (fixedDigits 2 sec ++
      (writeSubsecs nano ++ ['+', '0', '0', ':', '0', '0']))))))

@[simp]
theorem length_fixedDigits (w n : Nat) : (fixedDigits w n).length = w := by
  induction w generalizing n with
  | zero => rfl
  | succ w ih => rw [fixedDigits, List.length_append, ih, List.length_singleton]

theorem digitChar_mod_inj (m n : Nat) (h : Nat.digitChar (m % 10) = Nat.digitChar (n % 10)) :
    m % 10 = n % 10 := by
  have hdigit : ∀ a b : Fin 10, Nat.digitChar a.val = Nat.digitChar b.val → a = b := by decide
  have hm := Nat.mod_lt m (by decide : 10 > 0)
  have hn := Nat.mod_lt n (by decide : 10 > 0)
  exact congrArg Fin.val (hdigit ⟨m % 10, hm⟩ ⟨n % 10, hn⟩ h)

theorem fixedDigits_inj (hm : m < 10 ^ w) (hn : n < 10 ^ w)
    (h : fixedDigits w m = fixedDigits w n) : m = n := by
  induction w generalizing m n with
  | zero => omega
  | succ w ih =>
    rw [fixedDigits, fixedDigits, List.append_singleton_inj] at h
    have hlow := digitChar_mod_inj m n h.2
    have hhigh : m / 10 = n / 10 := by
      apply ih _ _ h.1
      · exact Nat.div_lt_of_lt_mul (by rwa [pow_succ, Nat.mul_comm] at hm)
      · exact Nat.div_lt_of_lt_mul (by rwa [pow_succ, Nat.mul_comm] at hn)
    omega

theorem isDigit_fixedDigits : ∀ c ∈ fixedDigits w n, Json.isDigit c = true := by
  induction w generalizing n with
  | zero => exact fun c hc => (List.not_mem_nil hc).elim
  | succ w ih =>
    intro c hc
    rw [fixedDigits, List.mem_append, List.mem_singleton] at hc
    rcases hc with hc | rfl
    · exact ih c hc
    · have hdigit : ∀ a : Fin 10, Json.isDigit (Nat.digitChar a.val) = true := by decide
      exact hdigit ⟨n % 10, Nat.mod_lt n (by decide)⟩

theorem fixedDigits_cut (hm : m < 10 ^ w) (hn : n < 10 ^ w)
    (h : fixedDigits w m ++ x = fixedDigits w n ++ y) : m = n ∧ x = y := by
  have hlen : (fixedDigits w m).length = (fixedDigits w n).length := by
    rw [length_fixedDigits, length_fixedDigits]
  obtain ⟨hd, hrest⟩ := List.append_inj h hlen
  exact ⟨fixedDigits_inj hm hn hd, hrest⟩

theorem digit_ne (h : Json.isDigit c = true) (hd : Json.isDigit d = false) : d ≠ c := by
  rintro rfl
  rw [h] at hd
  exact Bool.noConfusion hd

theorem not_mem_of_digits {cs : List Char} (h : ∀ c ∈ cs, Json.isDigit c = true) (hd : Json.isDigit d = false) :
    d ∉ cs := by
  intro hm
  exact digit_ne (h d hm) hd rfl

theorem ofDigitChars_leftpad (k n : Nat) :
    Nat.ofDigitChars 10 ((Nat.toDigits 10 n).leftpad k '0') 0 = n := by
  have hzeros (j : Nat) (cs : List Char) :
      Nat.ofDigitChars 10 (List.replicate j '0' ++ cs) 0 = Nat.ofDigitChars 10 cs 0 := by
    induction j with
    | zero => rfl
    | succ j ih =>
      rw [List.replicate_succ, List.cons_append, Nat.ofDigitChars_cons]
      exact ih
  rw [List.leftpad, hzeros, Nat.ofDigitChars_ten_toDigits]

theorem isDigit_leftpad : ∀ c ∈ (Nat.toDigits 10 n).leftpad k '0', Json.isDigit c = true := by
  intro c hc
  rw [List.leftpad, List.mem_append] at hc
  rcases hc with hc | hc
  · rw [List.eq_of_mem_replicate hc]
    rfl
  · exact Json.isDigit_of_mem_printNat hc

/-- Outside the years 0 to 9999 the text starts with a sign. -/
theorem writeYear_cases (y : Int) :
    (∃ n : Nat, n < 10 ^ 4 ∧ y = n ∧ writeYear y = fixedDigits 4 n) ∨
      ∃ sign, Json.isDigit sign = false ∧ (sign = '-' ↔ y < 0) ∧
        writeYear y = sign :: (Nat.toDigits 10 y.natAbs).leftpad 4 '0' := by
  by_cases hrange : 0 ≤ y ∧ y ≤ 9999
  · exact .inl ⟨y.toNat, by omega, by omega, if_pos hrange⟩
  · by_cases hneg : y < 0
    · exact .inr ⟨'-', rfl, by simp [hneg], by rw [writeYear, if_neg hrange, if_pos hneg]⟩
    · exact .inr ⟨'+', rfl, by simp [hneg], by rw [writeYear, if_neg hrange, if_neg hneg]⟩

theorem fixedDigits_ne_sign (hd : Json.isDigit d = false) :
    fixedDigits (w + 1) n ++ x ≠ d :: y := by
  intro h
  have hne : fixedDigits (w + 1) n ≠ [] := by
    apply List.ne_nil_of_length_pos
    rw [length_fixedDigits]
    exact Nat.succ_pos w
  obtain ⟨c, cs, hc⟩ := List.exists_cons_of_ne_nil hne
  have hdigit : Json.isDigit c = true := by
    apply isDigit_fixedDigits (w := w + 1) (n := n)
    rw [hc]
    exact List.mem_cons_self
  rw [hc, List.cons_append, List.cons.injEq] at h
  exact digit_ne hdigit hd h.1.symm

theorem writeYear_cut (h : writeYear y ++ '-' :: x = writeYear z ++ '-' :: x') : y = z ∧ x = x' := by
  rcases writeYear_cases y with ⟨m, hm, rfl, hy⟩ | ⟨s, hs, hsy, hy⟩
  · rcases writeYear_cases z with ⟨n, hn, rfl, hz⟩ | ⟨t, ht, htz, hz⟩
    · rw [hy, hz] at h
      obtain ⟨rfl, hrest⟩ := fixedDigits_cut hm hn h
      exact ⟨rfl, List.tail_eq_of_cons_eq hrest⟩
    · rw [hy, hz] at h
      exact (fixedDigits_ne_sign ht h).elim
  · rcases writeYear_cases z with ⟨n, hn, rfl, hz⟩ | ⟨t, ht, htz, hz⟩
    · rw [hy, hz] at h
      exact (fixedDigits_ne_sign hs h.symm).elim
    · rw [hy, hz, List.cons_append, List.cons_append, List.cons.injEq] at h
      obtain ⟨rfl, hdigits⟩ := h
      have hdash : Json.isDigit '-' = false := rfl
      obtain ⟨hpad, hrest⟩ := PrefixCode.eq_of_terminated (not_mem_of_digits isDigit_leftpad hdash)
        (not_mem_of_digits isDigit_leftpad hdash) hdigits
      have habs := congrArg (fun cs => Nat.ofDigitChars 10 cs 0) hpad
      simp only [ofDigitChars_leftpad] at habs
      have hsign : y < 0 ↔ z < 0 := hsy.symm.trans htz
      exact ⟨by omega, hrest⟩

theorem writeSubsecs_cases (nano : Nat) :
    (nano = 0 ∧ writeSubsecs nano = []) ∨
      (nano = nano / 1000000 * 1000000 ∧ writeSubsecs nano = '.' :: fixedDigits 3 (nano / 1000000)) ∨
      (nano = nano / 1000 * 1000 ∧ writeSubsecs nano = '.' :: fixedDigits 6 (nano / 1000)) ∨
      writeSubsecs nano = '.' :: fixedDigits 9 nano := by
  unfold writeSubsecs
  split_ifs with h0 h3 h6
  · exact .inl ⟨h0, rfl⟩
  · exact .inr (.inl ⟨by omega, rfl⟩)
  · exact .inr (.inr (.inl ⟨by omega, rfl⟩))
  · exact .inr (.inr (.inr rfl))

theorem plus_not_mem_writeSubsecs (nano : Nat) : '+' ∉ writeSubsecs nano := by
  have hdigits (w n : Nat) : '+' ∉ '.' :: fixedDigits w n := by
    rw [List.mem_cons, not_or]
    exact ⟨by decide, not_mem_of_digits isDigit_fixedDigits rfl⟩
  rcases writeSubsecs_cases nano with ⟨_, h⟩ | ⟨_, h⟩ | ⟨_, h⟩ | h
  · rw [h]
    exact List.not_mem_nil
  · rw [h]
    exact hdigits _ _
  · rw [h]
    exact hdigits _ _
  · rw [h]
    exact hdigits _ _

/-- The number of digits tells the groups apart. -/
theorem writeSubsecs_inj (hm : m < 1000000000) (hn : n < 1000000000)
    (h : writeSubsecs m = writeSubsecs n) : m = n := by
  have hlen := congrArg List.length h
  have hdigits {w a b : Nat} (ha : a < 10 ^ w) (hb : b < 10 ^ w)
      (he : '.' :: fixedDigits w a = '.' :: fixedDigits w b) : a = b :=
    fixedDigits_inj ha hb (List.tail_eq_of_cons_eq he)
  rcases writeSubsecs_cases m with ⟨hm0, hwm⟩ | ⟨hm0, hwm⟩ | ⟨hm0, hwm⟩ | hwm <;>
  rcases writeSubsecs_cases n with ⟨hn0, hwn⟩ | ⟨hn0, hwn⟩ | ⟨hn0, hwn⟩ | hwn <;>
  rw [hwm, hwn] at hlen h <;>
  simp only [List.length_cons, List.length_nil, length_fixedDigits] at hlen
  · omega
  all_goals try omega
  · have := hdigits (by omega) (by omega) h
    omega
  · have := hdigits (by omega) (by omega) h
    omega
  · exact hdigits (by omega) (by omega) h

/-- The second as it is written, with a leap second as second 60. -/
theorem leap_cut (s t : DateTime)
    (hsec : (if 1000000000 ≤ s.nanosecond then s.second + 1 else s.second) =
      if 1000000000 ≤ t.nanosecond then t.second + 1 else t.second)
    (hnano : (if 1000000000 ≤ s.nanosecond then s.nanosecond - 1000000000 else s.nanosecond) =
      if 1000000000 ≤ t.nanosecond then t.nanosecond - 1000000000 else t.nanosecond) :
    s.second = t.second ∧ s.nanosecond = t.nanosecond := by
  have hs := s.leap
  have ht := t.leap
  have hs60 := s.second_lt
  have ht60 := t.second_lt
  split_ifs at hsec hnano with h1 h2
  · omega
  · omega
  · omega
  · omega

/-- The text of an instant tells the instant and where the text ends. -/
theorem prefixCode_toRfc3339 : PrefixCode toRfc3339 := by
  intro s t x y h
  simp only [toRfc3339, List.append_assoc, List.cons_append, List.nil_append] at h
  obtain ⟨hyear, h⟩ := writeYear_cut h
  obtain ⟨hmonth, h⟩ := fixedDigits_cut (by have := s.month_range; omega)
    (by have := t.month_range; omega) h
  have hdays (u : DateTime) : u.day < 10 ^ 2 := by
    have hle := u.day_range.2
    have hmax : daysInMonth u.year u.month ≤ 31 := by
      unfold daysInMonth
      split_ifs <;> omega
    omega
  obtain ⟨hday, h⟩ := fixedDigits_cut (hdays s) (hdays t) (List.tail_eq_of_cons_eq h)
  obtain ⟨hhour, h⟩ := fixedDigits_cut (by have := s.hour_lt; omega) (by have := t.hour_lt; omega)
    (List.tail_eq_of_cons_eq h)
  obtain ⟨hminute, h⟩ := fixedDigits_cut (by have := s.minute_lt; omega)
    (by have := t.minute_lt; omega) (List.tail_eq_of_cons_eq h)
  have hseconds (u : DateTime) :
      (if 1000000000 ≤ u.nanosecond then u.second + 1 else u.second) < 10 ^ 2 := by
    have hlt := u.second_lt
    split_ifs <;> omega
  obtain ⟨hsec, h⟩ := fixedDigits_cut (hseconds s) (hseconds t) (List.tail_eq_of_cons_eq h)
  have hnanos (u : DateTime) :
      (if 1000000000 ≤ u.nanosecond then u.nanosecond - 1000000000 else u.nanosecond) <
        1000000000 := by
    have hlt := u.nanosecond_lt
    split_ifs <;> omega
  obtain ⟨hsub, h⟩ := PrefixCode.eq_of_terminated (plus_not_mem_writeSubsecs _)
    (plus_not_mem_writeSubsecs _) h
  obtain ⟨hsecond, hnanosecond⟩ := leap_cut s t hsec
    (writeSubsecs_inj (hnanos s) (hnanos t) hsub)
  cases s
  cases t
  simp only [DateTime.mk.injEq]
  exact ⟨hyear, hmonth, hday, hhour, hminute, hsecond, hnanosecond⟩

end DateTime

end Buzz
