import Mathlib

namespace Buzz.Base64
set_option autoImplicit true

/-- The letter of six bits. -/
def letter (n : ℕ) : Char :=
  if n < 26 then Char.ofNat (65 + n)
  else if n < 52 then Char.ofNat (71 + n)
  else if n < 62 then Char.ofNat (n - 4)
  else if n = 62 then '+'
  else '/'

def value (c : Char) : Option ℕ :=
  if 65 ≤ c.toNat ∧ c.toNat ≤ 90 then some (c.toNat - 65)
  else if 97 ≤ c.toNat ∧ c.toNat ≤ 122 then some (c.toNat - 71)
  else if 48 ≤ c.toNat ∧ c.toNat ≤ 57 then some (c.toNat + 4)
  else if c = '+' then some 62
  else if c = '/' then some 63
  else none

/-- The standard alphabet, with padding. -/
def encode : List UInt8 → List Char
  | a :: b :: c :: rest =>
    letter (a.toNat / 4) :: letter (a.toNat % 4 * 16 + b.toNat / 16) ::
      letter (b.toNat % 16 * 4 + c.toNat / 64) :: letter (c.toNat % 64) :: encode rest
  | [a, b] =>
    [letter (a.toNat / 4), letter (a.toNat % 4 * 16 + b.toNat / 16), letter (b.toNat % 16 * 4), '=']
  | [a] => [letter (a.toNat / 4), letter (a.toNat % 4 * 16), '=', '=']
  | [] => []

/-- Four letters that are padded. The bits that no byte takes are zero. -/
def decodePadded (w x y : Char) : Option (List UInt8) :=
  match value w, value x with
  | some w, some x =>
    if y = '=' then
      if x % 16 = 0 then some [UInt8.ofNat (w * 4 + x / 16)] else none
    else
      match value y with
      | some y =>
        if y % 4 = 0 then some [UInt8.ofNat (w * 4 + x / 16), UInt8.ofNat (x % 16 * 16 + y / 4)]
        else none
      | none => none
  | _, _ => none

/-- The bytes of a text, if they are encoded just so. -/
def decode : List Char → Option (List UInt8)
  | [] => some []
  | w :: x :: y :: z :: rest =>
    if z = '=' then
      if rest = [] then decodePadded w x y else none
    else
      match value w, value x, value y, value z with
      | some w, some x, some y, some z => (decode rest).map fun bytes =>
        UInt8.ofNat (w * 4 + x / 16) :: UInt8.ofNat (x % 16 * 16 + y / 4) ::
          UInt8.ofNat (y % 4 * 64 + z) :: bytes
      | _, _, _, _ => none
  | _ => none

theorem value_letter (h : n < 64) : value (letter n) = some n := by
  have hall : ∀ n : Fin 64, value (letter n) = some n.val := by decide +kernel
  exact hall ⟨n, h⟩

theorem letter_ne_pad (h : n < 64) : letter n ≠ '=' := by
  intro hpad
  have hvalue := value_letter h
  rw [hpad] at hvalue
  cases hvalue

theorem letter_of_value (h : value c = some n) : n < 64 ∧ letter n = c := by
  have hchar {m : ℕ} (hm : m = c.toNat) : Char.ofNat m = c := by
    rw [hm, Char.ofNat_toNat]
  rw [value] at h
  split_ifs at h with hupper hlower hdigit hplus hslash
  · obtain rfl := Option.some.inj h
    refine ⟨by omega, ?_⟩
    rw [letter, if_pos (by omega)]
    exact hchar (by omega)
  · obtain rfl := Option.some.inj h
    refine ⟨by omega, ?_⟩
    rw [letter, if_neg (by omega), if_pos (by omega)]
    exact hchar (by omega)
  · obtain rfl := Option.some.inj h
    refine ⟨by omega, ?_⟩
    rw [letter, if_neg (by omega), if_neg (by omega), if_pos (by omega)]
    exact hchar (by omega)
  · obtain rfl := Option.some.inj h
    exact ⟨by decide, hplus.symm⟩
  · obtain rfl := Option.some.inj h
    exact ⟨by decide, hslash.symm⟩

theorem ofNat_eq {a : UInt8} (h : n = a.toNat) : UInt8.ofNat n = a := by
  rw [h, UInt8.ofNat_toNat]

theorem toNat_ofNat (h : n < 256) : (UInt8.ofNat n).toNat = n :=
  UInt8.toNat_ofNat_of_lt' h

theorem decode_encode (bytes : List UInt8) : decode (encode bytes) = some bytes := by
  induction bytes using encode.induct with
  | case1 a b c rest ih =>
    have ha := a.toNat_lt
    have hb := b.toNat_lt
    have hc := c.toNat_lt
    rw [encode, decode, if_neg (letter_ne_pad (by omega)), value_letter (by omega),
      value_letter (by omega), value_letter (by omega), value_letter (by omega), ih]
    dsimp only [Option.map_some]
    rw [ofNat_eq (a := a) (by omega), ofNat_eq (a := b) (by omega), ofNat_eq (a := c) (by omega)]
  | case2 a b =>
    have ha := a.toNat_lt
    have hb := b.toNat_lt
    rw [encode, decode, if_pos rfl, if_pos rfl, decodePadded, value_letter (by omega),
      value_letter (by omega)]
    dsimp only
    rw [if_neg (letter_ne_pad (by omega)), value_letter (by omega)]
    dsimp only
    rw [if_pos (by omega), ofNat_eq (a := a) (by omega), ofNat_eq (a := b) (by omega)]
  | case3 a =>
    have ha := a.toNat_lt
    rw [encode, decode, if_pos rfl, if_pos rfl, decodePadded, value_letter (by omega),
      value_letter (by omega)]
    dsimp only
    rw [if_pos rfl, if_pos (by omega), ofNat_eq (a := a) (by omega)]
  | case4 => rfl

theorem encode_of_decodePadded {w x y : Char} {bytes : List UInt8}
    (h : decodePadded w x y = some bytes) : encode bytes = [w, x, y, '='] := by
  rw [decodePadded] at h
  split at h
  · rename_i m n hw hx
    obtain ⟨hm, rfl⟩ := letter_of_value hw
    obtain ⟨hn, rfl⟩ := letter_of_value hx
    split at h
    · rename_i hpad
      split at h
      · rename_i hzero
        obtain rfl := Option.some.inj h
        have hbyte := toNat_ofNat (n := m * 4 + n / 16) (by omega)
        rw [encode, hbyte, hpad]
        have hm' : (m * 4 + n / 16) / 4 = m := by omega
        have hn' : (m * 4 + n / 16) % 4 * 16 = n := by omega
        rw [hm', hn']
      · cases h
    · split at h
      · rename_i k hy
        obtain ⟨hk, rfl⟩ := letter_of_value hy
        split at h
        · rename_i hzero
          obtain rfl := Option.some.inj h
          have hbyte := toNat_ofNat (n := m * 4 + n / 16) (by omega)
          have hbyte' := toNat_ofNat (n := n % 16 * 16 + k / 4) (by omega)
          rw [encode, hbyte, hbyte']
          have hm' : (m * 4 + n / 16) / 4 = m := by omega
          have hn' : (m * 4 + n / 16) % 4 * 16 + (n % 16 * 16 + k / 4) / 16 = n := by omega
          have hk' : (n % 16 * 16 + k / 4) % 16 * 4 = k := by omega
          rw [hm', hn', hk']
        · cases h
      · cases h
  · cases h

theorem encode_of_decode : ∀ {cs : List Char} {bytes : List UInt8}, decode cs = some bytes →
    encode bytes = cs
  | [], _, h => by
    obtain rfl := Option.some.inj h
    rfl
  | w :: x :: y :: z :: rest, bytes, h => by
    rw [decode] at h
    split at h
    · rename_i hpad
      split at h
      · rename_i hrest
        rw [hpad, hrest]
        exact encode_of_decodePadded h
      · cases h
    · split at h
      · rename_i m n k l hw hx hy hz
        obtain ⟨tail, htail, rfl⟩ := Option.map_eq_some_iff.mp h
        obtain ⟨hm, hwLetter⟩ := letter_of_value hw
        obtain ⟨hn, hxLetter⟩ := letter_of_value hx
        obtain ⟨hk, hyLetter⟩ := letter_of_value hy
        obtain ⟨hl, hzLetter⟩ := letter_of_value hz
        have hbyte := toNat_ofNat (n := m * 4 + n / 16) (by omega)
        have hbyte' := toNat_ofNat (n := n % 16 * 16 + k / 4) (by omega)
        have hbyte'' := toNat_ofNat (n := k % 4 * 64 + l) (by omega)
        have hm' : (m * 4 + n / 16) / 4 = m := by omega
        have hn' : (m * 4 + n / 16) % 4 * 16 + (n % 16 * 16 + k / 4) / 16 = n := by omega
        have hk' : (n % 16 * 16 + k / 4) % 16 * 4 + (k % 4 * 64 + l) / 64 = k := by omega
        have hl' : (k % 4 * 64 + l) % 64 = l := by omega
        rw [encode, hbyte, hbyte', hbyte'', hm', hn', hk', hl', hwLetter, hxLetter, hyLetter, hzLetter,
          encode_of_decode htail]
      · cases h
  | [_], _, h => by cases h
  | [_, _], _, h => by cases h
  | [_, _, _], _, h => by cases h

theorem length_encode (bytes : List UInt8) : (encode bytes).length = 4 * ((bytes.length + 2) / 3) := by
  induction bytes using encode.induct with
  | case1 a b c rest ih =>
    rw [encode]
    simp only [List.length_cons, ih]
    omega
  | case2 a b => simp [encode]
  | case3 a => simp [encode]
  | case4 => rfl

/-- A letter or the padding. -/
theorem mem_encode {bytes : List UInt8} (h : c ∈ encode bytes) :
    (∃ n < 64, c = letter n) ∨ c = '=' := by
  induction bytes using encode.induct with
  | case1 a b d rest ih =>
    have ha := a.toNat_lt
    have hb := b.toNat_lt
    have hd := d.toNat_lt
    rw [encode] at h
    simp only [List.mem_cons] at h
    rcases h with h | h | h | h | h
    · exact .inl ⟨_, by omega, h⟩
    · exact .inl ⟨_, by omega, h⟩
    · exact .inl ⟨_, by omega, h⟩
    · exact .inl ⟨_, by omega, h⟩
    · exact ih h
  | case2 a b =>
    have ha := a.toNat_lt
    have hb := b.toNat_lt
    rw [encode] at h
    simp only [List.mem_cons, List.not_mem_nil, or_false] at h
    rcases h with h | h | h | h
    · exact .inl ⟨_, by omega, h⟩
    · exact .inl ⟨_, by omega, h⟩
    · exact .inl ⟨_, by omega, h⟩
    · exact .inr h
  | case3 a =>
    have ha := a.toNat_lt
    rw [encode] at h
    simp only [List.mem_cons, List.not_mem_nil, or_false] at h
    rcases h with h | h | h | h
    · exact .inl ⟨_, by omega, h⟩
    · exact .inl ⟨_, by omega, h⟩
    · exact .inr h
    · exact .inr h
  | case4 => cases h

theorem utf8Size_of_mem {bytes : List UInt8} (h : c ∈ encode bytes) : c.utf8Size = 1 := by
  have hall : ∀ n : Fin 64, (letter n).utf8Size = 1 := by decide +kernel
  rcases mem_encode h with ⟨n, hn, rfl⟩ | rfl
  · exact hall ⟨n, hn⟩
  · decide

end Buzz.Base64
