import Buzz.Lib.PrefixCode

namespace Buzz.Percent
set_option autoImplicit true

/-- The uppercase digit of a nibble. -/
def digit (n : Nat) : Char :=
  Char.ofNat (if n < 10 then 48 + n else 55 + n)

def digitVal (b : UInt8) : Option Nat :=
  if 48 ≤ b ∧ b ≤ 57 then some (b.toNat - 48)
  else if 65 ≤ b ∧ b ≤ 70 then some (b.toNat - 55)
  else if 97 ≤ b ∧ b ≤ 102 then some (b.toNat - 87)
  else none

/-- Every byte but the alphanumeric ones is escaped. -/
def encodeByte (b : UInt8) : List Char :=
  if (Char.ofNat b.toNat).isAlphanum then [Char.ofNat b.toNat]
  else ['%', digit (b.toNat / 16), digit (b.toNat % 16)]

def utf8PercentEncode (s : String) : List Char :=
  (utf8Bytes s.toList).flatMap encodeByte

/-- An escape is read, and any other percent sign is kept. -/
def percentDecode : List UInt8 → List UInt8
  | b :: h :: l :: rest =>
    if b = 37 then
      match digitVal h, digitVal l with
      | some high, some low => UInt8.ofNat (16 * high + low) :: percentDecode rest
      | _, _ => b :: percentDecode (h :: l :: rest)
    else b :: percentDecode (h :: l :: rest)
  | b :: rest => b :: percentDecode rest
  | [] => []

/-- The second bytes that may follow the first byte of three or of four. -/
def mayFollow (b c : UInt8) : Bool :=
  (b == 0xE0 && (0xA0 ≤ c && c ≤ 0xBF)) || (0xE1 ≤ b && b ≤ 0xEC && (0x80 ≤ c && c ≤ 0xBF)) ||
    (b == 0xED && (0x80 ≤ c && c ≤ 0x9F)) || (0xEE ≤ b && b ≤ 0xEF && (0x80 ≤ c && c ≤ 0xBF)) ||
    (b == 0xF0 && (0x90 ≤ c && c ≤ 0xBF)) || (0xF1 ≤ b && b ≤ 0xF3 && (0x80 ≤ c && c ≤ 0xBF)) ||
    (b == 0xF4 && (0x80 ≤ c && c ≤ 0x8F))

/-- How many bytes are replaced together with a first byte that starts no character. -/
def brokenTail (b : UInt8) : List UInt8 → Nat
  | [] => 0
  | c :: rest =>
    if mayFollow b c then
      if 0xF0 ≤ b ∧ rest.head?.any (fun d => 0x80 ≤ d && d ≤ 0xBF) then 2 else 1
    else 0

/-- What is no UTF-8 is replaced. -/
def decodeUtf8Lossy : Nat → List UInt8 → List Char
  | 0, _ => []
  | _ + 1, [] => []
  | fuel + 1, b :: bs =>
    match ByteArray.utf8DecodeChar? (b :: bs).toByteArray 0 with
    | some c => c :: decodeUtf8Lossy fuel ((b :: bs).drop c.utf8Size)
    | none => '\uFFFD' :: decodeUtf8Lossy fuel (bs.drop (brokenTail b bs))

def percentDecodeStr (cs : List Char) : String :=
  let bytes := percentDecode (utf8Bytes cs)
  String.ofList (decodeUtf8Lossy bytes.length bytes)

/-- The bytes of an escaped byte. -/
def escaped (b : UInt8) : List UInt8 :=
  if (Char.ofNat b.toNat).isAlphanum then [b]
  else [37, UInt8.ofNat (digit (b.toNat / 16)).toNat, UInt8.ofNat (digit (b.toNat % 16)).toNat]

theorem forall_byte {p : UInt8 → Prop} (h : ∀ n : Fin 256, p (UInt8.ofNat n.val)) (b : UInt8) :
    p b := by
  have hb := h ⟨b.toNat, b.toNat_lt⟩
  rw [UInt8.ofNat_toNat] at hb
  exact hb

theorem utf8Bytes_encodeByte (b : UInt8) : utf8Bytes (encodeByte b) = escaped b := by
  revert b
  apply forall_byte
  decide +kernel

theorem encodeByte_safe (b : UInt8) :
    (encodeByte b).all (fun c => (c.isAlphanum || c == '%') && c.utf8Size == 1) = true := by
  revert b
  apply forall_byte
  decide +kernel

/-- An encoded text has no separators in it. -/
theorem mem_utf8PercentEncode {s : String} (h : c ∈ utf8PercentEncode s) :
    c.isAlphanum = true ∨ c = '%' := by
  obtain ⟨b, _, hc⟩ := List.mem_flatMap.mp h
  have hsafe := List.all_eq_true.mp (encodeByte_safe b) c hc
  rw [Bool.and_eq_true, Bool.or_eq_true, beq_iff_eq] at hsafe
  exact hsafe.1

theorem percentDecode_cons_ne {b : UInt8} (h : b ≠ 37) (rest : List UInt8) :
    percentDecode (b :: rest) = b :: percentDecode rest := by
  match rest with
  | [] => rfl
  | [_] => rfl
  | _ :: _ :: _ => rw [percentDecode, if_neg h]

theorem escaped_nibbles (b : UInt8) :
    digitVal (UInt8.ofNat (digit (b.toNat / 16)).toNat) = some (b.toNat / 16) ∧
      digitVal (UInt8.ofNat (digit (b.toNat % 16)).toNat) = some (b.toNat % 16) := by
  revert b
  apply forall_byte
  decide +kernel

theorem percentDecode_escaped (b : UInt8) (rest : List UInt8) :
    percentDecode (escaped b ++ rest) = b :: percentDecode rest := by
  rw [escaped]
  split
  · rename_i halnum
    apply percentDecode_cons_ne
    rintro rfl
    revert halnum
    decide
  · obtain ⟨hhigh, hlow⟩ := escaped_nibbles b
    change percentDecode (37 :: _ :: _ :: rest) = _
    rw [percentDecode, if_pos rfl, hhigh, hlow]
    dsimp only
    rw [Nat.div_add_mod, UInt8.ofNat_toNat]

theorem percentDecode_encode (bytes : List UInt8) :
    percentDecode (utf8Bytes (bytes.flatMap encodeByte)) = bytes := by
  induction bytes with
  | nil => rfl
  | cons b bytes ih =>
    rw [List.flatMap_cons, utf8Bytes_append, utf8Bytes_encodeByte, percentDecode_escaped, ih]

theorem decodeUtf8Lossy_utf8Bytes (cs : List Char) (fuel : Nat) (h : (utf8Bytes cs).length ≤ fuel) :
    decodeUtf8Lossy fuel (utf8Bytes cs) = cs := by
  induction cs generalizing fuel with
  | nil =>
    cases fuel with
    | zero => rfl
    | succ fuel => rfl
  | cons c cs ih =>
    have hlen : (String.utf8EncodeChar c).length = c.utf8Size := String.length_utf8EncodeChar c
    have hsize : 0 < c.utf8Size := c.utf8Size_pos
    have hbytes : utf8Bytes (c :: cs) = String.utf8EncodeChar c ++ utf8Bytes cs := List.flatMap_cons
    have hchar : ByteArray.utf8DecodeChar? (utf8Bytes (c :: cs)).toByteArray 0 = some c := by
      rw [hbytes, List.toByteArray_append, ByteArray.utf8DecodeChar?_utf8EncodeChar_append]
    have hdrop : (utf8Bytes (c :: cs)).drop c.utf8Size = utf8Bytes cs := by
      rw [hbytes, ← hlen, List.drop_left]
    rw [hbytes, List.length_append, hlen] at h
    cases hcs : utf8Bytes (c :: cs) with
    | nil =>
      rw [hbytes] at hcs
      have hnil := congrArg List.length (List.append_eq_nil_iff.mp hcs).1
      rw [hlen, List.length_nil] at hnil
      omega
    | cons b bs =>
      rw [hcs] at hchar hdrop
      cases fuel with
      | zero => omega
      | succ fuel =>
        rw [decodeUtf8Lossy, hchar]
        dsimp only
        rw [hdrop, ih fuel (by omega)]

/-- What was encoded is decoded to itself. -/
theorem percentDecodeStr_encode (s : String) : percentDecodeStr (utf8PercentEncode s) = s := by
  rw [percentDecodeStr, utf8PercentEncode, percentDecode_encode,
    decodeUtf8Lossy_utf8Bytes _ _ (Nat.le_refl _), String.ofList_toList]

end Buzz.Percent
