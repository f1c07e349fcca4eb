import Mathlib

namespace Buzz.Hex
set_option autoImplicit true

instance neZero_sixteen : NeZero 16 :=
  ⟨by decide⟩

/-- The lowercase digit of a nibble. -/
def digitChar (d : Fin 16) : Char :=
  if d.val < 10 then Char.ofNat (48 + d.val) else Char.ofNat (87 + d.val)

/-- The nibble of a digit of either case. -/
def digitVal (c : Char) : Option (Fin 16) :=
  if '0' ≤ c ∧ c ≤ '9' then some (Fin.ofNat 16 (c.toNat - 48))
  else if 'a' ≤ c ∧ c ≤ 'f' then some (Fin.ofNat 16 (c.toNat - 87))
  else if 'A' ≤ c ∧ c ≤ 'F' then some (Fin.ofNat 16 (c.toNat - 55))
  else none

theorem digitVal_digitChar (d : Fin 16) : digitVal (digitChar d) = some d := by
  revert d
  decide

theorem digitChar_injective : Function.Injective digitChar := by
  intro d e h
  have hd := digitVal_digitChar d
  rw [h, digitVal_digitChar] at hd
  exact (Option.some.inj hd).symm

def decodeChars (cs : List Char) : Option (List (Fin 16)) :=
  cs.mapM digitVal

theorem decodeChars_map_digitChar (ns : List (Fin 16)) :
    decodeChars (ns.map digitChar) = some ns := by
  induction ns with
  | nil => rfl
  | cons d ns ih =>
    rw [decodeChars] at ih ⊢
    simp only [List.map_cons, List.mapM_cons, digitVal_digitChar, ih]
    rfl

end Buzz.Hex

namespace Buzz
set_option autoImplicit true
open Hex

/-- A byte string of fixed size, held as its `n` hexadecimal digits. -/
structure HexId (n : Nat) where
  nibbles : List (Fin 16)
  length_eq : nibbles.length = n
deriving DecidableEq

namespace HexId

def toChars (x : HexId n) : List Char :=
  x.nibbles.map digitChar

def toHex (x : HexId n) : String :=
  String.ofList x.toChars

def ofChars (n : Nat) (cs : List Char) : Option (HexId n) :=
  match decodeChars cs with
  | some ns => if h : ns.length = n then some ⟨ns, h⟩ else none
  | none => none

/-- The value of `k` written with `n` digits. -/
def ofNat (n k : Nat) : HexId n :=
  ⟨List.ofFn fun i : Fin n => Fin.ofNat 16 (k / 16 ^ (n - 1 - i.val)), by simp⟩

@[ext]
theorem ext {x y : HexId n} (h : x.nibbles = y.nibbles) : x = y := by
  cases x
  cases y
  cases h
  rfl

@[simp]
theorem toChars_length (x : HexId n) : x.toChars.length = n := by
  rw [toChars, List.length_map, x.length_eq]

@[simp]
theorem ofChars_toChars (x : HexId n) : ofChars n x.toChars = some x := by
  rw [ofChars, toChars, decodeChars_map_digitChar]
  simp only [x.length_eq, ↓reduceDIte]

theorem toHex_injective : Function.Injective (toHex (n := n)) := by
  intro x y h
  have hc : x.toChars = y.toChars := String.ofList_injective h
  have hx := ofChars_toChars x
  rw [hc, ofChars_toChars] at hx
  exact (Option.some.inj hx).symm

end HexId

end Buzz
