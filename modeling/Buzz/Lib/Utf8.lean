import Buzz.Lib.Hex

namespace Buzz
set_option autoImplicit true

theorem fromUTF8_toUTF8 (s : String) : String.fromUTF8? s.toUTF8 = some s := by
  have hvalid : s.toUTF8.IsValidUTF8 := s.isValidUTF8
  rw [String.fromUTF8?, dif_pos hvalid]
  rfl

/-- The bytes of a text in UTF-8. -/
def textSize (cs : List Char) : Nat :=
  (cs.map Char.utf8Size).sum

@[simp]
theorem textSize_nil : textSize [] = 0 := rfl

@[simp]
theorem textSize_cons (c : Char) (cs : List Char) :
    textSize (c :: cs) = c.utf8Size + textSize cs := by
  simp [textSize]

@[simp]
theorem textSize_append (cs ds : List Char) : textSize (cs ++ ds) = textSize cs + textSize ds := by
  simp [textSize]

theorem utf8ByteSize_ofList (cs : List Char) : (String.ofList cs).utf8ByteSize = textSize cs := by
  induction cs with
  | nil => rfl
  | cons c cs ih =>
    have hone : (String.ofList [c]).utf8ByteSize = c.utf8Size := by
      rw [← String.size_toByteArray, String.toByteArray_ofList, List.utf8Encode_singleton]
      simp
    rw [← String.size_toByteArray, String.toByteArray_ofList, List.utf8Encode_cons,
      ByteArray.size_append, ← String.toByteArray_ofList, ← String.toByteArray_ofList,
      String.size_toByteArray, String.size_toByteArray, ih, hone, textSize_cons]

theorem utf8ByteSize_eq (s : String) : s.utf8ByteSize = textSize s.toList := by
  rw [← utf8ByteSize_ofList, String.ofList_toList]

theorem textSize_of_ascii (cs : List Char) (h : ∀ c ∈ cs, c.utf8Size = 1) :
    textSize cs = cs.length := by
  induction cs with
  | nil => rfl
  | cons c cs ih =>
    rw [List.forall_mem_cons] at h
    rw [textSize_cons, h.1, ih h.2, List.length_cons, Nat.add_comm]

theorem utf8Size_digitChar (d : Fin 16) : (Hex.digitChar d).utf8Size = 1 := by
  revert d
  decide

namespace HexId

theorem toHex_toList (x : HexId n) : x.toHex.toList = x.toChars :=
  String.toList_ofList

theorem toHex_utf8ByteSize (x : HexId n) : x.toHex.utf8ByteSize = n := by
  rw [toHex, utf8ByteSize_ofList, textSize_of_ascii, toChars_length]
  intro c hc
  obtain ⟨d, _, rfl⟩ := List.mem_map.mp hc
  exact utf8Size_digitChar d

end HexId

end Buzz
