import Buzz.Lib.Hex

namespace Buzz
set_option autoImplicit true

/-- A 128-bit identifier. -/
abbrev Uuid := HexId 32

instance : LawfulBEq Uuid :=
  inferInstance

namespace Uuid

/-- Cut `cs` into groups of the given sizes, with a hyphen between two groups. -/
def joinGroups : List Nat → List Char → List Char
  | [], _ => []
  | [n], cs => cs.take n
  | n :: m :: ns, cs => cs.take n ++ '-' :: joinGroups (m :: ns) (cs.drop n)

/-- The digits of hyphenated groups of the given sizes. -/
def splitGroups : List Nat → List Char → Option (List Char)
  | [], cs => if cs = [] then some [] else none
  | [n], cs => if cs.length = n then some cs else none
  | n :: m :: ns, cs =>
    match cs.drop n with
    | '-' :: rest => (splitGroups (m :: ns) rest).map (cs.take n ++ ·)
    | _ => none

def hyphenGroups : List Nat := [8, 4, 4, 4, 12]

def toString (u : Uuid) : String :=
  String.ofList (joinGroups hyphenGroups u.toChars)

def parseHyphenated (cs : List Char) : Option Uuid :=
  (splitGroups hyphenGroups cs).bind (HexId.ofChars 32)

/-- Simple, hyphenated, braced and URN spellings, with digits of either case. -/
def parse (s : String) : Option Uuid :=
  let cs := s.toList
  if cs.length = 32 then HexId.ofChars 32 cs
  else if cs.length = 36 then parseHyphenated cs
  else if cs.length = 38 ∧ cs.head? = some '{' ∧ cs.getLast? = some '}' then
    parseHyphenated (cs.tail.take 36)
  else if cs.length = 45 ∧ cs.take 9 = "urn:uuid:".toList then parseHyphenated (cs.drop 9)
  else none

theorem splitGroups_joinGroups (h : cs.length = ns.sum) :
    splitGroups ns (joinGroups ns cs) = some cs := by
  induction ns generalizing cs with
  | nil =>
    have he : cs = [] := List.eq_nil_of_length_eq_zero h
    simp only [joinGroups, splitGroups, he, ↓reduceIte]
  | cons n ns ih =>
    cases ns with
    | nil =>
      have hn : cs.length = n := by simpa using h
      simp only [joinGroups, splitGroups, List.take_of_length_le (Nat.le_of_eq hn), hn, ↓reduceIte]
    | cons m ns =>
      have hn : (cs.take n).length = n := by
        simp only [List.length_take, h, List.sum_cons]
        omega
      have hd : (cs.drop n).length = (m :: ns).sum := by
        simp only [List.length_drop, h, List.sum_cons]
        omega
      have hcut : (cs.take n ++ '-' :: joinGroups (m :: ns) (cs.drop n)).drop n =
          '-' :: joinGroups (m :: ns) (cs.drop n) := List.drop_left' hn
      simp only [joinGroups, splitGroups, hcut, ih hd, Option.map_some,
        List.take_left' hn, List.take_append_drop]

theorem joinGroups_length (hs : ns ≠ []) (h : cs.length = ns.sum) :
    (joinGroups ns cs).length + 1 = ns.sum + ns.length := by
  induction ns generalizing cs with
  | nil => exact (hs rfl).elim
  | cons n ns ih =>
    cases ns with
    | nil =>
      have hn : cs.length = n := by simpa using h
      simp [joinGroups, hn]
    | cons m ns =>
      have hd : (cs.drop n).length = (m :: ns).sum := by
        simp only [List.length_drop, h, List.sum_cons]
        omega
      have hi := ih (by simp) hd
      have hn : (cs.take n).length = n := by
        simp only [List.length_take, h, List.sum_cons]
        omega
      simp only [joinGroups, List.length_append, List.length_cons, hn] at hi ⊢
      simp only [List.sum_cons] at hi ⊢
      omega

theorem length_toString (u : Uuid) : u.toString.toList.length = 36 := by
  have hc : u.toChars.length = hyphenGroups.sum := u.toChars_length
  have hl := joinGroups_length (by decide : hyphenGroups ≠ []) hc
  rw [toString, String.toList_ofList]
  simp only [hyphenGroups, List.sum_cons, List.sum_nil, List.length_cons,
    List.length_nil] at hl ⊢
  omega

/-- The canonical spelling of an identifier parses back to it. -/
@[simp]
theorem parse_toString (u : Uuid) : parse u.toString = some u := by
  have hc : u.toChars.length = hyphenGroups.sum := u.toChars_length
  have h36 : (joinGroups hyphenGroups u.toChars).length = 36 := by
    have h := u.length_toString
    rwa [toString, String.toList_ofList] at h
  simp only [parse, toString, String.toList_ofList, h36, parseHyphenated,
    splitGroups_joinGroups hc, Option.bind_some, HexId.ofChars_toChars]
  rfl

theorem toString_injective : Function.Injective toString := by
  intro u v h
  have hu := parse_toString u
  rw [h, parse_toString] at hu
  exact (Option.some.inj hu).symm

end Uuid

end Buzz
