import Buzz.Lib.ListAt
import Buzz.Lib.PrefixCode

namespace Buzz.Engram
set_option autoImplicit true

def CORE_SLUG : String := "core"
def SLUG_MAX_LEN : Nat := 255
def MEM_PREFIX : String := "mem/"

/-- What the text of an invalid slug says. -/
inductive SlugProblem where
  | tooLong (length : Nat)
  | noPrefix (slug : String)
  | empty
  | segment (index : Nat) (segment : String) (why : String)
deriving DecidableEq

def isLowerAlnum (c : Char) : Bool :=
  ('a' ≤ c && c ≤ 'z') || ('0' ≤ c && c ≤ '9')

/-- A character beyond ASCII starts with a byte that is not allowed. -/
def validateSegment : List Char → Except String Unit
  | [] => .error "empty"
  | first :: rest =>
    if 64 < textSize (first :: rest) then .error "longer than 64 bytes"
    else if !isLowerAlnum first then .error "first byte must be [a-z0-9]"
    else if !rest.all (fun c => isLowerAlnum c || c == '_' || c == '-') then
      .error "only [a-z0-9_-] allowed after the first byte"
    else .ok ()

def validateSegments (index : Nat) : List (List Char) → Except SlugProblem Unit
  | [] => .ok ()
  | segment :: segments =>
    match validateSegment segment with
    | .error why => .error (.segment index (String.ofList segment) why)
    | .ok () => validateSegments (index + 1) segments

def validateSlug (slug : String) : Except SlugProblem Unit :=
  if slug = CORE_SLUG then .ok ()
  else if SLUG_MAX_LEN < slug.utf8ByteSize then .error (.tooLong slug.utf8ByteSize)
  else
    match slug.toList.dropPrefix? MEM_PREFIX.toList with
    | none => .error (.noPrefix slug)
    | some rest =>
      if rest = [] then .error .empty else validateSegments 1 (rest.splitOn '/')

/-- The byte twice, from a place on. -/
def isPair (bytes : List UInt8) (i : Nat) (b : UInt8) : Bool :=
  bytes[i]? == some b && bytes[i + 1]? == some b

/-- The inner loop: where it stops, and whether it stops at two closing brackets. -/
def findClose (bytes : List UInt8) (j : Nat) : Nat × Bool :=
  if j + 1 < bytes.length then
    if isPair bytes j 91 then (j, false)
    else if isPair bytes j 93 then (j, true)
    else findClose bytes (j + 1)
  else (j, false)
termination_by bytes.length - j

theorem le_findClose (bytes : List UInt8) (j : Nat) : j ≤ (findClose bytes j).1 := by
  fun_induction findClose bytes j with
  | case1 j _ _ => exact Nat.le_refl j
  | case2 j _ _ _ => exact Nat.le_refl j
  | case3 j _ _ _ ih => exact Nat.le_of_succ_le ih
  | case4 j _ => exact Nat.le_refl j

/-- `&body[start..j]`. It is a text unless the slice panics. -/
def slice (bytes : List UInt8) (start j : Nat) : Option String :=
  String.fromUTF8? ((bytes.drop start).take (j - start)).toByteArray

def extractLoop (bytes : List UInt8) (i : Nat) (out : List String) : Option (List String) :=
  if i + 3 < bytes.length then
    if isPair bytes i 91 then
      if (findClose bytes (i + 2)).2 then
        match slice bytes (i + 2) (findClose bytes (i + 2)).1 with
        | none => none
        | some candidate =>
          extractLoop bytes ((findClose bytes (i + 2)).1 + 2)
            (if (validateSlug candidate).isOk && !out.contains candidate then out ++ [candidate]
              else out)
      else extractLoop bytes (i + 2) out
    else extractLoop bytes (i + 1) out
  else some out
termination_by bytes.length - i
decreasing_by
  · have hle := le_findClose bytes (i + 2)
    omega
  · omega
  · omega

/-- The slugs that a text refers to. A panic is `none`. -/
def extractRefs (body : String) : Option (List String) :=
  extractLoop (utf8Bytes body.toList) 0 []

def isSlugChar (c : Char) : Bool :=
  isLowerAlnum c || c == '_' || c == '-' || c == '/'

theorem mem_of_validateSegment {segment : List Char} (h : validateSegment segment = .ok ()) :
    ∀ c ∈ segment, isSlugChar c = true := by
  cases segment with
  | nil => cases h
  | cons first rest =>
    rw [validateSegment] at h
    split at h
    · cases h
    · split at h
      · cases h
      · rename_i hfirst
        split at h
        · cases h
        · rename_i hrest
          rw [Bool.not_eq_true, Bool.not_eq_false'] at hfirst hrest
          rw [List.forall_mem_cons]
          refine ⟨?_, ?_⟩
          · rw [isSlugChar, hfirst]
            rfl
          · intro c hc
            have hall := List.all_eq_true.mp hrest c hc
            rw [isSlugChar, hall, Bool.true_or]

theorem mem_of_validateSegments {index : Nat} {segments : List (List Char)}
    (h : validateSegments index segments = .ok ()) :
    ∀ segment ∈ segments, ∀ c ∈ segment, isSlugChar c = true := by
  induction segments generalizing index with
  | nil => exact nofun
  | cons segment segments ih =>
    rw [validateSegments] at h
    split at h
    · cases h
    · rename_i hsegment
      rw [List.forall_mem_cons]
      exact ⟨mem_of_validateSegment hsegment, ih h⟩

/-- A valid slug is made of slug characters. -/
theorem slugChar_of_valid {s : String} (h : validateSlug s = .ok ()) :
    s.toList ≠ [] ∧ ∀ c ∈ s.toList, isSlugChar c = true := by
  rw [validateSlug] at h
  split at h
  · rename_i hcore
    subst hcore
    have hall : CORE_SLUG.toList.all isSlugChar = true := by decide
    exact ⟨by decide, List.all_eq_true.mp hall⟩
  · split at h
    · cases h
    · split at h
      · cases h
      · rename_i rest hprefix
        obtain ⟨pre, hs, hpre⟩ := List.dropPrefix?_eq_some_iff.mp hprefix
        rw [beq_iff_eq] at hpre
        subst hpre
        split at h
        · cases h
        · rename_i hrest
          rw [hs]
          refine ⟨List.append_ne_nil_of_right_ne_nil _ hrest, ?_⟩
          have hall : MEM_PREFIX.toList.all isSlugChar = true := by decide
          rw [List.forall_mem_append]
          refine ⟨List.all_eq_true.mp hall, ?_⟩
          intro c hc
          rcases ListAt.mem_splitOn '/' hc with rfl | ⟨part, hpart, hmem⟩
          · decide
          · exact mem_of_validateSegments h part hpart c hmem

end Buzz.Engram
