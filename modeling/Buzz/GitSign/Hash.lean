import Buzz.Git.Manifest
import Buzz.Lib.Decimal
import Buzz.Lib.ListAt
import Buzz.Lib.PrefixCode
import Buzz.Lib.Sha256

namespace Buzz.GitSign
set_option autoImplicit true

def DOMAIN_SEPARATOR : String := "nostr:git:v1:"

/-- A bare decimal of 32 bits, without a superfluous zero in front. -/
def parseDecimalU32 (s : List Char) : Option ℕ :=
  if s = [] then none
  else if s.head? = some '+' ∨ s.head? = some '-' then none
  else if 1 < s.length ∧ s.head? = some '0' then none
  else if s.all Char.isDigit then Decimal.parse (2 ^ 32) s
  else none

def validateClause (clause : List Char) : Bool :=
  match clause.dropPrefix? "kind=".toList with
  | some val => (parseDecimalU32 val).any (· ≤ 65535)
  | none =>
    match clause.dropPrefix? "created_at<".toList with
    | some val => (parseDecimalU32 val).isSome
    | none =>
      match clause.dropPrefix? "created_at>".toList with
      | some val => (parseDecimalU32 val).isSome
      | none => false

/-- Clauses with `&` between them, or none at all. -/
def validateConditions (conditions : String) : Bool :=
  conditions = "" ||
    (conditions.toList.splitOn '&').all fun clause => clause ≠ [] && validateClause clause

/-- The owner's public key, the conditions, and the owner's signature over them. -/
structure Attestation where
  owner : String
  conditions : String
  ownerSig : String
deriving DecidableEq

/-- A field of lowercase hexadecimal digits. -/
def isHexField (val : String) (expectedLen : ℕ) : Bool :=
  val.utf8ByteSize = expectedLen && val.toList.all isLowerHex

namespace Attestation

/-- What is checked of an attestation before it is used. -/
def WellFormed (oa : Attestation) : Prop :=
  validateConditions oa.conditions = true ∧ isHexField oa.owner 64 = true ∧
    isHexField oa.ownerSig 128 = true

/-- `oa[0] || ":" || oa[1] || ":" || oa[2] || ":"`. -/
def binding (oa : Attestation) : List UInt8 :=
  utf8Bytes oa.owner.toList ++ utf8Bytes [':'] ++ utf8Bytes oa.conditions.toList ++ utf8Bytes [':'] ++
    utf8Bytes oa.ownerSig.toList ++ utf8Bytes [':']

end Attestation

/-- The bytes that are hashed. -/
def signingPreimage (timestamp : ℕ) (oa : Option Attestation) (payload : List UInt8) : List UInt8 :=
  utf8Bytes DOMAIN_SEPARATOR.toList ++ utf8Bytes (Decimal.write timestamp) ++ utf8Bytes [':'] ++
    (match oa with
    | some oa => oa.binding
    | none => []) ++ payload

def computeSigningHash (sha256 : ByteArray → HexId 64) (timestamp : ℕ) (oa : Option Attestation)
    (payload : List UInt8) : HexId 64 :=
  sha256 (signingPreimage timestamp oa payload).toByteArray

/-- A commit starts with its tree, a tag with its object. -/
def IsGitObject (payload : List UInt8) : Prop :=
  utf8Bytes "tree ".toList <+: payload ∨ utf8Bytes "object ".toList <+: payload

/-- A character of conditions. -/
def isConditionChar (c : Char) : Bool :=
  c.isAlphanum || c == '_' || c == '=' || c == '<' || c == '>' || c == '&'

section Conditions

variable {s val clause : List Char} {conditions : String} {c : Char}

theorem isDigit_of_parseDecimalU32 (h : (parseDecimalU32 val).isSome = true) (hc : c ∈ val) :
    c.isDigit = true := by
  rw [parseDecimalU32] at h
  split at h
  · cases h
  split at h
  · cases h
  split at h
  · cases h
  split at h
  · rename_i hdigits
    exact List.all_eq_true.mp hdigits c hc
  · cases h

theorem isConditionChar_of_digit (h : c.isDigit = true) : isConditionChar c = true := by
  have halnum : c.isAlphanum = true := by
    rw [Char.isAlphanum, h, Bool.or_true]
  rw [isConditionChar, halnum]
  rfl

theorem isConditionChar_of_prefix {name : String}
    (hname : name.toList.all isConditionChar = true)
    (h : clause.dropPrefix? name.toList = some val) (hval : (parseDecimalU32 val).isSome = true)
    (hc : c ∈ clause) : isConditionChar c = true := by
  obtain ⟨own, rfl, hown⟩ := List.dropPrefix?_eq_some_iff.mp h
  obtain rfl := eq_of_beq hown
  rcases List.mem_append.mp hc with hc | hc
  · exact List.all_eq_true.mp hname c hc
  · exact isConditionChar_of_digit (isDigit_of_parseDecimalU32 hval hc)

theorem isConditionChar_of_clause (h : validateClause clause = true) (hc : c ∈ clause) :
    isConditionChar c = true := by
  rw [validateClause] at h
  split at h
  · rename_i val hval
    apply isConditionChar_of_prefix rfl hval ?_ hc
    cases hparse : parseDecimalU32 val with
    | none =>
      rw [hparse] at h
      cases h
    | some n => rfl
  split at h
  · rename_i val hval
    exact isConditionChar_of_prefix rfl hval h hc
  split at h
  · rename_i val hval
    exact isConditionChar_of_prefix rfl hval h hc
  · cases h

/-- Conditions that are valid have only the characters of clauses in them. -/
theorem isConditionChar_of_valid (h : validateConditions conditions = true)
    (hc : c ∈ conditions.toList) : isConditionChar c = true := by
  rw [validateConditions, Bool.or_eq_true, decide_eq_true_iff] at h
  rcases h with rfl | h
  · exact absurd hc List.not_mem_nil
  · obtain rfl | ⟨clause, hclause, hmem⟩ := ListAt.mem_splitOn '&' hc
    · rfl
    · have hvalid := List.all_eq_true.mp h clause hclause
      rw [Bool.and_eq_true] at hvalid
      exact isConditionChar_of_clause hvalid.2 hmem

end Conditions

section Unambiguous

variable {t t' : ℕ} {oa oa' : Option Attestation} {payload payload' : List UInt8}

/-- A text without a colon ends at the first byte of one. -/
theorem eq_of_colon {u v : List Char} {x y : List UInt8} (hu : ':' ∉ u) (hv : ':' ∉ v)
    (h : utf8Bytes u ++ utf8Bytes [':'] ++ x = utf8Bytes v ++ utf8Bytes [':'] ++ y) :
    u = v ∧ x = y := by
  have hbytes {w : List Char} (hw : ':' ∉ w) : UInt8.ofNat 58 ∉ utf8Bytes w := by
    intro hmem
    obtain ⟨c, hc, hcolon⟩ := mem_of_mem_utf8Bytes (by decide) hmem
    obtain rfl : c = ':' := Char.toNat_inj.mp hcolon
    exact hw hc
  rw [List.append_assoc, List.append_assoc] at h
  obtain ⟨hsame, hrest⟩ := PrefixCode.eq_of_terminated (hbytes hu) (hbytes hv) h
  exact ⟨utf8Bytes_injective hsame, hrest⟩

theorem colon_not_mem_write (n : ℕ) : ':' ∉ Decimal.write n :=
  Decimal.not_mem_write (by decide)

theorem colon_not_mem_hexField {val : String} {len : ℕ} (h : isHexField val len = true) :
    ':' ∉ val.toList := by
  intro hmem
  rw [isHexField, Bool.and_eq_true] at h
  exact absurd (List.all_eq_true.mp h.2 ':' hmem) (by decide)

theorem colon_not_mem_conditions {conditions : String} (h : validateConditions conditions = true) :
    ':' ∉ conditions.toList := by
  intro hmem
  exact absurd (isConditionChar_of_valid h hmem) (by decide)

/-- Two attestations with something behind them. -/
theorem binding_cut {a a' : Attestation} {x y : List UInt8} (ha : a.WellFormed) (ha' : a'.WellFormed)
    (h : a.binding ++ x = a'.binding ++ y) : a = a' ∧ x = y := by
  obtain ⟨owner, conditions, ownerSig⟩ := a
  obtain ⟨owner', conditions', ownerSig'⟩ := a'
  obtain ⟨hconditions, howner, hsig⟩ := ha
  obtain ⟨hconditions', howner', hsig'⟩ := ha'
  dsimp only [Attestation.binding] at *
  simp only [List.append_assoc] at h
  simp only [← List.append_assoc (utf8Bytes _) (utf8Bytes [':'])] at h
  obtain ⟨hownerEq, h⟩ := eq_of_colon (colon_not_mem_hexField howner) (colon_not_mem_hexField howner') h
  obtain ⟨hconditionsEq, h⟩ :=
    eq_of_colon (colon_not_mem_conditions hconditions) (colon_not_mem_conditions hconditions') h
  obtain ⟨hsigEq, h⟩ := eq_of_colon (colon_not_mem_hexField hsig) (colon_not_mem_hexField hsig') h
  rw [String.toList_inj.mp hownerEq, String.toList_inj.mp hconditionsEq, String.toList_inj.mp hsigEq]
  exact ⟨rfl, h⟩

/-- An attestation starts with a digit, and a git object with a letter that is none. -/
theorem binding_ne_object {a : Attestation} {x : List UInt8} (ha : a.WellFormed)
    (hp : IsGitObject payload) : a.binding ++ x ≠ payload := by
  have hhex := ha.2.1
  rw [isHexField, Bool.and_eq_true, decide_eq_true_iff] at hhex
  obtain ⟨hsize, hdigits⟩ := hhex
  cases howner : a.owner.toList with
  | nil =>
    rw [utf8ByteSize_eq, howner] at hsize
    cases hsize
  | cons c cs =>
    have hdigit := List.all_eq_true.mp hdigits c (howner ▸ List.mem_cons_self)
    have hstart {d : Char} {ds : List Char} {rest : List UInt8}
        (h : a.binding ++ x = utf8Bytes (d :: ds) ++ rest) : c = d := by
      rw [Attestation.binding, howner] at h
      simp only [utf8Bytes, List.flatMap_cons, List.append_assoc] at h
      exact prefixCode_utf8EncodeChar c d _ _ h
    rintro rfl
    rcases hp with ⟨rest, hrest⟩ | ⟨rest, hrest⟩
    · obtain rfl := hstart hrest.symm
      exact absurd hdigit (by decide)
    · obtain rfl := hstart hrest.symm
      exact absurd hdigit (by decide)

/-- The bytes that are hashed tell the time, the attestation and the object. -/
theorem signingPreimage_inj (hoa : ∀ a ∈ oa, a.WellFormed) (hoa' : ∀ a ∈ oa', a.WellFormed)
    (hp : IsGitObject payload) (hp' : IsGitObject payload')
    (h : signingPreimage t oa payload = signingPreimage t' oa' payload') :
    t = t' ∧ oa = oa' ∧ payload = payload' := by
  simp only [signingPreimage, List.append_assoc] at h
  have h := List.append_cancel_left h
  simp only [← List.append_assoc (utf8Bytes (Decimal.write _))] at h
  obtain ⟨ht, h⟩ := eq_of_colon (colon_not_mem_write t) (colon_not_mem_write t') h
  refine ⟨Decimal.write_injective ht, ?_⟩
  cases oa with
  | none =>
    cases oa' with
    | none => exact ⟨rfl, h⟩
    | some a' => exact absurd h.symm (binding_ne_object (hoa' a' rfl) hp)
  | some a =>
    cases oa' with
    | none => exact absurd h (binding_ne_object (hoa a rfl) hp')
    | some a' =>
      obtain ⟨rfl, hpayload⟩ := binding_cut (hoa a rfl) (hoa' a' rfl) h
      exact ⟨rfl, hpayload⟩

/-- What is signed is unambiguous: its bytes tell the time, the attestation and the object, and so does
a hash without a collision on them. -/
theorem signing_unambiguous (hoa : ∀ a ∈ oa, a.WellFormed) (hoa' : ∀ a ∈ oa', a.WellFormed)
    (hp : IsGitObject payload) (hp' : IsGitObject payload') :
    (signingPreimage t oa payload = signingPreimage t' oa' payload' →
      t = t' ∧ oa = oa' ∧ payload = payload') ∧
    ∀ sha256 : ByteArray → HexId 64,
      Set.InjOn sha256 {(signingPreimage t oa payload).toByteArray,
        (signingPreimage t' oa' payload').toByteArray} →
      computeSigningHash sha256 t oa payload = computeSigningHash sha256 t' oa' payload' →
        t = t' ∧ oa = oa' ∧ payload = payload' := by
  refine ⟨signingPreimage_inj hoa hoa' hp hp', fun sha256 hfree h => ?_⟩
  apply signingPreimage_inj hoa hoa' hp hp'
  have hbytes := hfree (Set.mem_insert _ _) (Set.mem_insert_of_mem _ rfl) h
  exact List.toByteArray_inj.mp hbytes

end Unambiguous

namespace HashExample

def attestation : Attestation where
  owner := String.ofList (List.replicate 64 'a')
  conditions := "kind=1"
  ownerSig := String.ofList (List.replicate 128 '0')

/-- The start of a commit. -/
def commit : List UInt8 :=
  utf8Bytes "tree 4b825dc642cb6eb9a060e54bf8d69288fbee4904\n".toList

theorem wellFormed_attestation : attestation.WellFormed := by
  refine ⟨by decide +kernel, by decide +kernel, by decide +kernel⟩

theorem isGitObject_commit : IsGitObject commit :=
  .inl (by decide +kernel)

end HashExample

open HashExample

/-- Without its attestation, a signature is one over other bytes. -/
theorem signing_unambiguous_stripped :
    signingPreimage 1700000000 (some attestation) commit ≠ signingPreimage 1700000000 none commit ∧
    computeSigningHash sha256 1700000000 (some attestation) commit ≠
      computeSigningHash sha256 1700000000 none commit := by
  have happlied := @signing_unambiguous 1700000000 1700000000 (some attestation) none commit commit
    (fun a ha => Option.some.inj ha ▸ wellFormed_attestation) (fun a ha => by cases ha)
    isGitObject_commit isGitObject_commit
  refine ⟨fun h => ?_, fun h => ?_⟩
  · cases (happlied.1 h).2.1
  · have hdiffer : sha256 (signingPreimage 1700000000 (some attestation) commit).toByteArray ≠
        sha256 (signingPreimage 1700000000 none commit).toByteArray := by
      decide +kernel
    have hfree := Set.injOn_pair.mpr fun heq => absurd heq hdiffer
    cases (happlied.2 sha256 hfree h).2.1

end Buzz.GitSign
