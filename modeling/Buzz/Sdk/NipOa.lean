import Buzz.GitSign.SignVerify

namespace Buzz.Sdk
set_option autoImplicit true
open Json GitSign

/-- What is said of an input that is not valid. -/
inductive SdkError where
  | whitespace
  | emptyClause
  | unsupportedClause (clause : List Char)
  | emptyValue (label : String)
  | leadingZero (label : String) (value : List Char)
  | notDecimal (label : String) (value : List Char)
  | outOfRange (label : String) (value : List Char)
  | invalidJson
  | notArray
  | elements (n : ℕ)
  | notString (i : ℕ)
  | label (own : String)
  | ownerPubkey (own : String)
  | selfAttestation
  | signatureHex (own : String)
  | xonly
  | verification

def validateCanonicalDecimal (s : List Char) (min max : ℕ) (label : String) :
    Except SdkError Unit :=
  if s = [] then .error (.emptyValue label)
  else if 1 < s.length ∧ s.head? = some '0' then .error (.leadingZero label s)
  else if ! s.all Char.isDigit then .error (.notDecimal label s)
  else
    match Decimal.parse (2 ^ 64) s with
    | none => .error (.outOfRange label s)
    | some value => if value < min ∨ max < value then .error (.outOfRange label s) else .ok ()

def validateClause (clause : List Char) : Except SdkError Unit :=
  match clause.dropPrefix? "kind=".toList with
  | some value => validateCanonicalDecimal value 0 65535 "kind"
  | none =>
    match clause.dropPrefix? "created_at<".toList with
    | some value => validateCanonicalDecimal value 0 4294967295 "created_at<"
    | none =>
      match clause.dropPrefix? "created_at>".toList with
      | some value => validateCanonicalDecimal value 0 4294967295 "created_at>"
      | none => .error (.unsupportedClause clause)

def validateClauses : List (List Char) → Except SdkError Unit
  | [] => .ok ()
  | clause :: clauses =>
    if clause = [] then .error .emptyClause
    else do
      validateClause clause
      validateClauses clauses

/-- Clauses with `&` between them, or none at all. -/
def validateConditions (conditions : String) : Except SdkError Unit :=
  if conditions = "" then .ok ()
  else if conditions.toList.any isAsciiWhitespace then .error .whitespace
  else validateClauses (conditions.toList.splitOn '&')

section Tag

variable {K R F : Type} (X : Externals K R F) (sha256 : ByteArray → HexId 64)

def buildPreimage (agentPubkey : HexId 64) (conditions : String) : String :=
  "nostr:agent-auth:" ++ agentPubkey.toHex ++ ":" ++ conditions

def hashPreimage (preimage : String) : HexId 64 :=
  sha256 (utf8Bytes preimage.toList).toByteArray

def parseJsonArray (s : String) : Except SdkError (List (Value F)) := do
  let v ← okOr (fromStr X.float s) .invalidJson
  okOr v.asArray .notArray

def tagText (owner conditions sig : String) : String :=
  String.ofList (printArray ([ "auth", owner, conditions, sig].map printString))

def computeAuthTag (owner : K) (randomness : R) (agentPubkey : HexId 64) (conditions : String) :
    Except SdkError String :=
  if X.publicKey owner = agentPubkey then .error .selfAttestation
  else do
    validateConditions conditions
    let message := hashPreimage sha256 (buildPreimage agentPubkey conditions)
    let sig := X.signSchnorr owner randomness message
    .ok (tagText (X.publicKey owner).toHex conditions sig.toHex)

/-- The fields of a tag behind its label. -/
def tagFields (v₀ v₁ v₂ v₃ : Value F) : Except SdkError (String × String × String) := do
  let own ← okOr v₀.asStr (.notString 0)
  if own ≠ "auth" then .error (.label own)
  else
    let owner ← okOr v₁.asStr (.notString 1)
    let conditions ← okOr v₂.asStr (.notString 2)
    let sig ← okOr v₃.asStr (.notString 3)
    .ok (owner, conditions, sig)

def verifyFields (owner conditions sig : String) (agentPubkey : HexId 64) :
    Except SdkError (HexId 64) := do
  let key ← (X.publicKeyFromHex owner).mapError fun _ => .ownerPubkey owner
  validateConditions conditions
  if key = agentPubkey then .error .selfAttestation
  else
    let sig ← okOr (HexId.ofChars 128 sig.toList) (.signatureHex sig)
    let message := hashPreimage sha256 (buildPreimage agentPubkey conditions)
    if ! X.hasXonly key then .error .xonly
    else if X.verifySchnorr sig message key then .ok key
    else .error .verification

def verifyAuthTag (authTagJson : String) (agentPubkey : HexId 64) : Except SdkError (HexId 64) := do
  match ← parseJsonArray X authTagJson with
  | [v₀, v₁, v₂, v₃] =>
    let (owner, conditions, sig) ← tagFields v₀ v₁ v₂ v₃
    verifyFields X sha256 owner conditions sig agentPubkey
  | arr => .error (.elements arr.length)

/-- The checks of the structure of a tag, in the order in which its fields are read. -/
def checkFields (v₀ v₁ v₂ v₃ : Value F) : Except SdkError (List String) := do
  let own ← okOr v₀.asStr (.notString 0)
  if own ≠ "auth" then .error (.label own)
  else
    let owner ← okOr v₁.asStr (.notString 1)
    if ! isHexField owner 64 then .error (.ownerPubkey owner)
    else
      let conditions ← okOr v₂.asStr (.notString 2)
      validateConditions conditions
      let sig ← okOr v₃.asStr (.notString 3)
      if ! isHexField sig 128 then .error (.signatureHex sig)
      else .ok ["auth", owner, conditions, sig]

def parseAuthTag (jsonStr : String) : Except SdkError (List String) := do
  match ← parseJsonArray X jsonStr with
  | [v₀, v₁, v₂, v₃] => checkFields v₀ v₁ v₂ v₃
  | arr => .error (.elements arr.length)

end Tag

section Conditions

variable {s clause : List Char} {conditions : String} {label : String}

theorem parse_digits (bound : ℕ) (hne : s ≠ []) (hdigits : s.all Char.isDigit = true) :
    Decimal.parse bound s =
      if Nat.ofDigitChars 10 s 0 < bound then some (Nat.ofDigitChars 10 s 0) else none := by
  have hplus : s.head? ≠ some '+' := by
    intro h
    have hdigit := List.all_eq_true.mp hdigits '+' (List.mem_of_head? h)
    exact absurd hdigit (by decide)
  have hnumeral : Decimal.isNumeral s = true := by
    rw [Decimal.isNumeral, hdigits, Bool.and_true, Bool.not_eq_true', List.isEmpty_eq_false_iff]
    exact hne
  simp only [Decimal.parse, hplus, if_false, hnumeral, Bool.true_and, decide_eq_true_eq]

/-- The two parsers accept the same decimals. -/
theorem validateCanonicalDecimal_iff {max : ℕ} (hmax : max < 2 ^ 32) :
    validateCanonicalDecimal s 0 max label = .ok () ↔ (parseDecimalU32 s).any (· ≤ max) = true := by
  rw [validateCanonicalDecimal, parseDecimalU32]
  by_cases hne : s = []
  · rw [if_pos hne, if_pos hne]
    exact ⟨(fun h => by cases h), fun h => by cases h⟩
  · rw [if_neg hne, if_neg hne]
    by_cases hzero : 1 < s.length ∧ s.head? = some '0'
    · rw [if_pos hzero, if_pos hzero]
      refine ⟨(fun h => by cases h), ?_⟩
      intro h
      split at h
      · cases h
      · cases h
    · rw [if_neg hzero, if_neg hzero]
      cases hdigits : s.all Char.isDigit with
      | false =>
        refine ⟨(fun h => by cases h), ?_⟩
        intro h
        split at h
        · cases h
        · cases h
      | true =>
        have hsign : ¬ (s.head? = some '+' ∨ s.head? = some '-') := by
          intro h
          rcases h with h | h
          · exact absurd (List.all_eq_true.mp hdigits _ (List.mem_of_head? h)) (by decide)
          · exact absurd (List.all_eq_true.mp hdigits _ (List.mem_of_head? h)) (by decide)
        rw [if_neg hsign, parse_digits _ hne hdigits, parse_digits _ hne hdigits]
        generalize Nat.ofDigitChars 10 s 0 = n
        simp only [Bool.not_true, Bool.false_eq_true, if_false, if_true, Nat.not_lt_zero, false_or]
        by_cases h32 : n < 2 ^ 32
        · rw [if_pos h32, if_pos (by omega), Option.any_some, decide_eq_true_eq]
          by_cases hle : max < n
          · simp only [if_pos hle]
            exact ⟨(fun h => by cases h), fun h => absurd hle (Nat.not_lt.mpr h)⟩
          · simp only [if_neg hle]
            exact ⟨fun _ => Nat.not_lt.mp hle, fun _ => trivial⟩
        · have hlarge : max < n := by omega
          rw [if_neg h32, Option.any_none]
          refine ⟨?_, fun h => by cases h⟩
          intro h
          split at h
          · cases h
          · rename_i value hvalue
            split at hvalue
            · obtain rfl := Option.some.inj hvalue
              rw [if_pos hlarge] at h
              cases h
            · cases hvalue

theorem isSome_iff_any {x : Option ℕ} (h : ∀ n ∈ x, n < 2 ^ 32) :
    x.isSome = true ↔ x.any (· ≤ 4294967295) = true := by
  cases x with
  | none => exact Iff.rfl
  | some n =>
    have hn := h n rfl
    simp only [Option.isSome_some, Option.any_some, decide_eq_true_eq, true_iff]
    omega

theorem parseDecimalU32_lt {n : ℕ} (h : n ∈ parseDecimalU32 s) : n < 2 ^ 32 := by
  rw [parseDecimalU32] at h
  split at h
  · cases h
  rename_i hne
  split at h
  · cases h
  split at h
  · cases h
  split at h
  · rename_i hdigits
    rw [parse_digits _ hne hdigits] at h
    split at h
    · rename_i hbound
      rw [← Option.some.inj h]
      exact hbound
    · cases h
  · cases h

theorem validateClause_iff :
    validateClause clause = .ok () ↔ GitSign.validateClause clause = true := by
  have hcreatedAt : ∀ (s : List Char) (label : String),
      validateCanonicalDecimal s 0 4294967295 label = .ok () ↔
        (parseDecimalU32 s).isSome = true := by
    intro s label
    rw [isSome_iff_any fun n hn => parseDecimalU32_lt hn]
    exact validateCanonicalDecimal_iff (by norm_num)
  rw [validateClause, GitSign.validateClause]
  cases clause.dropPrefix? "kind=".toList with
  | some value => exact validateCanonicalDecimal_iff (by norm_num)
  | none =>
    cases clause.dropPrefix? "created_at<".toList with
    | some value => exact hcreatedAt value _
    | none =>
      cases clause.dropPrefix? "created_at>".toList with
      | some value => exact hcreatedAt value _
      | none => exact ⟨(fun h => by cases h), fun h => by cases h⟩

theorem validateClauses_iff (clauses : List (List Char)) : validateClauses clauses = .ok () ↔
    (clauses.all fun clause => clause ≠ [] && GitSign.validateClause clause) = true := by
  induction clauses with
  | nil => exact ⟨fun _ => rfl, fun _ => rfl⟩
  | cons clause clauses ih =>
    rw [validateClauses, List.all_cons, Bool.and_eq_true, Bool.and_eq_true, ← validateClause_iff,
      ← ih, decide_eq_true_eq]
    by_cases hne : clause = []
    · rw [if_pos hne]
      exact ⟨nofun, fun h => absurd hne h.1.1⟩
    · rw [if_neg hne]
      constructor
      · intro h
        obtain ⟨_, hclause, hrest⟩ := ok_of_bind h
        exact ⟨⟨hne, hclause⟩, hrest⟩
      · intro h
        rw [h.1.2]
        exact h.2

theorem isConditionChar_of_whitespace {c : Char} (h : isAsciiWhitespace c = true) :
    isConditionChar c = false := by
  rw [isAsciiWhitespace] at h
  simp only [Bool.or_eq_true, beq_iff_eq] at h
  rcases h with (((rfl | rfl) | rfl) | rfl) | rfl
  all_goals decide

/-- The two grammars of conditions are one. -/
theorem validateConditions_iff (conditions : String) :
    validateConditions conditions = .ok () ↔ GitSign.validateConditions conditions = true := by
  have hplain : GitSign.validateConditions conditions = true →
      conditions.toList.any isAsciiWhitespace = false := by
    intro h
    apply Bool.eq_false_iff.mpr
    intro hany
    obtain ⟨c, hc, hwhite⟩ := List.any_eq_true.mp hany
    have hchar := isConditionChar_of_valid h hc
    rw [isConditionChar_of_whitespace hwhite] at hchar
    cases hchar
  by_cases hempty : conditions = ""
  · rw [validateConditions, if_pos hempty, GitSign.validateConditions, decide_eq_true hempty]
    exact ⟨fun _ => rfl, fun _ => rfl⟩
  · have hgrammar : GitSign.validateConditions conditions = true ↔
        validateClauses (conditions.toList.splitOn '&') = .ok () := by
      rw [validateClauses_iff, GitSign.validateConditions, decide_eq_false hempty, Bool.false_or]
    rw [validateConditions, if_neg hempty]
    constructor
    · intro h
      split at h
      · cases h
      · exact hgrammar.mpr h
    · intro h
      rw [if_neg (by rw [hplain h]; exact Bool.false_ne_true)]
      exact hgrammar.mp h

end Conditions

end Buzz.Sdk
