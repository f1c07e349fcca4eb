import Buzz.GitSign.Hash
import Buzz.Lib.Base64
import Buzz.Lib.Fallible
import Buzz.Lib.JsonParse

namespace Buzz.GitSign
set_option autoImplicit true
open Json

def ARMOR_BEGIN : String := "-----BEGIN SIGNED MESSAGE-----"
def ARMOR_END : String := "-----END SIGNED MESSAGE-----"
def MAX_SIG_FILE : ℕ := 8 * 1024
def MAX_JSON_DECODED : ℕ := 2048
def MAX_BASE64_LINE : ℕ := 4096

/-- What the program takes from its libraries: floating-point numbers and errors of JSON, the keys and
the signatures of BIP-340. Signing takes some randomness. -/
structure Externals (K R F : Type) where
  float : List Char → Option F
  jsonError : String → String
  publicKey : K → HexId 64
  publicKeyFromHex : String → Except String (HexId 64)
  fromBech32 : String → Option (HexId 64)
  hasXonly : HexId 64 → Bool
  signSchnorr : K → R → HexId 64 → HexId 128
  verifySchnorr : HexId 128 → HexId 64 → HexId 64 → Bool

/-- A public key reads back, and what a key signs is accepted under it. -/
structure Externals.Sound {K R F : Type} (X : Externals K R F) : Prop where
  publicKeyFromHex : ∀ k, X.publicKeyFromHex (X.publicKey k).toHex = .ok (X.publicKey k)
  hasXonly : ∀ k, X.hasXonly (X.publicKey k) = true
  verifySchnorr : ∀ k r hash, X.verifySchnorr (X.signSchnorr k r hash) hash (X.publicKey k) = true

structure Envelope where
  pk : String
  sig : String
  t : ℕ
  oa : Option Attestation
deriving DecidableEq

/-- The compact text, in a fixed order. -/
def buildEnvelope (pk sig : String) (t : ℕ) (oa : Option Attestation) : String :=
  String.ofList ("\x7b\"v\":1,\"pk\":\"".toList ++ pk.toList ++ "\",\"sig\":\"".toList ++ sig.toList ++
    "\",\"t\":".toList ++ Decimal.write t ++
    match oa with
    | some oa =>
      ",\"oa\":[\"".toList ++ oa.owner.toList ++ "\",\"".toList ++ oa.conditions.toList ++
        "\",\"".toList ++ oa.ownerSig.toList ++ "\"]\x7d".toList
    | none => "\x7d".toList)

def armorLines (b64 : List Char) : List Char :=
  ARMOR_BEGIN.toList ++ '\n' :: (b64 ++ '\n' :: (ARMOR_END.toList ++ ['\n']))

def armor (json : String) : String :=
  String.ofList (armorLines (Base64.encode (utf8Bytes json.toList)))

def fromUtf8 (bytes : List UInt8) : Option String :=
  String.fromUTF8? bytes.toByteArray

def endsInBlank (line : List Char) : Bool :=
  line.getLast? = some ' ' || line.getLast? = some '\t' || line.getLast? = some '\r'

def checkTrailing : ℕ → List (List Char) → Except String Unit
  | _, [] => .ok ()
  | i, line :: lines =>
    if endsInBlank line then .error ("trailing whitespace on line " ++ toString (i + 1))
    else checkTrailing (i + 1) lines

/-- The line between the markers. -/
def parseArmor (content : String) : Except String String :=
  if content.toList.getLast? ≠ some '\n' then .error "armor must end with a newline"
  else
    match content.toList.dropLast.splitOn '\n' with
    | [first, b64, last] =>
      if first ≠ ARMOR_BEGIN.toList then .error "missing or malformed BEGIN marker"
      else if last ≠ ARMOR_END.toList then .error "missing or malformed END marker"
      else (checkTrailing 0 [first, b64, last]).map fun _ => String.ofList b64
    | lines =>
      .error ("armor must have exactly 3 lines (BEGIN, base64, END), got " ++ toString lines.length)

def isAsciiWhitespace (c : Char) : Bool :=
  c == ' ' || c == '\t' || c == '\n' || c == '\x0c' || c == '\r'

/-- Whether there is whitespace outside of strings, with what is known of the text so far: in a string,
behind a backslash. -/
def scanWhitespace : Bool → Bool → List Char → Bool
  | _, _, [] => false
  | inString, true, _ :: cs => scanWhitespace inString false cs
  | true, false, c :: cs =>
    if c = '\\' then scanWhitespace true true cs
    else if c = '"' then scanWhitespace false false cs
    else scanWhitespace true false cs
  | false, false, c :: cs =>
    if c = '"' then scanWhitespace true false cs
    else if isAsciiWhitespace c then true
    else scanWhitespace false false cs

def hasNonStringWhitespace (s : String) : Bool :=
  scanWhitespace false false s.toList

def okOr (x : Option α) (e : ε) : Except ε α :=
  match x with
  | some a => .ok a
  | none => .error e

def validateHexField (val : String) (expectedLen : ℕ) (name : String) : Except String Unit :=
  if val.utf8ByteSize ≠ expectedLen then
    .error (name ++ " must be exactly " ++ toString expectedLen ++ " characters, got " ++
      toString val.utf8ByteSize)
  else if val.toList.all isLowerHex then .ok ()
  else .error (name ++ " must be lowercase hex")

def allowedKeys : List String := ["v", "pk", "sig", "t", "oa"]

def checkKeys {F : Type} : List (String × Value F) → Except String Unit
  | [] => .ok ()
  | (key, _) :: members =>
    if allowedKeys.contains key then checkKeys members
    else .error ("unknown key in v=1 envelope: " ++ key.quote)

def required {F : Type} (members : List (String × Value F)) (name : String) :
    Except String (Value F) :=
  okOr (members.lookup name) ("missing required field: " ++ name)

section Parse

variable {K R F : Type} (X : Externals K R F)

def parseVersion (members : List (String × Value F)) : Except String Unit := do
  let v ← required members "v"
  let v ← okOr v.asU64 "v must be an integer"
  if v ≠ 1 then .error ("unsupported version: " ++ toString v) else .ok ()

/-- A field of hexadecimal digits. -/
def parseHex (members : List (String × Value F)) (name : String) (len : ℕ) :
    Except String String := do
  let val ← required members name
  let val ← okOr val.asStr (name ++ " must be a string")
  validateHexField val len name
  .ok val

def isFloat : Value F → Bool
  | .number (.float _) => true
  | _ => false

def parseTime (members : List (String × Value F)) : Except String ℕ := do
  let tVal ← required members "t"
  if isFloat tVal then .error "t must be an integer, not a float"
  else
    let t ← okOr tVal.asU64 "t must be a non-negative integer"
    if 4294967295 < t then .error ("t out of range: " ++ toString t) else .ok t

/-- The three strings of an attestation by someone other than the signer. -/
def parseAttestation (pk : String) (oaVal : Value F) : Except String Attestation := do
  let arr ← okOr oaVal.asArray "oa must be an array"
  match arr with
  | [owner, conditions, ownerSig] =>
    let owner ← okOr owner.asStr "oa[0] must be a string"
    let conditions ← okOr conditions.asStr "oa[1] must be a string"
    let ownerSig ← okOr ownerSig.asStr "oa[2] must be a string"
    validateHexField owner 64 "oa[0]"
    validateHexField ownerSig 128 "oa[2]"
    if ! validateConditions conditions then
      .error "oa[1] conditions contain invalid characters (allowed: alphanumeric, _=<>&)"
    else
      match X.publicKeyFromHex owner with
      | .error e => .error ("oa[0] is not a valid BIP-340 public key: " ++ e)
      | .ok _ =>
        if owner = pk then .error "oa[0] (owner) must not equal pk (self-attestation)"
        else .ok ⟨owner, conditions, ownerSig⟩
  | _ => .error ("oa must have exactly 3 elements, got " ++ toString arr.length)

def parseMembers (members : List (String × Value F)) : Except String Envelope := do
  checkKeys members
  parseVersion members
  let pk ← parseHex members "pk" 64
  let sig ← parseHex members "sig" 128
  let t ← parseTime members
  match members.lookup "oa" with
  | some oaVal => (parseAttestation X pk oaVal).map fun oa => ⟨pk, sig, t, some oa⟩
  | none => .ok ⟨pk, sig, t, none⟩

def parseEnvelope (json : String) : Except String Envelope := do
  let val ← okOr (fromStr X.float json) ("invalid JSON: " ++ X.jsonError json)
  let members ← okOr val.asObject "JSON must be an object"
  parseMembers X members

end Parse

section Armor

variable {b64 : List Char}

theorem newline_not_mem_markers : '\n' ∉ ARMOR_BEGIN.toList ∧ '\n' ∉ ARMOR_END.toList := by
  constructor
  · decide +kernel
  · decide +kernel

theorem armorLines_eq (b64 : List Char) :
    armorLines b64 = ['\n'].intercalate [ARMOR_BEGIN.toList, b64, ARMOR_END.toList] ++ ['\n'] := by
  simp [armorLines, List.intercalate]

theorem parseArmor_armorLines (hline : '\n' ∉ b64) (hblank : endsInBlank b64 = false) :
    parseArmor (String.ofList (armorLines b64)) = .ok (String.ofList b64) := by
  have hsplit : (['\n'].intercalate [ARMOR_BEGIN.toList, b64, ARMOR_END.toList]).splitOn '\n' =
      [ARMOR_BEGIN.toList, b64, ARMOR_END.toList] := by
    apply List.splitOn_intercalate
    · intro line hmem
      simp only [List.mem_cons, List.not_mem_nil, or_false] at hmem
      rcases hmem with rfl | rfl | rfl
      · exact newline_not_mem_markers.1
      · exact hline
      · exact newline_not_mem_markers.2
    · exact List.cons_ne_nil _ _
  have htrailing : checkTrailing 0 [ARMOR_BEGIN.toList, b64, ARMOR_END.toList] = .ok () := by
    have hfirst : endsInBlank ARMOR_BEGIN.toList = false := by decide +kernel
    have hlast : endsInBlank ARMOR_END.toList = false := by decide +kernel
    simp [checkTrailing, hfirst, hblank, hlast]
  rw [parseArmor, String.toList_ofList, armorLines_eq, List.getLast?_concat, List.dropLast_concat, hsplit]
  dsimp only
  rw [if_neg (not_not.mpr rfl), if_neg (not_not.mpr rfl), if_neg (not_not.mpr rfl), htrailing]
  rfl

/-- Only the markers and the line between them make an armor. -/
theorem eq_armorLines {content b64 : String} (h : parseArmor content = .ok b64) :
    content.toList = armorLines b64.toList := by
  rw [parseArmor] at h
  split at h
  · cases h
  rename_i hlast
  rw [not_not] at hlast
  split at h
  · rename_i first line last hsplit
    split at h
    · cases h
    rename_i hfirst
    split at h
    · cases h
    rename_i hend
    rw [not_not] at hfirst hend
    obtain ⟨-, -, rfl⟩ := ok_of_map h
    have hcontent := List.dropLast_append_getLast? '\n' hlast
    have hjoin : ['\n'].intercalate (content.toList.dropLast.splitOn '\n') = content.toList.dropLast :=
      List.intercalate_splitOn '\n'
    rw [← hjoin, hsplit, hfirst, hend] at hcontent
    rw [String.toList_ofList, armorLines_eq, hcontent]
  · cases h

theorem newline_not_mem_encode (bytes : List UInt8) :
    '\n' ∉ Base64.encode bytes ∧ endsInBlank (Base64.encode bytes) = false := by
  have hblank {c : Char} (hc : c ∈ Base64.encode bytes) : c ≠ '\n' ∧ c ≠ ' ' ∧ c ≠ '\t' ∧ c ≠ '\r' := by
    rcases Base64.mem_encode hc with ⟨n, hn, rfl⟩ | rfl
    · have hall : ∀ n : Fin 64, Base64.letter n ≠ '\n' ∧ Base64.letter n ≠ ' ' ∧
          Base64.letter n ≠ '\t' ∧ Base64.letter n ≠ '\r' := by decide +kernel
      exact hall ⟨n, hn⟩
    · decide
  refine ⟨fun h => (hblank h).1 rfl, ?_⟩
  rw [endsInBlank, Bool.or_eq_false_iff, Bool.or_eq_false_iff, decide_eq_false_iff_not,
    decide_eq_false_iff_not, decide_eq_false_iff_not]
  refine ⟨⟨fun h => ?_, fun h => ?_⟩, fun h => ?_⟩
  · exact (hblank (List.mem_of_getLast? h)).2.1 rfl
  · exact (hblank (List.mem_of_getLast? h)).2.2.1 rfl
  · exact (hblank (List.mem_of_getLast? h)).2.2.2 rfl

theorem parseArmor_armor (json : String) :
    parseArmor (armor json) = .ok (String.ofList (Base64.encode (utf8Bytes json.toList))) := by
  obtain ⟨hline, hblank⟩ := newline_not_mem_encode (utf8Bytes json.toList)
  exact parseArmor_armorLines hline hblank

end Armor

section Plain

variable {c : Char} {val : String}

theorem plain_of_isLowerHex (h : isLowerHex c = true) : escapeChar c = [c] ∧ c.utf8Size = 1 := by
  have hrange : 48 ≤ c.toNat ∧ c.toNat ≤ 102 ∧ c.toNat ≠ 92 := by
    rw [isLowerHex, Bool.or_eq_true, Bool.and_eq_true, Bool.and_eq_true] at h
    simp only [decide_eq_true_eq, Char.le_def, UInt32.le_iff_toNat_le] at h
    have hzero : ('0' : Char).val.toNat = 48 := rfl
    have hnine : ('9' : Char).val.toNat = 57 := rfl
    have ha : ('a' : Char).val.toNat = 97 := rfl
    have hf : ('f' : Char).val.toNat = 102 := rfl
    have hc : c.val.toNat = c.toNat := rfl
    omega
  apply plain_of_ascii c (by omega) (by omega)
  · rintro rfl
    exact absurd hrange (by decide)
  · rintro rfl
    exact absurd hrange (by decide)

theorem plain_of_hexField {len : ℕ} (h : isHexField val len = true) : Plain val.toList := by
  rw [isHexField, Bool.and_eq_true] at h
  exact fun c hc => plain_of_isLowerHex (List.all_eq_true.mp h.2 c hc)

theorem plain_of_isConditionChar (h : isConditionChar c = true) :
    escapeChar c = [c] ∧ c.utf8Size = 1 := by
  have hrange : 32 ≤ c.toNat ∧ c.toNat < 128 := by
    simp only [isConditionChar, Char.isAlphanum, Char.isAlpha, Char.isUpper, Char.isLower, Char.isDigit,
      Bool.or_eq_true, Bool.and_eq_true, decide_eq_true_eq, beq_iff_eq, UInt32.le_iff_toNat_le,
      ge_iff_le] at h
    have hc : c.val.toNat = c.toNat := rfl
    rcases h with ((((h | h) | h) | h) | h) | h
    · have hnat : (65 ≤ c.val.toNat ∧ c.val.toNat ≤ 90) ∨ (97 ≤ c.val.toNat ∧ c.val.toNat ≤ 122) ∨
          (48 ≤ c.val.toNat ∧ c.val.toNat ≤ 57) := by
        simpa [or_assoc] using h
      omega
    all_goals
      rw [h]
      decide
  apply plain_of_ascii c hrange.1 hrange.2
  · rintro rfl
    exact absurd h (by decide)
  · rintro rfl
    exact absurd h (by decide)

theorem plain_of_conditions (h : validateConditions val = true) : Plain val.toList :=
  fun _ hc => plain_of_isConditionChar (isConditionChar_of_valid h hc)

theorem isHexField_toHex {n : ℕ} (x : HexId n) : isHexField x.toHex n = true := by
  rw [isHexField, Bool.and_eq_true, HexId.toHex_utf8ByteSize, HexId.toHex_toList, List.all_eq_true]
  refine ⟨decide_eq_true rfl, fun c hc => ?_⟩
  obtain ⟨d, -, rfl⟩ := List.mem_map.mp hc
  have hall : ∀ d, isLowerHex (Hex.digitChar d) = true := by decide
  exact hall d

theorem validateHexField_of_isHexField {len : ℕ} (h : isHexField val len = true) (name : String) :
    validateHexField val len name = .ok () := by
  rw [isHexField, Bool.and_eq_true, decide_eq_true_iff] at h
  rw [validateHexField, if_neg (not_not.mpr h.1), if_pos h.2]

end Plain

namespace Envelope

variable {K R F : Type}

/-- What is checked of an envelope. -/
structure Valid (X : Externals K R F) (e : Envelope) : Prop where
  pk : isHexField e.pk 64 = true
  sig : isHexField e.sig 128 = true
  t : e.t ≤ 4294967295
  wellFormed : ∀ oa ∈ e.oa, oa.WellFormed
  owner : ∀ oa ∈ e.oa, (∃ k, X.publicKeyFromHex oa.owner = .ok k) ∧ oa.owner ≠ e.pk

def text (e : Envelope) : String :=
  buildEnvelope e.pk e.sig e.t e.oa

/-- The member for the attestation. -/
def oaMembers : Option Attestation → List (String × List Char × Value F)
  | some oa =>
    [("oa", printArray [printString oa.owner, printString oa.conditions, printString oa.ownerSig],
      .array [.string oa.owner, .string oa.conditions, .string oa.ownerSig])]
  | none => []

/-- The members of the text, and their values. -/
def members (e : Envelope) : List (String × List Char × Value F) :=
  ("v", printNat 1, .number (.posInt (UInt64.ofNat 1))) :: ("pk", printString e.pk, .string e.pk) ::
    ("sig", printString e.sig, .string e.sig) ::
    ("t", printNat e.t, .number (.posInt (UInt64.ofNat e.t))) :: oaMembers e.oa

theorem printString_plain {s : String} (h : Plain s.toList) :
    printString s = '"' :: (s.toList ++ ['"']) := by
  rw [printString, flatMap_escapeChar h]

theorem buildEnvelope_none (pk sig : String) (t : ℕ) : (buildEnvelope pk sig t none).toList =
    "\x7b\"v\":1,\"pk\":\"".toList ++ pk.toList ++ "\",\"sig\":\"".toList ++ sig.toList ++
      "\",\"t\":".toList ++ printNat t ++ "\x7d".toList := by
  unfold buildEnvelope
  exact String.toList_ofList

theorem buildEnvelope_some (pk sig : String) (t : ℕ) (oa : Attestation) :
    (buildEnvelope pk sig t (some oa)).toList =
      "\x7b\"v\":1,\"pk\":\"".toList ++ pk.toList ++ "\",\"sig\":\"".toList ++ sig.toList ++
      "\",\"t\":".toList ++ printNat t ++ (",\"oa\":[\"".toList ++ oa.owner.toList ++
        "\",\"".toList ++ oa.conditions.toList ++ "\",\"".toList ++ oa.ownerSig.toList ++
        "\"]\x7d".toList) := by
  unfold buildEnvelope
  exact String.toList_ofList

/-- The text without an attestation, in the pieces that it is put together from. -/
theorem pieces_toList {pk sig : String} (t : ℕ) (hpk : Plain pk.toList) (hsig : Plain sig.toList)
    {s₁ s₂ s₃ s₄ : List Char}
    (h₁ : s₁ = '\x7b' :: (printString "v" ++
      ':' :: (printNat 1 ++ ',' :: (printString "pk" ++ [':', '"']))))
    (h₂ : s₂ = '"' :: ',' :: (printString "sig" ++ [':', '"']))
    (h₃ : s₃ = '"' :: ',' :: (printString "t" ++ [':'])) (h₄ : s₄ = ['\x7d']) :
    s₁ ++ pk.toList ++ s₂ ++ sig.toList ++ s₃ ++ printNat t ++ s₄ =
      printObject ((members (F := F) ⟨pk, sig, t, none⟩).map fun m => printMember m.1 m.2.1) := by
  rw [h₁, h₂, h₃, h₄]
  simp only [members, oaMembers, List.map_cons, List.map_nil, printObject, printSeq,
    intercalate_cons_flatMap, List.flatMap_cons, List.flatMap_nil, printMember,
    printString_plain hpk, printString_plain hsig, List.cons_append, List.append_assoc,
    List.nil_append]

/-- The text with an attestation. -/
theorem pieces_toList_some {pk sig : String} {oa : Attestation} (t : ℕ) (hpk : Plain pk.toList)
    (hsig : Plain sig.toList) (howner : Plain oa.owner.toList)
    (hconditions : Plain oa.conditions.toList) (hownerSig : Plain oa.ownerSig.toList)
    {s₁ s₂ s₃ s₄ s₅ s₆ : List Char}
    (h₁ : s₁ = '\x7b' :: (printString "v" ++
      ':' :: (printNat 1 ++ ',' :: (printString "pk" ++ [':', '"']))))
    (h₂ : s₂ = '"' :: ',' :: (printString "sig" ++ [':', '"']))
    (h₃ : s₃ = '"' :: ',' :: (printString "t" ++ [':']))
    (h₄ : s₄ = ',' :: (printString "oa" ++ [':', '[', '"'])) (h₅ : s₅ = ['"', ',', '"'])
    (h₆ : s₆ = ['"', ']', '\x7d']) :
    s₁ ++ pk.toList ++ s₂ ++ sig.toList ++ s₃ ++ printNat t ++ (s₄ ++ oa.owner.toList ++ s₅ ++
      oa.conditions.toList ++ s₅ ++ oa.ownerSig.toList ++ s₆) =
      printObject ((members (F := F) ⟨pk, sig, t, some oa⟩).map fun m => printMember m.1 m.2.1) := by
  rw [h₁, h₂, h₃, h₄, h₅, h₆]
  simp only [members, oaMembers, List.map_cons, List.map_nil, printObject, printArray, printSeq,
    intercalate_cons_flatMap, List.flatMap_cons, List.flatMap_nil, printMember,
    printString_plain hpk, printString_plain hsig, printString_plain howner,
    printString_plain hconditions, printString_plain hownerSig, List.cons_append, List.append_assoc,
    List.nil_append]

theorem text_toList {X : Externals K R F} {e : Envelope} (h : e.Valid X) :
    e.text.toList = printObject ((members (F := F) e).map fun m => printMember m.1 m.2.1) := by
  obtain ⟨pk, sig, t, oa⟩ := e
  have hpk := plain_of_hexField h.pk
  have hsig := plain_of_hexField h.sig
  rw [text]
  dsimp only
  cases oa with
  | none =>
    rw [buildEnvelope_none]
    exact pieces_toList t hpk hsig (by decide +kernel) (by decide +kernel) (by decide +kernel)
      (by decide +kernel)
  | some oa =>
    obtain ⟨hconditions, howner, hownerSig⟩ := h.wellFormed oa rfl
    rw [buildEnvelope_some]
    exact pieces_toList_some t hpk hsig (plain_of_hexField howner) (plain_of_conditions hconditions)
      (plain_of_hexField hownerSig) (by decide +kernel) (by decide +kernel) (by decide +kernel)
      (by decide +kernel) (by decide +kernel) (by decide +kernel)

/-- The members of the value. -/
def object (e : Envelope) : List (String × Value F) :=
  collect ((members e).map fun m => (m.1, m.2.2))

theorem fromStr_text {X : Externals K R F} {e : Envelope} (h : e.Valid X) :
    fromStr X.float e.text = some (.object e.object) := by
  rw [fromStr, text_toList h]
  apply parseDocument_of_reads
  apply reads_value_object
  intro m hm
  have hstring (s : String) : Reads (parseValue X.float (126 + 1)) (printString s) (.string s) :=
    reads_value_string s
  have ht : e.t < 2 ^ 64 := h.t.trans_lt (by decide)
  rw [members] at hm
  simp only [List.mem_cons] at hm
  rcases hm with rfl | rfl | rfl | rfl | hm
  · exact reads_value_nat (n := 1) (by decide)
  · exact hstring e.pk
  · exact hstring e.sig
  · exact reads_value_nat ht
  · cases hoa : e.oa with
    | none =>
      rw [hoa] at hm
      cases hm
    | some oa =>
      rw [hoa] at hm
      obtain rfl := List.mem_singleton.mp hm
      apply reads_value_array [(printString oa.owner, .string oa.owner),
        (printString oa.conditions, .string oa.conditions), (printString oa.ownerSig, .string oa.ownerSig)]
      intro x hx
      simp only [List.mem_cons, List.not_mem_nil, or_false] at hx
      rcases hx with rfl | rfl | rfl
      · exact reads_value_string oa.owner
      · exact reads_value_string oa.conditions
      · exact reads_value_string oa.ownerSig

theorem checkKeys_of_allowed {members : List (String × Value F)}
    (h : ∀ m ∈ members, allowedKeys.contains m.1 = true) : checkKeys members = .ok () := by
  induction members with
  | nil => rfl
  | cons m members ih =>
    obtain ⟨key, v⟩ := m
    rw [checkKeys, if_pos (h _ List.mem_cons_self)]
    exact ih fun n hn => h n (List.mem_cons_of_mem _ hn)

theorem checkKeys_object (e : Envelope) : checkKeys (object (F := F) e) = .ok () := by
  apply checkKeys_of_allowed
  intro m hm
  obtain ⟨n, hn, rfl⟩ := List.mem_map.mp (mem_of_mem_collect hm)
  rw [members] at hn
  simp only [List.mem_cons] at hn
  rcases hn with rfl | rfl | rfl | rfl | hn
  · rfl
  · rfl
  · rfl
  · rfl
  · cases hoa : e.oa with
    | none =>
      rw [hoa] at hn
      cases hn
    | some oa =>
      rw [hoa] at hn
      obtain rfl := List.mem_singleton.mp hn
      rfl

theorem lookup_object (e : Envelope) :
    (object (F := F) e).lookup "v" = some (.number (.posInt 1)) ∧
      (object (F := F) e).lookup "pk" = some (.string e.pk) ∧
      (object (F := F) e).lookup "sig" = some (.string e.sig) ∧
      (object (F := F) e).lookup "t" = some (.number (.posInt (UInt64.ofNat e.t))) ∧
      (object (F := F) e).lookup "oa" = e.oa.map fun oa =>
        .array [.string oa.owner, .string oa.conditions, .string oa.ownerSig] := by
  simp only [object, lookup_collect]
  cases hoa : e.oa with
  | none => simp [members, oaMembers, hoa, lookup_cons_if]
  | some oa => simp [members, oaMembers, hoa, lookup_cons_if]

theorem parseVersion_object (e : Envelope) : parseVersion (object (F := F) e) = .ok () := by
  rw [parseVersion, required, (lookup_object e).1]
  rfl

theorem parseHex_of_lookup {members : List (String × Value F)} {name val : String} {len : ℕ}
    (h : members.lookup name = some (.string val)) (hval : isHexField val len = true) :
    parseHex members name len = .ok val := by
  rw [parseHex, required, h]
  dsimp only [okOr, Value.asStr, bind, Except.bind]
  rw [validateHexField_of_isHexField hval]

theorem parseTime_object {X : Externals K R F} {e : Envelope} (h : e.Valid X) :
    parseTime (object (F := F) e) = .ok e.t := by
  have ht : (UInt64.ofNat e.t).toNat = e.t := UInt64.toNat_ofNat_of_lt' (h.t.trans_lt (by decide))
  rw [parseTime, required, (lookup_object e).2.2.2.1]
  dsimp only [okOr, bind, Except.bind]
  have hint : isFloat (F := F) (.number (.posInt (UInt64.ofNat e.t))) = false := rfl
  rw [hint, if_neg Bool.false_ne_true, Value.asU64]
  dsimp only
  rw [ht, if_neg (not_lt.mpr h.t)]

theorem parseAttestation_of_valid {X : Externals K R F} {pk : String} {oa : Attestation}
    (h : oa.WellFormed) (howner : (∃ k, X.publicKeyFromHex oa.owner = .ok k) ∧ oa.owner ≠ pk) :
    parseAttestation X pk
      (.array [.string oa.owner, .string oa.conditions, .string oa.ownerSig]) = .ok oa := by
  obtain ⟨hconditions, hhex, hsig⟩ := h
  obtain ⟨⟨k, hk⟩, hself⟩ := howner
  rw [parseAttestation]
  dsimp only [okOr, Value.asArray, Value.asStr, bind, Except.bind]
  rw [validateHexField_of_isHexField hhex, validateHexField_of_isHexField hsig, hconditions, hk]
  exact if_neg hself

/-- The text of an envelope is read as the envelope. -/
theorem parseEnvelope_text {X : Externals K R F} {e : Envelope} (h : e.Valid X) :
    parseEnvelope X e.text = .ok e := by
  obtain ⟨-, hpk, hsig, -, hoa⟩ := lookup_object (F := F) e
  rw [parseEnvelope, fromStr_text h]
  dsimp only [okOr, Value.asObject, bind, Except.bind]
  rw [parseMembers, checkKeys_object, parseVersion_object]
  dsimp only [bind, Except.bind]
  rw [parseHex_of_lookup hpk h.pk, parseHex_of_lookup hsig h.sig, parseTime_object h]
  dsimp only
  rw [hoa]
  obtain ⟨pk, sig, t, oa⟩ := e
  cases oa with
  | none => rfl
  | some oa =>
    dsimp only [Option.map_some]
    rw [parseAttestation_of_valid (h.wellFormed oa rfl) (h.owner oa rfl)]
    rfl

end Envelope

/-- A text that starts and ends outside of strings, and has whitespace at most inside of them. -/
def Compact (text : List Char) : Prop :=
  ∀ rest, scanWhitespace false false (text ++ rest) = scanWhitespace false false rest

namespace Compact

variable {x y : List Char}

theorem append (hx : Compact x) (hy : Compact y) : Compact (x ++ y) := by
  intro rest
  rw [List.append_assoc, hx, hy]

theorem cons {c : Char} (hquote : c ≠ '"') (hblank : isAsciiWhitespace c = false) (hx : Compact x) :
    Compact (c :: x) := by
  intro rest
  rw [List.cons_append, scanWhitespace, if_neg hquote, hblank, if_neg Bool.false_ne_true, hx]

theorem nil : Compact [] :=
  fun _ => rfl

theorem scan_string {s : List Char} (h : Plain s) (rest : List Char) :
    scanWhitespace true false (s ++ '"' :: rest) = scanWhitespace false false rest := by
  induction s with
  | nil => rw [List.nil_append, scanWhitespace, if_neg (by decide), if_pos rfl]
  | cons c s ih =>
    rw [Plain, List.forall_mem_cons] at h
    have hslash : c ≠ '\\' := by
      rintro rfl
      exact absurd h.1.1 (by decide)
    have hquote : c ≠ '"' := by
      rintro rfl
      exact absurd h.1.1 (by decide)
    rw [List.cons_append, scanWhitespace, if_neg hslash, if_neg hquote, ih h.2]

theorem printString {s : String} (h : Plain s.toList) : Compact (printString s) := by
  intro rest
  rw [Envelope.printString_plain h, List.cons_append, scanWhitespace, if_pos rfl, List.append_assoc,
    List.singleton_append, scan_string h]

theorem printNat (n : ℕ) : Compact (printNat n) := by
  have hdigits : ∀ cs : List Char, (∀ c ∈ cs, isDigit c = true) → Compact cs := by
    intro cs
    induction cs with
    | nil => exact fun _ => nil
    | cons c cs ih =>
      intro h
      rw [List.forall_mem_cons] at h
      apply cons (ne_of_isDigit h.1 rfl) _ (ih h.2)
      rw [isAsciiWhitespace]
      simp only [Bool.or_eq_false_iff, beq_eq_false_iff_ne]
      exact ⟨⟨⟨⟨ne_of_isDigit h.1 rfl, ne_of_isDigit h.1 rfl⟩, ne_of_isDigit h.1 rfl⟩,
        ne_of_isDigit h.1 rfl⟩, ne_of_isDigit h.1 rfl⟩
  exact hdigits _ fun c hc => isDigit_of_mem_printNat hc

theorem intercalate {items : List (List Char)} (h : ∀ x ∈ items, Compact x) :
    Compact (List.intercalate [','] items) := by
  cases items with
  | nil => exact nil
  | cons x items =>
    rw [List.forall_mem_cons] at h
    rw [intercalate_cons_flatMap]
    apply append h.1
    have hrest := h.2
    induction items with
    | nil => exact nil
    | cons y items ih =>
      rw [List.forall_mem_cons] at hrest
      rw [List.flatMap_cons]
      exact append (cons (by decide) rfl hrest.1) (ih ⟨h.1, hrest.2⟩ hrest.2)

theorem printSeq {opening close : Char} {items : List (List Char)}
    (hopen : opening ≠ '"' ∧ isAsciiWhitespace opening = false)
    (hclose : close ≠ '"' ∧ isAsciiWhitespace close = false) (h : ∀ x ∈ items, Compact x) :
    Compact (printSeq opening close items) :=
  cons hopen.1 hopen.2 (append (intercalate h) (cons hclose.1 hclose.2 nil))

end Compact

namespace Envelope

variable {K R F : Type}

theorem plain_of_allowed {name : String} (h : name ∈ allowedKeys) : Plain name.toList := by
  have hchars : ∀ cs : List Char, cs.all isConditionChar = true → Plain cs :=
    fun cs hcs c hc => plain_of_isConditionChar (List.all_eq_true.mp hcs c hc)
  simp only [allowedKeys, List.mem_cons, List.not_mem_nil, or_false] at h
  rcases h with rfl | rfl | rfl | rfl | rfl
  all_goals exact hchars _ rfl

theorem compact_members {X : Externals K R F} {e : Envelope} (h : e.Valid X)
    {m : String × List Char × Value F} (hm : m ∈ members e) : m.1 ∈ allowedKeys ∧ Compact m.2.1 := by
  rw [members] at hm
  simp only [List.mem_cons] at hm
  rcases hm with rfl | rfl | rfl | rfl | hm
  · exact ⟨by simp [allowedKeys], .printNat 1⟩
  · exact ⟨by simp [allowedKeys], .printString (plain_of_hexField h.pk)⟩
  · exact ⟨by simp [allowedKeys], .printString (plain_of_hexField h.sig)⟩
  · exact ⟨by simp [allowedKeys], .printNat e.t⟩
  · cases hoa : e.oa with
    | none =>
      rw [hoa] at hm
      cases hm
    | some oa =>
      rw [hoa] at hm
      obtain rfl := List.mem_singleton.mp hm
      obtain ⟨hconditions, howner, hownerSig⟩ := h.wellFormed oa hoa
      refine ⟨by simp [allowedKeys], .printSeq (by decide) (by decide) fun x hx => ?_⟩
      simp only [List.mem_cons, List.not_mem_nil, or_false] at hx
      rcases hx with rfl | rfl | rfl
      · exact .printString (plain_of_hexField howner)
      · exact .printString (plain_of_conditions hconditions)
      · exact .printString (plain_of_hexField hownerSig)

theorem hasNonStringWhitespace_text {X : Externals K R F} {e : Envelope} (h : e.Valid X) :
    hasNonStringWhitespace e.text = false := by
  have hcompact : Compact e.text.toList := by
    rw [text_toList h]
    apply Compact.printSeq (by decide) (by decide)
    intro x hx
    obtain ⟨m, hm, rfl⟩ := List.mem_map.mp hx
    obtain ⟨hname, hvalue⟩ := compact_members h hm
    exact .append (.printString (plain_of_allowed hname)) (.cons (by decide) rfl hvalue)
  have hscan := hcompact []
  rw [List.append_nil] at hscan
  exact hscan

/-- The bytes of the attestation's conditions. -/
def conditionsSize (e : Envelope) : ℕ :=
  match e.oa with
  | some oa => oa.conditions.utf8ByteSize
  | none => 0

theorem textSize_printNat_le {n k : ℕ} (hk : 0 < k) (h : n < 10 ^ k) : textSize (printNat n) ≤ k := by
  rw [textSize_of_ascii]
  · exact (Nat.length_toDigits_le_iff (by decide) hk).mpr h
  · intro c hc
    have hdigit := isDigit_of_mem_printNat hc
    rw [isDigit, Bool.and_eq_true, decide_eq_true_eq, decide_eq_true_eq] at hdigit
    rw [Char.utf8Size_eq_one_iff, UInt32.le_iff_toNat_le]
    have hnine := UInt32.le_iff_toNat_le.mp hdigit.2
    have hval : ('9' : Char).val.toNat = 57 := rfl
    have hmax : (127 : UInt32).toNat = 127 := rfl
    omega

/-- An envelope is about as long as its conditions. -/
theorem utf8ByteSize_text {X : Externals K R F} {e : Envelope} (h : e.Valid X) :
    e.text.utf8ByteSize ≤ 512 + e.conditionsSize := by
  have hfield {s : String} {len : ℕ} (hs : isHexField s len = true) :
      textSize (printString s) = len + 2 := by
    rw [textSize_printString (plain_of_hexField hs)]
    rw [isHexField, Bool.and_eq_true, decide_eq_true_iff] at hs
    rw [hs.1]
  have ht : textSize (printNat e.t) ≤ 10 := textSize_printNat_le (by decide) (h.t.trans_lt (by decide))
  have hone : textSize (printNat 1) = 1 := by decide
  have hv : textSize (printString "v") = 3 := by decide +kernel
  have hpkName : textSize (printString "pk") = 4 := by decide +kernel
  have hsigName : textSize (printString "sig") = 5 := by decide +kernel
  have htName : textSize (printString "t") = 3 := by decide +kernel
  have hoaName : textSize (printString "oa") = 4 := by decide +kernel
  have hpk := hfield h.pk
  have hsig := hfield h.sig
  rw [utf8ByteSize_eq, text_toList h, textSize_printObject, conditionsSize]
  cases hoa : e.oa with
  | none =>
    simp only [members, oaMembers, hoa, List.map_cons, List.map_nil, List.sum_cons, List.sum_nil,
      textSize_printMember, List.length_cons, List.length_nil]
    omega
  | some oa =>
    obtain ⟨hconditions, howner, hownerSig⟩ := h.wellFormed oa hoa
    have howner := hfield howner
    have hownerSig := hfield hownerSig
    have hconditions := textSize_printString (plain_of_conditions hconditions)
    simp only [members, oaMembers, hoa, List.map_cons, List.map_nil, List.sum_cons, List.sum_nil,
      textSize_printMember, textSize_printArray, List.length_cons, List.length_nil]
    omega

end Envelope

end Buzz.GitSign
