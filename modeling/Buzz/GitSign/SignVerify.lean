import Buzz.GitSign.Envelope
import Buzz.Git.Store

namespace Buzz.GitSign
set_option autoImplicit true
open Json

def MAX_PAYLOAD : ℕ := 100 * 1024 * 1024
def MAX_AUTH_TAG : ℕ := 1024

/-- How signing or verifying fails. -/
inductive Error where
  | fatal (msg : String)
  | verifyFailed (pk : Option String) (msg : String)
deriving DecidableEq

inductive OaVerifyResult where
  | absent
  | valid
  | invalidSignature
  | conditionsViolated
deriving DecidableEq

/-- What a good signature is reported with. -/
structure GoodSig where
  envelope : Envelope
  oa : OaVerifyResult

section Program

variable {K R F : Type} (X : Externals K R F) (sha256 : ByteArray → HexId 64)

/-- The tag from the environment, or else from the configuration. -/
def authTagText (env : Option String) (config : Except String (Option String)) :
    Except Error (Option String) :=
  match env.filter (· ≠ "") with
  | some val => .ok (some val)
  | none => config.mapError fun e => .fatal ("failed to read nostr.authtag: " ++ e)

/-- `["auth", "<owner>", "<conditions>", "<sig>"]`. -/
def parseAuthTag (text : String) : Except Error Attestation := do
  let val ← okOr (fromStr X.float text) (.fatal ("BUZZ_AUTH_TAG is not valid JSON: " ++ X.jsonError text))
  let arr ← okOr val.asArray (.fatal "BUZZ_AUTH_TAG must be a JSON array")
  match arr with
  | [auth, owner, conditions, ownerSig] =>
    if auth.asStr ≠ some "auth" then .error (.fatal "BUZZ_AUTH_TAG[0] must be \"auth\"")
    else
      let owner ← okOr owner.asStr (.fatal "BUZZ_AUTH_TAG[1] must be a string")
      let conditions ← okOr conditions.asStr (.fatal "BUZZ_AUTH_TAG[2] must be a string")
      let ownerSig ← okOr ownerSig.asStr (.fatal "BUZZ_AUTH_TAG[3] must be a string")
      if ! validateConditions conditions then
        .error (.fatal "BUZZ_AUTH_TAG conditions contain invalid characters")
      else if ! isHexField owner 64 then
        .error (.fatal "BUZZ_AUTH_TAG owner must be 64 lowercase hex chars")
      else if ! isHexField ownerSig 128 then
        .error (.fatal "BUZZ_AUTH_TAG signature must be 128 lowercase hex chars")
      else .ok ⟨owner, conditions, ownerSig⟩
  | _ => .error (.fatal "BUZZ_AUTH_TAG must have exactly 4 elements")

def loadAuthTag (env : Option String) (config : Except String (Option String)) :
    Except Error (Option Attestation) := do
  match ← authTagText env config with
  | none => .ok none
  | some text =>
    if MAX_AUTH_TAG < text.utf8ByteSize then
      .error (.fatal ("auth tag exceeds " ++ toString MAX_AUTH_TAG ++ "-byte size limit"))
    else (parseAuthTag X text).map some

def enforceClause (t : ℕ) (clause : List Char) : Except String Unit :=
  match clause.dropPrefix? "created_at<".toList with
  | some val =>
    match parseDecimalU32 val with
    | some limit =>
      if limit ≤ t then
        .error ("timestamp " ++ toString t ++ " violates auth tag constraint created_at<" ++
          toString limit)
      else .ok ()
    | none => .ok ()
  | none =>
    match clause.dropPrefix? "created_at>".toList with
    | some val =>
      match parseDecimalU32 val with
      | some limit =>
        if t ≤ limit then
          .error ("timestamp " ++ toString t ++ " violates auth tag constraint created_at>" ++
            toString limit)
        else .ok ()
      | none => .ok ()
    | none => .ok ()

def enforceClauses (t : ℕ) : List (List Char) → Except String Unit
  | [] => .ok ()
  | clause :: clauses => do
    enforceClause t clause
    enforceClauses t clauses

/-- Whether a time is within conditions. -/
def enforceConditions (conditions : String) (t : ℕ) : Except String Unit :=
  if conditions = "" then .ok () else enforceClauses t (conditions.toList.splitOn '&')

/-- Whether the owner's signature is over the signer's key and the conditions. -/
def verifyOa (agentPkHex : String) (oa : Attestation) : Bool :=
  match X.publicKeyFromHex oa.owner with
  | .error _ => false
  | .ok owner =>
    let digest := sha256
      (utf8Bytes ("nostr:agent-auth:" ++ agentPkHex ++ ":" ++ oa.conditions).toList).toByteArray
    match HexId.ofChars 128 oa.ownerSig.toList with
    | none => false
    | some sig => X.hasXonly owner && X.verifySchnorr sig digest owner

def normalizeKeyId (keyId : String) : Option String :=
  let trimmed := trim keyId
  if "npub1".toList.isPrefixOf trimmed.toList then (X.fromBech32 trimmed).map HexId.toHex
  else if trimmed.utf8ByteSize = 64 && trimmed.toList.all isAsciiHexdigit then
    some (String.ofList (trimmed.toList.map Char.toLower))
  else none

/-- The key that is asked for, if there is one, is the key that was loaded. -/
def checkKeyId (keyId pkHex : String) : Except Error Unit :=
  if keyId = "" then .ok ()
  else
    match normalizeKeyId X keyId with
    | some expected =>
      if expected ≠ pkHex then
        .error (.fatal ("signing key argument (" ++ keyId ++ ") does not match loaded key (" ++
          pkHex ++ ")"))
      else .ok ()
    | none =>
      .error (.fatal ("signing key argument (" ++ keyId ++ ") is not a recognized key format " ++
        "(expected 64-char hex or npub1...)"))

def checkPayload (payload : List UInt8) : Except Error Unit :=
  if MAX_PAYLOAD < payload.length then .error (.fatal "payload exceeds 100 MB limit") else .ok ()

/-- An attestation is embedded only if it is valid now. -/
def checkAttestation (pkHex : String) (t : ℕ) (oa : Attestation) : Except Error Unit :=
  match X.publicKeyFromHex oa.owner with
  | .error _ =>
    .error (.fatal "auth tag owner (oa[0]) is not a valid BIP-340 public key")
  | .ok _ =>
    if oa.owner = pkHex then
      .error (.fatal "auth tag owner (oa[0]) must not equal signing key (self-attestation)")
    else if ! verifyOa X sha256 pkHex oa then
      .error (.fatal ("auth tag owner signature (oa[2]) verification failed — " ++
        "the configured BUZZ_AUTH_TAG is invalid or stale"))
    else
      (enforceConditions oa.conditions t).mapError fun msg =>
        .fatal ("auth tag conditions not satisfied: " ++ msg)

/-- Sign a payload with a key that was loaded, at a time. -/
def doSign (key : K) (randomness : R) (keyId : String) (payload : List UInt8) (t : ℕ)
    (env : Option String) (config : Except String (Option String)) : Except Error String := do
  let pkHex := (X.publicKey key).toHex
  checkKeyId X keyId pkHex
  checkPayload payload
  if 2 ^ 32 - 1 < t then
    .error (.fatal ("timestamp " ++ toString t ++ " exceeds NIP-GS u32 range (max 4294967295)"))
  else
    let oa ← loadAuthTag X env config
    match oa with
    | some oa => checkAttestation X sha256 pkHex t oa
    | none => .ok ()
    let hash := computeSigningHash sha256 t oa payload
    let sigHex := (X.signSchnorr key randomness hash).toHex
    .ok (armor (buildEnvelope pkHex sigHex t oa))

def readBoundedFile (file : List UInt8) (maxSize : ℕ) : Except Error String :=
  if maxSize < file.length then
    .error (.fatal ("signature file exceeds " ++ toString maxSize ++ " byte limit"))
  else okOr (fromUtf8 file) (.fatal "cannot read signature file")

/-- What follows the first occurrence of a marker. -/
def findAfter (marker : List Char) : List Char → Option (List Char)
  | [] => marker.dropPrefix? []
  | c :: cs =>
    match (c :: cs).dropPrefix? marker with
    | some rest => some rest
    | none => findAfter marker cs

/-- The key in a text that may be no envelope. -/
def extractPkBestEffort (json : String) : Option String :=
  match findAfter "\"pk\":\"".toList json.toList with
  | none => none
  | some rest =>
    if (rest.take 64).length = 64 && (rest.take 64).all isLowerHex then
      some (String.ofList (rest.take 64))
    else none

/-- The envelope of a file, if it is in its canonical form. -/
def readEnvelope (file : List UInt8) : Except Error Envelope := do
  let content ← readBoundedFile file MAX_SIG_FILE
  let b64 ← (parseArmor content).mapError (.verifyFailed none)
  if MAX_BASE64_LINE < b64.utf8ByteSize then
    .error (.verifyFailed none ("base64 line exceeds " ++ toString MAX_BASE64_LINE ++ " bytes"))
  else
    let decoded ← okOr (Base64.decode b64.toList) (.verifyFailed none "invalid base64")
    if MAX_JSON_DECODED < decoded.length then
      .error (.verifyFailed none ("decoded JSON exceeds " ++ toString MAX_JSON_DECODED ++ " bytes"))
    else
      let json ← okOr (fromUtf8 decoded)
        (.verifyFailed none "decoded bytes are not valid UTF-8")
      let earlyPk := extractPkBestEffort json
      if hasNonStringWhitespace json then
        .error (.verifyFailed earlyPk "JSON contains whitespace outside string values")
      else
        let envelope ← (parseEnvelope X json).mapError (.verifyFailed earlyPk)
        if envelope.text ≠ json then
          .error (.verifyFailed (some envelope.pk) "JSON is not in canonical form")
        else .ok envelope

/-- What the attestation is worth under a good signature. -/
def checkOa (envelope : Envelope) : Except Error OaVerifyResult :=
  match envelope.oa with
  | none => .ok .absent
  | some oa =>
    match X.publicKeyFromHex oa.owner with
    | .error _ =>
      .error (.verifyFailed (some envelope.pk) "oa[0] owner pubkey is not a valid BIP-340 key")
    | .ok _ =>
      if ! verifyOa X sha256 envelope.pk oa then .ok .invalidSignature
      else
        match enforceConditions oa.conditions envelope.t with
        | .error _ => .ok .conditionsViolated
        | .ok _ => .ok .valid

def verifySignature (envelope : Envelope) (payload : List UInt8) : Except Error GoodSig := do
  let failed := Error.verifyFailed (some envelope.pk)
  let pk ← (X.publicKeyFromHex envelope.pk).mapError fun e =>
    failed ("pk is not a valid BIP-340 public key: " ++ e)
  checkPayload payload
  let hash := computeSigningHash sha256 envelope.t envelope.oa payload
  let sig ← okOr (HexId.ofChars 128 envelope.sig.toList) (failed "invalid signature hex")
  if ! X.hasXonly pk then .error (failed "invalid public key xonly conversion")
  else if ! X.verifySchnorr sig hash pk then
    .error (failed "BIP-340 signature verification failed")
  else (checkOa X sha256 envelope).map (⟨envelope, ·⟩)

/-- Verify a signature file over a payload. -/
def doVerify (file payload : List UInt8) : Except Error GoodSig := do
  let envelope ← readEnvelope X file
  verifySignature X sha256 envelope payload

end Program

section Read

variable {K R F : Type} {X : Externals K R F} {sha256 : ByteArray → HexId 64}

theorem ok_of_okOr {x : Option α} {e : ε} {a : α} (h : okOr x e = .ok a) : x = some a := by
  cases x with
  | none => cases h
  | some b => rw [Except.ok.inj h]

theorem eq_of_asStr {v : Value F} {s : String} (h : v.asStr = some s) : v = .string s := by
  cases v with
  | string own => rw [Option.some.inj h]
  | null => cases h
  | bool b => cases h
  | number n => cases h
  | array items => cases h
  | object members => cases h

theorem eq_of_asArray {v : Value F} {items : List (Value F)} (h : v.asArray = some items) :
    v = .array items := by
  cases v with
  | array own => rw [Option.some.inj h]
  | null => cases h
  | bool b => cases h
  | number n => cases h
  | string s => cases h
  | object members => cases h

theorem length_le_utf8ByteSize (s : String) : s.toList.length ≤ s.utf8ByteSize := by
  have hchars : ∀ cs : List Char, cs.length ≤ textSize cs := by
    intro cs
    induction cs with
    | nil => exact le_rfl
    | cons c cs ih =>
      have hc := Char.utf8Size_pos c
      rw [List.length_cons, textSize_cons]
      omega
  rw [utf8ByteSize_eq]
  exact hchars s.toList

theorem utf8ByteSize_of_plain {s : String} (h : Plain s.toList) : s.utf8ByteSize = s.toList.length := by
  rw [utf8ByteSize_eq]
  exact textSize_of_ascii _ fun c hc => (h c hc).2

/-- A tag that is parsed is well formed, and its conditions are no longer than it. -/
theorem parseAuthTag_ok {text : String} {oa : Attestation} (h : parseAuthTag X text = .ok oa) :
    oa.WellFormed ∧ oa.conditions.utf8ByteSize ≤ text.utf8ByteSize := by
  rw [parseAuthTag] at h
  obtain ⟨val, hval, h⟩ := ok_of_bind h
  obtain ⟨arr, harr, h⟩ := ok_of_bind h
  have hval := ok_of_okOr hval
  rw [eq_of_asArray (ok_of_okOr harr)] at hval
  split at h
  · rename_i auth owner conditions ownerSig
    split at h
    · cases h
    obtain ⟨ownerText, howner, h⟩ := ok_of_bind h
    obtain ⟨conditionsText, hconditions, h⟩ := ok_of_bind h
    obtain ⟨sigText, hsig, h⟩ := ok_of_bind h
    split at h
    · cases h
    rename_i hvalid
    split at h
    · cases h
    rename_i hownerHex
    split at h
    · cases h
    rename_i hsigHex
    rw [Bool.not_eq_true', Bool.not_eq_false] at hvalid hownerHex hsigHex
    obtain rfl := Except.ok.inj h
    refine ⟨⟨hvalid, hownerHex, hsigHex⟩, ?_⟩
    rw [eq_of_asStr (ok_of_okOr hconditions)] at hval
    have hlength := length_of_mem_array (s := conditionsText) hval (by simp)
    dsimp only
    rw [utf8ByteSize_of_plain (plain_of_conditions hvalid)]
    exact hlength.trans (length_le_utf8ByteSize text)
  · cases h

theorem loadAuthTag_ok {env : Option String} {config : Except String (Option String)}
    {oa : Option Attestation} (h : loadAuthTag X env config = .ok oa) :
    ∀ a ∈ oa, a.WellFormed ∧ a.conditions.utf8ByteSize ≤ MAX_AUTH_TAG := by
  rw [loadAuthTag] at h
  obtain ⟨text, -, h⟩ := ok_of_bind h
  cases text with
  | none =>
    obtain rfl := Except.ok.inj h
    intro a ha
    cases ha
  | some text =>
    dsimp only at h
    split at h
    · cases h
    rename_i hsize
    obtain ⟨a, hparse, rfl⟩ := ok_of_map h
    intro b hb
    obtain rfl := Option.some.inj hb
    obtain ⟨hwell, hle⟩ := parseAuthTag_ok hparse
    exact ⟨hwell, hle.trans (not_lt.mp hsize)⟩

theorem checkAttestation_ok {pkHex : String} {t : ℕ} {oa : Attestation}
    (h : checkAttestation X sha256 pkHex t oa = .ok ()) :
    (∃ k, X.publicKeyFromHex oa.owner = .ok k) ∧ oa.owner ≠ pkHex ∧
      verifyOa X sha256 pkHex oa = true ∧ enforceConditions oa.conditions t = .ok () := by
  rw [checkAttestation] at h
  split at h
  · cases h
  · rename_i k hk
    split at h
    · cases h
    rename_i hself
    split at h
    · cases h
    rename_i hverify
    rw [Bool.not_eq_true', Bool.not_eq_false] at hverify
    exact ⟨⟨k, hk⟩, hself, hverify, ok_of_mapError h⟩

/-- The armor of a valid envelope passes each check, and is read as the envelope. -/
theorem readEnvelope_armor {e : Envelope} (h : e.Valid X) (hsize : e.conditionsSize ≤ MAX_AUTH_TAG) :
    readEnvelope X (utf8Bytes (armor e.text).toList) = .ok e := by
  have htext := Envelope.utf8ByteSize_text h
  have hbytes : (utf8Bytes e.text.toList).length = e.text.utf8ByteSize := by
    rw [length_utf8Bytes, utf8ByteSize_eq]
  have hencode := Base64.length_encode (utf8Bytes e.text.toList)
  have hb64 : textSize (Base64.encode (utf8Bytes e.text.toList)) =
      (Base64.encode (utf8Bytes e.text.toList)).length :=
    textSize_of_ascii _ fun c hc => Base64.utf8Size_of_mem hc
  have harmor : (utf8Bytes (armor e.text).toList).length =
      61 + (Base64.encode (utf8Bytes e.text.toList)).length := by
    have hbegin : textSize ARMOR_BEGIN.toList = 30 := by decide +kernel
    have hend : textSize ARMOR_END.toList = 28 := by decide +kernel
    have hline : ('\n' : Char).utf8Size = 1 := by decide
    rw [length_utf8Bytes, armor, String.toList_ofList, armorLines]
    simp only [textSize_append, textSize_cons, textSize_nil, hbegin, hend, hline, hb64]
    omega
  rw [MAX_AUTH_TAG] at hsize
  have hread : readBoundedFile (utf8Bytes (armor e.text).toList) MAX_SIG_FILE = .ok (armor e.text) := by
    rw [readBoundedFile, MAX_SIG_FILE, if_neg (by omega), fromUtf8,
      fromUTF8_eq_some_iff.mpr rfl]
    rfl
  have hline : ¬ MAX_BASE64_LINE <
      (String.ofList (Base64.encode (utf8Bytes e.text.toList))).utf8ByteSize := by
    rw [utf8ByteSize_ofList, hb64, MAX_BASE64_LINE]
    omega
  have hjson : ¬ MAX_JSON_DECODED < (utf8Bytes e.text.toList).length := by
    rw [MAX_JSON_DECODED]
    omega
  rw [readEnvelope, hread]
  dsimp only [bind, Except.bind]
  rw [parseArmor_armor]
  dsimp only [Except.mapError]
  rw [if_neg hline, String.toList_ofList, Base64.decode_encode]
  dsimp only [okOr]
  rw [if_neg hjson, fromUtf8, fromUTF8_eq_some_iff.mpr rfl]
  dsimp only
  rw [Envelope.hasNonStringWhitespace_text h, if_neg Bool.false_ne_true, Envelope.parseEnvelope_text h]
  dsimp only
  rw [if_neg (not_not.mpr rfl)]

/-- A file that is read is the armor of its envelope, byte by byte. -/
theorem eq_armor_of_readEnvelope {file : List UInt8} {e : Envelope}
    (h : readEnvelope X file = .ok e) : file = utf8Bytes (armor e.text).toList := by
  rw [readEnvelope] at h
  obtain ⟨content, hcontent, h⟩ := ok_of_bind h
  obtain ⟨b64, hb64, h⟩ := ok_of_bind h
  dsimp only at h
  split at h
  · cases h
  obtain ⟨decoded, hdecoded, h⟩ := ok_of_bind h
  split at h
  · cases h
  obtain ⟨json, hjson, h⟩ := ok_of_bind h
  split at h
  · cases h
  obtain ⟨envelope, -, h⟩ := ok_of_bind h
  split at h
  · cases h
  rename_i hcanonical
  rw [not_not] at hcanonical
  have hfile : file = utf8Bytes content.toList := by
    rw [readBoundedFile] at hcontent
    split at hcontent
    · cases hcontent
    · exact fromUTF8_eq_some_iff.mp (ok_of_okOr hcontent)
  have hlines := eq_armorLines (ok_of_mapError hb64)
  have hencode := Base64.encode_of_decode (ok_of_okOr hdecoded)
  have hbytes : decoded = utf8Bytes json.toList := fromUTF8_eq_some_iff.mp (ok_of_okOr hjson)
  rw [← Except.ok.inj h, hcanonical, hfile, hlines, ← hencode, hbytes, armor, String.toList_ofList]

/-- What signing has checked of an attestation, verifying finds good. -/
theorem checkOa_of_checkAttestation {envelope : Envelope}
    (h : ∀ oa ∈ envelope.oa, checkAttestation X sha256 envelope.pk envelope.t oa = .ok ()) :
    checkOa X sha256 envelope = .ok (if envelope.oa.isSome then .valid else .absent) := by
  rw [checkOa]
  cases hoa : envelope.oa with
  | none => rfl
  | some oa =>
    obtain ⟨⟨k, hk⟩, -, hverify, henforce⟩ := checkAttestation_ok (h oa hoa)
    dsimp only
    rw [hk, hverify, henforce]
    rfl

theorem doSign_ok {key : K} {randomness : R} {keyId : String} {payload : List UInt8} {t : ℕ}
    {env : Option String} {config : Except String (Option String)} {oa : Option Attestation}
    (hkey : checkKeyId X keyId (X.publicKey key).toHex = .ok ()) (hpayload : payload.length ≤ MAX_PAYLOAD)
    (ht : t ≤ 2 ^ 32 - 1) (hload : loadAuthTag X env config = .ok oa)
    (hcheck : ∀ a ∈ oa, checkAttestation X sha256 (X.publicKey key).toHex t a = .ok ()) :
    doSign X sha256 key randomness keyId payload t env config =
      .ok (armor (Envelope.text ⟨(X.publicKey key).toHex,
        (X.signSchnorr key randomness (computeSigningHash sha256 t oa payload)).toHex, t, oa⟩)) := by
  rw [doSign, hkey, checkPayload, if_neg (not_lt.mpr hpayload), if_neg (not_lt.mpr ht), hload]
  cases oa with
  | none => rfl
  | some a =>
    dsimp only [bind, Except.bind]
    rw [hcheck a rfl]
    rfl

end Read

section Agree

variable {K R F : Type} {X : Externals K R F} {sha256 : ByteArray → HexId 64}

/-- What is signed is verified and read back as it was written, and a file that is verified is told by
its envelope. -/
theorem sign_verify_agree (hX : X.Sound) :
    (∀ key randomness keyId payload t env config oa,
      checkKeyId X keyId (X.publicKey key).toHex = .ok () → payload.length ≤ MAX_PAYLOAD →
      t ≤ 2 ^ 32 - 1 → loadAuthTag X env config = .ok oa →
      (∀ a ∈ oa, checkAttestation X sha256 (X.publicKey key).toHex t a = .ok ()) →
      ∃ text, doSign X sha256 key randomness keyId payload t env config = .ok text ∧
        doVerify X sha256 (utf8Bytes text.toList) payload =
          .ok ⟨⟨(X.publicKey key).toHex,
            (X.signSchnorr key randomness (computeSigningHash sha256 t oa payload)).toHex, t, oa⟩,
            if oa.isSome then .valid else .absent⟩) ∧
    ∀ file file' payload payload' good good',
      doVerify X sha256 file payload = .ok good → doVerify X sha256 file' payload' = .ok good' →
      good.envelope = good'.envelope → file = file' := by
  constructor
  · intro key randomness keyId payload t env config oa hkey hpayload ht hload hcheck
    refine ⟨_, doSign_ok hkey hpayload ht hload hcheck, ?_⟩
    have hvalid : Envelope.Valid X ⟨(X.publicKey key).toHex,
        (X.signSchnorr key randomness (computeSigningHash sha256 t oa payload)).toHex, t, oa⟩ := by
      refine ⟨isHexField_toHex _, isHexField_toHex _, ht, ?_, ?_⟩
      · exact fun a ha => (loadAuthTag_ok hload a ha).1
      · intro a ha
        obtain ⟨howner, hself, -⟩ := checkAttestation_ok (hcheck a ha)
        exact ⟨howner, hself⟩
    have hsize : Envelope.conditionsSize ⟨(X.publicKey key).toHex,
        (X.signSchnorr key randomness (computeSigningHash sha256 t oa payload)).toHex, t, oa⟩ ≤
        MAX_AUTH_TAG := by
      cases oa with
      | none => exact Nat.zero_le _
      | some a => exact (loadAuthTag_ok hload a rfl).2
    rw [doVerify, readEnvelope_armor hvalid hsize]
    dsimp only [bind, Except.bind]
    rw [verifySignature, hX.publicKeyFromHex, checkPayload, if_neg (not_lt.mpr hpayload),
      HexId.toHex_toList, HexId.ofChars_toChars]
    dsimp only [bind, Except.bind, Except.mapError, okOr]
    rw [hX.hasXonly, hX.verifySchnorr, checkOa_of_checkAttestation hcheck]
    rfl
  · intro file file' payload payload' good good' h h' hsame
    have henvelope {file payload : List UInt8} {good : GoodSig}
        (h : doVerify X sha256 file payload = .ok good) :
        file = utf8Bytes (armor good.envelope.text).toList := by
      obtain ⟨envelope, hread, h⟩ := ok_of_bind h
      obtain ⟨pk, -, h⟩ := ok_of_bind h
      obtain ⟨_, -, h⟩ := ok_of_bind h
      obtain ⟨sig, -, h⟩ := ok_of_bind h
      split at h
      · cases h
      split at h
      · cases h
      obtain ⟨result, -, rfl⟩ := ok_of_map h
      exact eq_armor_of_readEnvelope hread
    rw [henvelope h, henvelope h', hsame]

end Agree

namespace SignExample

def hexId (n : ℕ) (s : String) : HexId n :=
  (HexId.ofChars n s.toList).getD (HexId.ofNat n 0)

/-- The public key of the secret key 1. -/
def publicKey : HexId 64 :=
  hexId 64 "79be667ef9dcbbac55a06295ce870b07029bfcdb2dce28d959f2815b16f81798"

def commitHash : HexId 64 :=
  hexId 64 "eb241e949bc66434ece4bb6be9e823bc94b44526a5cd997cdcc2a9ad96382d80"

def commitSig : String :=
  "d6dbb3b738824cb09ddeac771fc6dbb59ceffb9edfbe32d4a9fc7eae8fd6d894" ++
    "2f84fef0974b5fb9b36dc71edc4336d15dc70dc27c6d0a33f398b1c29199793a"

/-- What the key signs, where only the signature of one commit is a true one. -/
def sign (hash : HexId 64) : HexId 128 :=
  if hash = commitHash then hexId 128 commitSig
  else ⟨hash.nibbles ++ hash.nibbles, by rw [List.length_append, hash.length_eq]⟩

def externals : Externals Unit Unit Unit where
  float _ := none
  jsonError _ := "expected value"
  publicKey _ := publicKey
  publicKeyFromHex s := okOr (HexId.ofChars 64 s.toList) "Invalid hex"
  fromBech32 _ := none
  hasXonly key := key = publicKey
  signSchnorr _ _ := sign
  verifySchnorr sig hash key := key = publicKey && sig = sign hash

theorem sound_externals : externals.Sound where
  publicKeyFromHex _ := by
    dsimp only [externals]
    rw [HexId.toHex_toList, HexId.ofChars_toChars]
    rfl
  hasXonly _ := by
    dsimp only [externals]
    exact decide_eq_true rfl
  verifySchnorr _ _ hash := by
    dsimp only [externals]
    rw [decide_eq_true rfl, decide_eq_true rfl]
    rfl

end SignExample

open SignExample

/-- A commit that is signed, and the only file with its envelope. -/
theorem sign_verify_agree_commit :
    ∃ text, doSign externals sha256 () () "" HashExample.commit 1700000000 none (.ok none) = .ok text ∧
      doVerify externals sha256 (utf8Bytes text.toList) HashExample.commit =
        .ok ⟨⟨publicKey.toHex, commitSig, 1700000000, none⟩, .absent⟩ ∧
      ∀ file payload good, doVerify externals sha256 file payload = .ok good →
        good.envelope = ⟨publicKey.toHex, commitSig, 1700000000, none⟩ →
        file = utf8Bytes text.toList := by
  have hsig : (sign (computeSigningHash sha256 1700000000 none HashExample.commit)).toHex =
      commitSig := by
    decide +kernel
  obtain ⟨text, hsign, hverify⟩ := (sign_verify_agree sound_externals).1 () () "" HashExample.commit
    1700000000 none (.ok none) none rfl (by decide +kernel) (by decide) rfl (fun a ha => by cases ha)
  have hverify : doVerify externals sha256 (utf8Bytes text.toList) HashExample.commit =
      .ok ⟨⟨publicKey.toHex, commitSig, 1700000000, none⟩, .absent⟩ := by
    rw [hverify, ← hsig]
    rfl
  refine ⟨text, hsign, hverify, fun file payload good h hsame => ?_⟩
  exact (sign_verify_agree sound_externals).2 _ _ _ _ _ _ h hverify hsame

end Buzz.GitSign
