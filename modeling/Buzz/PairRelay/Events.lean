import Buzz.GitSign.Envelope

namespace Buzz.PairRelay
set_option autoImplicit true
open Json GitSign

def KIND_PAIR : ℕ := 24134

/-- Freshness window in seconds. -/
def FRESHNESS_SECS : ℕ := 120

variable {F : Type}

def decodeHex32 (s : String) : Option (HexId 64) :=
  if isHexField s 64 then HexId.ofChars 64 s.toList else none

def decodeHex64 (s : String) : Option (HexId 128) :=
  if isHexField s 128 then HexId.ofChars 128 s.toList else none

/-- A signed integer, if it fits 64 bits. -/
def asI64 : Value F → Option ℤ
  | .number (.posInt n) => if n.toNat < 2 ^ 63 then some n.toNat else none
  | .number (.negInt i _) => some i.toInt
  | _ => none

def asString (v : Option (Value F)) (reason : String) : Except String String :=
  okOr (v.bind Value.asStr) reason

/-- The loop over the keys of an object. -/
def allowKeys (allowed : List String) (reason : String) (obj : List (String × Value F)) :
    Except String Unit :=
  if obj.all fun m => allowed.contains m.1 then .ok () else .error reason

def validateKinds : Option (Value F) → Except String Unit
  | none => .ok ()
  | some kinds => do
    match ← okOr kinds.asArray "kinds must be an array" with
    | [kind] => if kind.asU64 = some KIND_PAIR then .ok () else .error "kinds must be [24134]"
    | _ => .error "kinds must be [24134]"

/-- Validate a REQ filter. -/
def validateFilter (filter : Value F) : Except String (HexId 64) := do
  let obj ← okOr filter.asObject "filter must be an object"
  allowKeys ["kinds", "#p"] "unsupported filter field" obj
  validateKinds (obj.lookup "kinds")
  match ← okOr ((obj.lookup "#p").bind Value.asArray) "#p filter required" with
  | [p] => do
    let p ← asString (some p) "#p value must be a string"
    okOr (decodeHex32 p) "#p value must be 64 lowercase hex chars"
  | _ => .error "#p must have exactly one value"

/-- The check of the alphabet, with the count of the padding. -/
def countPadding (len : ℕ) : ℕ → ℕ → List Char → Option ℕ
  | _, pad, [] => some pad
  | i, pad, c :: cs =>
    if (Base64.value c).isSome then
      if 0 < pad then none else countPadding len (i + 1) pad cs
    else if c = '=' then
      if i < len - 2 then none
      else if 2 < pad + 1 then none
      else countPadding len (i + 1) (pad + 1) cs
    else none

/-- The first decoded byte. -/
def firstByte : List Char → Option UInt8
  | c :: d :: _ =>
    match Base64.value c, Base64.value d with
    | some v, some w => some (UInt8.ofNat (v <<< 2 ||| w >>> 4))
    | _, _ => none
  | _ => none

/-- Validate NIP-44 content structure. A character outside of ASCII is one outside of the alphabet,
as each of its bytes is. -/
def validateNip44Content (content : String) : Except String Unit :=
  let cs := content.toList
  if cs = [] then .error "content must not be empty"
  else if cs.length % 4 ≠ 0 then .error "content is not valid base64"
  else
    match countPadding cs.length 0 0 cs with
    | none => .error "content is not valid base64"
    | some pad =>
      if cs.length / 4 * 3 - pad < 99 then .error "content too short for NIP-44 v2"
      else
        match firstByte cs with
        | none => .error "content is not valid base64"
        | some b =>
          if b = 2 then .ok () else .error "content is not NIP-44 v2 (expected 0x02 prefix)"

/-- Base64 in groups of four, whatever the bits that no byte takes. -/
def decodeLoose : List Char → Option (List UInt8)
  | [] => some []
  | w :: x :: y :: z :: rest =>
    match Base64.value w, Base64.value x with
    | some w, some x =>
      match Base64.value y, Base64.value z with
      | some y, some z => (decodeLoose rest).map fun bytes =>
        UInt8.ofNat (w * 4 + x / 16) :: UInt8.ofNat (x % 16 * 16 + y / 4) ::
          UInt8.ofNat (y % 4 * 64 + z) :: bytes
      | some y, none =>
        if z = '=' ∧ rest = [] then
          some [UInt8.ofNat (w * 4 + x / 16), UInt8.ofNat (x % 16 * 16 + y / 4)]
        else none
      | none, _ =>
        if y = '=' ∧ z = '=' ∧ rest = [] then some [UInt8.ofNat (w * 4 + x / 16)] else none
    | _, _ => none
  | _ => none

theorem value_pad : Base64.value '=' = none := by decide

/-- What is decoded strictly is decoded so. -/
theorem decodeLoose_of_decode : ∀ {cs : List Char} {bytes : List UInt8},
    Base64.decode cs = some bytes → decodeLoose cs = some bytes
  | [], bytes, h => h
  | [_], _, h => by cases h
  | [_, _], _, h => by cases h
  | [_, _, _], _, h => by cases h
  | w :: x :: y :: z :: rest, bytes, h => by
    rw [Base64.decode] at h
    rw [decodeLoose]
    split at h
    · rename_i hz
      subst hz
      split at h
      · rename_i hrest
        subst hrest
        unfold Base64.decodePadded at h
        cases hw : Base64.value w with
        | none => simp [hw] at h
        | some v =>
          cases hx : Base64.value x with
          | none => simp [hw, hx] at h
          | some v' =>
            simp only [hw, hx] at h ⊢
            by_cases hy : y = '='
            · subst hy
              rw [if_pos rfl] at h
              split at h
              · simpa [value_pad] using h
              · cases h
            · rw [if_neg hy] at h
              cases hy' : Base64.value y with
              | none => simp [hy'] at h
              | some v'' =>
                simp only [hy'] at h
                split at h
                · simpa [value_pad] using h
                · cases h
      · cases h
    · split at h
      · rename_i hw hx hy hz
        obtain ⟨more, hmore, rfl⟩ := Option.map_eq_some_iff.mp h
        simp only [hw, hx, hy, hz, decodeLoose_of_decode hmore, Option.map_some]
      · cases h

theorem countPadding_letter (h : Base64.value c = some v) (len i : ℕ) (cs : List Char) :
    countPadding len i 0 (c :: cs) = countPadding len (i + 1) 0 cs := by
  rw [countPadding, h, Option.isSome_some, if_pos rfl, if_neg (lt_irrefl 0)]

theorem countPadding_early (h : Base64.value c = none) (hi : i < len - 2) (pad : ℕ)
    (cs : List Char) : countPadding len i pad (c :: cs) = none := by
  rw [countPadding, h, if_neg (by decide)]
  rw [if_pos hi, ite_self]

/-- The last two characters, the only ones that may be padding. -/
theorem countPadding_last (hi : len = i + 2) (y z : Char) :
    countPadding len i 0 [y, z] =
      match Base64.value y, Base64.value z with
      | some _, some _ => some 0
      | some _, none => if z = '=' then some 1 else none
      | none, _ => if y = '=' ∧ z = '=' then some 2 else none := by
  have hlate : ¬ i < len - 2 := by omega
  have hlate' : ¬ i + 1 < len - 2 := by omega
  cases hy : Base64.value y with
  | some v =>
    rw [countPadding_letter hy]
    cases hz : Base64.value z with
    | some v' => rw [countPadding_letter hz, countPadding]
    | none =>
      rw [countPadding, hz, if_neg (by decide)]
      simp only [if_neg hlate', countPadding]
      rfl
  | none =>
    rw [countPadding, hy, if_neg (by decide)]
    by_cases hpad : y = '='
    · simp only [if_neg hlate, countPadding, hpad, true_and]
      cases hz : Base64.value z with
      | some v' =>
        have hne : z ≠ '=' := fun he => by
          rw [he, value_pad] at hz
          cases hz
        simp only [Option.isSome_some, if_true, if_neg hne]
        rfl
      | none =>
        simp only [if_neg hlate']
        rfl
    · simp only [hpad, false_and, if_false]

/-- The check of the alphabet is that of a decoder, and the padding is what the bytes lack. -/
theorem countPadding_iff : ∀ {cs : List Char} {len i pad : ℕ}, cs ≠ [] → cs.length % 4 = 0 →
    len = i + cs.length → (countPadding len i 0 cs = some pad ↔
      ∃ bytes, decodeLoose cs = some bytes ∧ bytes.length + pad = cs.length / 4 * 3)
  | [], _, _, _, hne, _, _ => absurd rfl hne
  | [_], _, _, _, _, hmod, _ => absurd hmod (by simp)
  | [_, _], _, _, _, _, hmod, _ => absurd hmod (by simp)
  | [_, _, _], _, _, _, _, hmod, _ => absurd hmod (by simp)
  | w :: x :: y :: z :: rest, len, i, pad, _, hmod, hlen => by
    simp only [List.length_cons] at hmod hlen
    have hnone : countPadding len i 0 (w :: x :: y :: z :: rest) = none →
        decodeLoose (w :: x :: y :: z :: rest) = none →
        (countPadding len i 0 (w :: x :: y :: z :: rest) = some pad ↔
          ∃ bytes, decodeLoose (w :: x :: y :: z :: rest) = some bytes ∧
            bytes.length + pad = (w :: x :: y :: z :: rest).length / 4 * 3) := by
      intro hcount hdecode
      rw [hcount, hdecode]
      simp
    cases hw : Base64.value w with
    | none =>
      refine hnone (countPadding_early hw (by omega) 0 _) ?_
      simp only [decodeLoose, hw]
    | some a =>
      cases hx : Base64.value x with
      | none =>
        refine hnone ?_ ?_
        · rw [countPadding_letter hw, countPadding_early hx (by omega)]
        · simp only [decodeLoose, hw, hx]
      | some b =>
        rw [countPadding_letter hw, countPadding_letter hx] at hnone ⊢
        by_cases hrest : rest = []
        · subst hrest
          rw [countPadding_last (by simp only [List.length_nil] at hlen; omega)]
          simp only [decodeLoose, hw, hx, and_true, List.length_cons, List.length_nil]
          cases hy : Base64.value y with
          | none =>
            simp only
            split
            · simp only [Option.some.injEq, exists_eq_left', List.length_cons, List.length_nil]
              omega
            · simp
          | some c =>
            cases hz : Base64.value z with
            | none =>
              simp only
              split
              · simp only [Option.some.injEq, exists_eq_left', List.length_cons, List.length_nil]
                omega
              · simp
            | some d =>
              simp only [Option.map_some, Option.some.injEq, exists_eq_left', List.length_cons,
                List.length_nil]
              omega
        · have hlong : 4 ≤ rest.length := by
            have hpos := List.length_pos_of_ne_nil hrest
            omega
          cases hy : Base64.value y with
          | none =>
            refine hnone (countPadding_early hy (by omega) 0 _) ?_
            simp only [decodeLoose, hw, hx, hy, hrest, and_false, if_false]
          | some c =>
            rw [countPadding_letter hy] at hnone ⊢
            cases hz : Base64.value z with
            | none =>
              refine hnone (countPadding_early hz (by omega) 0 _) ?_
              simp only [decodeLoose, hw, hx, hy, hz, hrest, and_false, if_false]
            | some d =>
              rw [countPadding_letter hz, countPadding_iff hrest (by omega) (by omega)]
              simp only [decodeLoose, hw, hx, hy, hz, Option.map_eq_some_iff, List.length_cons]
              constructor
              · rintro ⟨bytes, hdecode, hcount⟩
                exact ⟨_, ⟨bytes, hdecode, rfl⟩, by simp only [List.length_cons]; omega⟩
              · rintro ⟨_, ⟨bytes, hdecode, rfl⟩, hcount⟩
                simp only [List.length_cons] at hcount
                exact ⟨bytes, hdecode, by omega⟩

theorem value_lt (h : Base64.value c = some v) : v < 64 :=
  (Base64.letter_of_value h).1

/-- What is decoded comes in groups of four characters, of three bytes at most. -/
theorem length_of_decodeLoose : ∀ {cs : List Char} {bytes : List UInt8},
    decodeLoose cs = some bytes → cs.length % 4 = 0 ∧ bytes.length ≤ cs.length / 4 * 3
  | [], bytes, h => by
    obtain rfl := Option.some.inj h
    exact ⟨rfl, le_refl _⟩
  | [_], _, h => by cases h
  | [_, _], _, h => by cases h
  | [_, _, _], _, h => by cases h
  | w :: x :: y :: z :: rest, bytes, h => by
    rw [decodeLoose] at h
    simp only [List.length_cons]
    split at h
    · split at h
      · obtain ⟨more, hmore, rfl⟩ := Option.map_eq_some_iff.mp h
        have hrest := length_of_decodeLoose hmore
        simp only [List.length_cons]
        omega
      · split at h
        · rename_i hpad
          obtain rfl := Option.some.inj h
          rw [hpad.2]
          exact ⟨rfl, Nat.le_of_ble_eq_true rfl⟩
        · cases h
      · split at h
        · rename_i hpad
          obtain rfl := Option.some.inj h
          rw [hpad.2.2]
          exact ⟨rfl, Nat.le_of_ble_eq_true rfl⟩
        · cases h
    · cases h

theorem firstByte_of_decodeLoose : ∀ {cs : List Char} {bytes : List UInt8}, cs ≠ [] →
    decodeLoose cs = some bytes → firstByte cs = bytes.head?
  | [], _, hne, _ => absurd rfl hne
  | [_], _, _, h => by cases h
  | [_, _], _, _, h => by cases h
  | [_, _, _], _, _, h => by cases h
  | w :: x :: y :: z :: rest, bytes, _, h => by
    rw [decodeLoose] at h
    split at h
    · rename_i v v' hw hx
      have hor : v <<< 2 ||| v' >>> 4 = v * 4 + v' / 16 := by
        have hlt := value_lt hx
        rw [Nat.shiftRight_eq_div_pow, ← Nat.shiftLeft_add_eq_or_of_lt (by omega), Nat.shiftLeft_eq]
      simp only [firstByte, hw, hx, hor]
      split at h
      · obtain ⟨more, -, rfl⟩ := Option.map_eq_some_iff.mp h
        rfl
      · split at h
        · obtain rfl := Option.some.inj h
          rfl
        · cases h
      · split at h
        · obtain rfl := Option.some.inj h
          rfl
        · cases h
    · cases h

theorem validateNip44Content_iff (content : String) : validateNip44Content content = .ok () ↔
    ∃ bytes, decodeLoose content.toList = some bytes ∧ 99 ≤ bytes.length ∧
      bytes.head? = some 2 := by
  unfold validateNip44Content
  generalize content.toList = cs
  simp only
  by_cases hne : cs = []
  · subst hne
    simp [decodeLoose]
  · rw [if_neg hne]
    by_cases hmod : cs.length % 4 = 0
    · rw [if_neg (not_not_intro hmod)]
      have hiff : ∀ pad, countPadding cs.length 0 0 cs = some pad ↔ _ := fun pad =>
        countPadding_iff hne hmod (Nat.zero_add _).symm
      cases hcount : countPadding cs.length 0 0 cs with
      | none =>
        refine iff_of_false (fun h => by cases h) ?_
        rintro ⟨bytes, hdecode, -⟩
        have hle := (length_of_decodeLoose hdecode).2
        have hsome := (hiff (cs.length / 4 * 3 - bytes.length)).mpr ⟨bytes, hdecode, by omega⟩
        rw [hcount] at hsome
        cases hsome
      | some pad =>
        obtain ⟨bytes, hdecode, hlength⟩ := (hiff pad).mp hcount
        have hcongr : (∃ bytes, decodeLoose cs = some bytes ∧ 99 ≤ bytes.length ∧
            bytes.head? = some 2) ↔ 99 ≤ bytes.length ∧ bytes.head? = some 2 := by
          rw [hdecode]
          simp
        rw [hcongr]
        simp only [firstByte_of_decodeLoose hne hdecode]
        by_cases hlong : cs.length / 4 * 3 - pad < 99
        · rw [if_pos hlong]
          exact iff_of_false (fun h => by cases h) (fun h => by omega)
        · rw [if_neg hlong]
          cases hhead : bytes.head? with
          | none => exact iff_of_false (fun h => by cases h) (fun h => by cases h.2)
          | some b =>
            simp only
            by_cases hb : b = 2
            · rw [if_pos hb, hb]
              exact iff_of_true rfl ⟨by omega, rfl⟩
            · rw [if_neg hb]
              exact iff_of_false (fun h => by cases h) (fun h => hb (Option.some.inj h.2))
    · rw [if_pos hmod]
      refine iff_of_false (fun h => by cases h) ?_
      rintro ⟨bytes, hdecode, -⟩
      exact hmod (length_of_decodeLoose hdecode).1

/-- The hand-written check accepts just the texts that decode to 99 bytes or more, the first of them
a two, whatever the spare bits; and of what a strict decoder takes, just those with these bytes. -/
theorem nip44_content_checked (content : String) :
    (validateNip44Content content = .ok () ↔
      ∃ bytes, decodeLoose content.toList = some bytes ∧ 99 ≤ bytes.length ∧
        bytes.head? = some 2) ∧
    ∀ bytes, Base64.decode content.toList = some bytes →
      (validateNip44Content content = .ok () ↔ 99 ≤ bytes.length ∧ bytes.head? = some 2) := by
  refine ⟨validateNip44Content_iff content, fun bytes hdecode => ?_⟩
  rw [validateNip44Content_iff, decodeLoose_of_decode hdecode]
  simp

/-- The shortest content, all zeros after the version. -/
def leastContent : String :=
  String.ofList ('A' :: 'g' :: List.replicate 130 'A')

theorem nip44_content_checked_least : ∃ bytes, decodeLoose leastContent.toList = some bytes ∧
    99 ≤ bytes.length ∧ bytes.head? = some 2 :=
  (nip44_content_checked leastContent).1.mp (by decide +kernel)

def eventKeys : List String := ["id", "pubkey", "created_at", "kind", "tags", "content", "sig"]

/-- Exactly `[["p", "<64-hex>"]]`. -/
def validateTags : List (Value F) → Except String (HexId 64)
  | [tag] => do
    match ← okOr tag.asArray "tag must be an array" with
    | [name, p] =>
      if name.asStr = some "p" then do
        let p ← asString (some p) "p tag value must be a string"
        okOr (decodeHex32 p) "p tag value must be 64 lowercase hex chars"
      else .error "event must have exactly one p tag"
    | _ => .error "p tag must have exactly 2 elements"
  | _ => .error "event must have exactly one p tag"

def require (b : Bool) (reason : String) : Except String Unit :=
  if b then .ok () else .error reason

/-- Validate an EVENT object, at some second of the wall clock. -/
def validateEvent (now : ℤ) (ev : Value F) : Except String (String × HexId 64 × HexId 64) := do
  let obj ← okOr ev.asObject "event must be an object"
  allowKeys eventKeys "unknown top-level field" obj
  let id ← asString (obj.lookup "id") "missing id"
  require (isHexField id 64) "id must be 64 lowercase hex chars"
  let idBytes ← okOr (decodeHex32 id) "id must be 64 lowercase hex chars"
  let pubkey ← asString (obj.lookup "pubkey") "missing pubkey"
  require (isHexField pubkey 64) "pubkey must be 64 lowercase hex chars"
  require (decide ((obj.lookup "kind").bind Value.asU64 = some KIND_PAIR)) "kind must be 24134"
  let createdAt ← okOr ((obj.lookup "created_at").bind asI64) "missing created_at"
  require (decide ((createdAt - now).natAbs ≤ FRESHNESS_SECS)) "created_at outside freshness window"
  let content ← asString (obj.lookup "content") "missing content"
  validateNip44Content content
  let sig ← asString (obj.lookup "sig") "missing sig"
  require (isHexField sig 128) "sig must be 128 lowercase hex chars"
  let tags ← okOr ((obj.lookup "tags").bind Value.asArray) "missing tags"
  let p ← validateTags tags
  .ok (id, idBytes, p)

def safeEventId (ev : Value F) : String :=
  match (ev.asObject.bind fun obj => obj.lookup "id").bind Value.asStr with
  | some id => if isHexField id 64 then id else ""
  | none => ""

/-- The number of a 64-bit integer. -/
def ofI64 (i : ℤ) : Number F :=
  if h : (Int64.ofInt i).toInt < 0 then .negInt (Int64.ofInt i) h
  else .posInt (UInt64.ofNat i.toNat)

/-- `[0, pubkey, created_at, kind, tags, content]`. -/
def commitment (pubkey : String) (createdAt : ℤ) (kind : ℕ) (tags : Value F) (content : String) :
    Value F :=
  .array [.number (.posInt 0), .string pubkey, .number (ofI64 createdAt),
    .number (.posInt (UInt64.ofNat kind)), tags, .string content]

section Verify

variable {K R : Type} (X : Externals K R F) (fmt : FloatFormat F) (sha256 : ByteArray → HexId 64)

def commitmentHash (v : Value F) : HexId 64 :=
  sha256 (utf8Bytes (write fmt v)).toByteArray

/-- What of an event its id commits to. -/
def committed (ev : Value F) : Except String (Value F) := do
  let obj ← okOr ev.asObject "event must be an object"
  let pubkey ← asString (obj.lookup "pubkey") "missing pubkey"
  let createdAt ← okOr ((obj.lookup "created_at").bind asI64) "missing created_at"
  let kind ← okOr ((obj.lookup "kind").bind Value.asU64) "missing kind"
  let tags ← okOr (obj.lookup "tags") "missing tags"
  let content ← asString (obj.lookup "content") "missing content"
  .ok (commitment pubkey createdAt kind tags content)

/-- Verify the Schnorr signature and event ID for a NIP-01 event. -/
def verifyEventSig (ev : Value F) : Except String Unit := do
  let obj ← okOr ev.asObject "event must be an object"
  let v ← committed ev
  let pubkey ← asString (obj.lookup "pubkey") "missing pubkey"
  let id ← asString (obj.lookup "id") "missing id"
  let sig ← asString (obj.lookup "sig") "missing sig"
  let idBytes ← okOr (decodeHex32 id) "id must be 64 lowercase hex chars"
  require (decide (commitmentHash fmt sha256 v = idBytes)) "invalid: event id mismatch"
  let pubkeyBytes ← okOr (decodeHex32 pubkey) "pubkey must be 64 lowercase hex chars"
  require (X.hasXonly pubkeyBytes) "invalid: bad pubkey"
  let sigBytes ← okOr (decodeHex64 sig) "sig must be 128 lowercase hex chars"
  require (X.verifySchnorr sigBytes (commitmentHash fmt sha256 v) pubkeyBytes)
    "invalid: signature verification failed"

/-- When an event says it was made, and the id it claims. -/
def createdAt (ev : Value F) : Option ℤ :=
  (ev.asObject.bind fun obj => obj.lookup "created_at").bind asI64

def claimedId (ev : Value F) : Option (HexId 64) :=
  ((ev.asObject.bind fun obj => obj.lookup "id").bind Value.asStr).bind decodeHex32

theorem okOr_eq_ok {x : Option α} {e : ε} {a : α} : okOr x e = .ok a ↔ x = some a := by
  cases x with
  | none => exact iff_of_false (fun h => by cases h) (fun h => by cases h)
  | some b => exact ⟨fun h => by rw [Except.ok.inj h], fun h => by rw [Option.some.inj h]; rfl⟩

theorem require_eq_ok {b : Bool} {reason : String} : require b reason = .ok () ↔ b = true := by
  cases b with
  | false => exact iff_of_false (fun h => by cases h) Bool.false_ne_true
  | true => exact iff_of_true rfl rfl

theorem asI64_ofI64 {v : Value F} {i : ℤ} (h : asI64 v = some i) :
    asI64 (.number (ofI64 i) : Value F) = some i := by
  cases v with
  | number n =>
    cases n with
    | posInt n =>
      simp only [asI64] at h
      split_ifs at h with hlt
      obtain rfl := Option.some.inj h
      have hpos : ¬ (Int64.ofInt (n.toNat : ℤ)).toInt < 0 := by
        rw [Int64.toInt_ofInt_of_le (by omega) (by omega)]
        omega
      rw [ofI64, dif_neg hpos, asI64, Int.toNat_natCast, UInt64.ofNat_toNat, if_pos hlt]
    | negInt i hneg =>
      obtain rfl := Option.some.inj h
      have hneg' : (Int64.ofInt i.toInt).toInt < 0 := by
        rw [Int64.ofInt_toInt]
        exact hneg
      rw [ofI64, dif_pos hneg', asI64, Int64.ofInt_toInt]
    | float x => cases h
  | null => cases h
  | bool b => cases h
  | string s => cases h
  | array items => cases h
  | object members => cases h

theorem committed_ok {ev v : Value F} (h : committed ev = .ok v) :
    ∃ pubkey i kind tags content, createdAt ev = some i ∧
      v = commitment pubkey i kind tags content := by
  obtain ⟨obj, hobj, h⟩ := ok_of_bind h
  obtain ⟨pubkey, -, h⟩ := ok_of_bind h
  obtain ⟨i, hi, h⟩ := ok_of_bind h
  obtain ⟨kind, -, h⟩ := ok_of_bind h
  obtain ⟨tags, -, h⟩ := ok_of_bind h
  obtain ⟨content, -, h⟩ := ok_of_bind h
  refine ⟨pubkey, i, kind, tags, content, ?_, (Except.ok.inj h).symm⟩
  rw [createdAt, okOr_eq_ok.mp hobj]
  exact okOr_eq_ok.mp hi

theorem createdAt_range {ev : Value F} {i : ℤ} (h : createdAt ev = some i) :
    asI64 (.number (ofI64 i) : Value F) = some i := by
  obtain ⟨v, -, hv⟩ := Option.bind_eq_some_iff.mp h
  exact asI64_ofI64 hv

/-- What is committed to says when the event was made. -/
theorem createdAt_of_committed {ev ev' v : Value F} (h : committed ev = .ok v)
    (h' : committed ev' = .ok v) : createdAt ev = createdAt ev' := by
  obtain ⟨pubkey, i, kind, tags, content, hi, rfl⟩ := committed_ok h
  obtain ⟨pubkey', i', kind', tags', content', hi', heq⟩ := committed_ok h'
  rw [commitment, commitment, Value.array.injEq] at heq
  have hnumber : (ofI64 i : Number F) = ofI64 i' := by
    simp only [List.cons.injEq, Value.number.injEq] at heq
    exact heq.2.2.1
  have hrange := createdAt_range hi
  rw [hnumber, createdAt_range hi'] at hrange
  rw [hi, hi', Option.some.inj hrange]

theorem verifyEventSig_ok {ev : Value F} (h : verifyEventSig X fmt sha256 ev = .ok ()) :
    ∃ v, committed ev = .ok v ∧ claimedId ev = some (commitmentHash fmt sha256 v) := by
  obtain ⟨obj, hobj, h⟩ := ok_of_bind h
  obtain ⟨v, hv, h⟩ := ok_of_bind h
  obtain ⟨pubkey, -, h⟩ := ok_of_bind h
  obtain ⟨id, hid, h⟩ := ok_of_bind h
  obtain ⟨sig, -, h⟩ := ok_of_bind h
  obtain ⟨idBytes, hbytes, h⟩ := ok_of_bind h
  obtain ⟨_, hhash, -⟩ := ok_of_bind h
  refine ⟨v, hv, ?_⟩
  have hsame := of_decide_eq_true (require_eq_ok.mp hhash)
  rw [claimedId, okOr_eq_ok.mp hobj]
  change ((obj.lookup "id").bind Value.asStr).bind decodeHex32 = _
  rw [okOr_eq_ok.mp hid, hsame]
  exact okOr_eq_ok.mp hbytes

theorem validateEvent_ok {now : ℤ} {ev : Value F} {id : String} {idBytes p : HexId 64}
    (h : validateEvent now ev = .ok (id, idBytes, p)) : claimedId ev = some idBytes ∧
      ∃ i, createdAt ev = some i ∧ (i - now).natAbs ≤ FRESHNESS_SECS := by
  obtain ⟨obj, hobj, h⟩ := ok_of_bind h
  obtain ⟨-, -, h⟩ := ok_of_bind h
  obtain ⟨id', hid, h⟩ := ok_of_bind h
  obtain ⟨-, -, h⟩ := ok_of_bind h
  obtain ⟨idBytes', hbytes, h⟩ := ok_of_bind h
  obtain ⟨pubkey, -, h⟩ := ok_of_bind h
  obtain ⟨-, -, h⟩ := ok_of_bind h
  obtain ⟨-, -, h⟩ := ok_of_bind h
  obtain ⟨i, hi, h⟩ := ok_of_bind h
  obtain ⟨_, hfresh, h⟩ := ok_of_bind h
  obtain ⟨content, -, h⟩ := ok_of_bind h
  obtain ⟨-, -, h⟩ := ok_of_bind h
  obtain ⟨sig, -, h⟩ := ok_of_bind h
  obtain ⟨-, -, h⟩ := ok_of_bind h
  obtain ⟨tags, -, h⟩ := ok_of_bind h
  obtain ⟨p', -, h⟩ := ok_of_bind h
  have hresult := Except.ok.inj h
  rw [Prod.mk.injEq, Prod.mk.injEq] at hresult
  obtain ⟨-, rfl, -⟩ := hresult
  refine ⟨?_, i, ?_, of_decide_eq_true (require_eq_ok.mp hfresh)⟩
  · rw [claimedId, okOr_eq_ok.mp hobj]
    change ((obj.lookup "id").bind Value.asStr).bind decodeHex32 = _
    rw [okOr_eq_ok.mp hid]
    exact okOr_eq_ok.mp hbytes
  · rw [createdAt, okOr_eq_ok.mp hobj]
    exact okOr_eq_ok.mp hi

end Verify

end Buzz.PairRelay
