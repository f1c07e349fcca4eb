import Buzz.Pairing.Qr

namespace Buzz.Pairing
set_option autoImplicit true
open Percent

variable (X : QrExternals)

theorem splitOnce_append {c : Char} {before : List Char} (h : c ∉ before) (after : List Char) :
    splitOnce c (before ++ c :: after) = some (before, after) := by
  have hne : ∀ d ∈ before, (d != c) = true := by
    intro d hd
    rw [bne_iff_ne]
    rintro rfl
    exact h hd
  rw [splitOnce, if_pos (List.mem_append_right _ List.mem_cons_self),
    List.takeWhile_append_of_pos hne, List.dropWhile_append_of_pos hne,
    List.takeWhile_cons_of_neg (by simp), List.dropWhile_cons_of_neg (by simp), List.append_nil,
    List.tail_cons]

theorem isLowercaseHex_digitChar (d : Fin 16) : isLowercaseHex (Hex.digitChar d) = true := by
  revert d
  decide

theorem all_isLowercaseHex (x : HexId n) : x.toChars.all isLowercaseHex = true := by
  rw [List.all_eq_true]
  intro c hc
  obtain ⟨d, _, rfl⟩ := List.mem_map.mp hc
  exact isLowercaseHex_digitChar d

theorem not_mem_toChars {x : HexId n} {c : Char} (h : isLowercaseHex c = false) :
    c ∉ x.toChars := by
  intro hc
  rw [List.all_eq_true.mp (all_isLowercaseHex x) c hc] at h
  cases h

theorem textSize_toChars (x : HexId n) : textSize x.toChars = n := by
  rw [← utf8ByteSize_ofList]
  exact x.toHex_utf8ByteSize

theorem not_mem_utf8PercentEncode {s : String} {c : Char} (h : c.isAlphanum = false)
    (hpercent : c ≠ '%') : c ∉ utf8PercentEncode s := by
  intro hc
  rcases mem_utf8PercentEncode hc with halnum | heq
  · rw [halnum] at h
    cases h
  · exact hpercent heq

/-- The parameters that are written. -/
def encodedPairs (payload : QrPayload) : List (List Char) :=
  ("secret=".toList ++ payload.sessionSecret.toChars) ::
    (payload.relays.map (fun relay => "relay=".toList ++ utf8PercentEncode relay) ++
      ["v=1".toList])

theorem encodeQr_toList (payload : QrPayload) :
    (encodeQr payload).toList = "nostrpair://".toList ++ (payload.sourcePubkey.toChars ++
      '?' :: List.intercalate ['&'] (encodedPairs payload)) := by
  have hsecret : "?secret=".toList = '?' :: "secret=".toList := by decide
  have hrelay : "&relay=".toList = '&' :: "relay=".toList := by decide
  have hversion : "&v=1".toList = '&' :: "v=1".toList := by decide
  refine String.toList_ofList.trans ?_
  rw [encodedPairs, Json.intercalate_cons_flatMap, List.flatMap_append, List.flatMap_map, hsecret,
    hrelay, hversion, List.flatMap_singleton]
  simp only [List.append_assoc, List.cons_append]

theorem separator_notMem_encodedPairs (payload : QrPayload) :
    ∀ pair ∈ encodedPairs payload, '&' ∉ pair := by
  intro pair hpair
  rw [encodedPairs, List.mem_cons, List.mem_append, List.mem_singleton] at hpair
  rcases hpair with rfl | hrelay | rfl
  · rw [List.mem_append, not_or]
    exact ⟨by decide, not_mem_toChars (by decide)⟩
  · obtain ⟨relay, _, rfl⟩ := List.mem_map.mp hrelay
    have halnum : '&'.isAlphanum = false := by decide
    have hpercent : '&' ≠ '%' := by decide
    rw [List.mem_append, not_or]
    exact ⟨by decide, not_mem_utf8PercentEncode halnum hpercent⟩
  · decide

theorem splitOn_encodedPairs (payload : QrPayload) :
    (List.intercalate ['&'] (encodedPairs payload)).splitOn '&' = encodedPairs payload :=
  List.splitOn_intercalate '&' (separator_notMem_encodedPairs payload) (List.cons_ne_nil _ _)

theorem add_pair (params : QrParams) (key value : List Char) (h : '=' ∉ key) :
    params.add (key ++ '=' :: value) =
      if key = "secret".toList then { params with secretHex := some value }
      else if key = "relay".toList then
        { params with relays := params.relays ++ [percentDecodeStr value] }
      else if key = "v".toList then { params with version := parseU32 value }
      else params := by
  rw [QrParams.add, splitOnce_append h]

theorem foldl_add_relays (params : QrParams) (relays : List String) :
    (relays.map fun relay => "relay=".toList ++ utf8PercentEncode relay).foldl QrParams.add params =
      { params with relays := params.relays ++ relays } := by
  induction relays generalizing params with
  | nil => simp
  | cons relay relays ih =>
    have hadd : params.add ("relay=".toList ++ utf8PercentEncode relay) =
        { params with relays := params.relays ++ [relay] } := by
      have hpair := add_pair params "relay".toList (utf8PercentEncode relay) (by decide)
      rw [if_neg (by decide), if_pos rfl, percentDecodeStr_encode] at hpair
      exact hpair
    rw [List.map_cons, List.foldl_cons, hadd, ih]
    simp

/-- What is written is read. -/
theorem parseQuery_encoded (payload : QrPayload) :
    parseQuery (List.intercalate ['&'] (encodedPairs payload)) =
      ⟨some payload.sessionSecret.toChars, payload.relays, some 1⟩ := by
  have hsecret := add_pair ⟨none, [], none⟩ "secret".toList payload.sessionSecret.toChars (by decide)
  rw [if_pos rfl] at hsecret
  have hversion := add_pair ⟨some payload.sessionSecret.toChars, payload.relays, none⟩ "v".toList
    ['1'] (by decide)
  rw [if_neg (by decide), if_neg (by decide), if_pos rfl] at hversion
  have hone : parseU32 ['1'] = some 1 := by decide
  rw [hone] at hversion
  rw [parseQuery, splitOn_encodedPairs, encodedPairs, List.foldl_cons, List.foldl_append]
  change List.foldl _ (List.foldl _ (QrParams.add _
    ("secret".toList ++ '=' :: payload.sessionSecret.toChars)) _) _ = _
  rw [hsecret, foldl_add_relays, List.nil_append]
  exact hversion

theorem splitUri_encodeQr (payload : QrPayload)
    (h : (encodeQr payload).utf8ByteSize ≤ MAX_URI_LENGTH) :
    splitUri X (encodeQr payload) = .ok (payload.sourcePubkey,
      ⟨some payload.sessionSecret.toChars, payload.relays, some 1⟩) := by
  have hquery : '?' ∉ payload.sourcePubkey.toChars := not_mem_toChars (by decide)
  have hhex : ¬(textSize payload.sourcePubkey.toChars ≠ 64 ∨
      (!payload.sourcePubkey.toChars.all isLowercaseHex) = true) := by
    rw [textSize_toChars, all_isLowercaseHex]
    decide
  rw [splitUri, if_neg (Nat.not_lt.mpr h), encodeQr_toList,
    List.dropPrefix?_append_of_beq _ (beq_self_eq_true _)]
  dsimp only
  rw [splitOnce_append hquery]
  dsimp only
  rw [if_neg hhex, HexId.ofChars_toChars, parseQuery_encoded]

theorem checkSecret_toChars {secret : HexId 64} (h : secret ≠ HexId.ofNat 64 0) :
    checkSecret X (some secret.toChars) = .ok secret := by
  have hhex : ¬(textSize secret.toChars ≠ 64 ∨
      (!secret.toChars.all isLowercaseHex) = true) := by
    rw [textSize_toChars, all_isLowercaseHex]
    decide
  simp only [checkSecret, if_neg hhex, HexId.ofChars_toChars, if_neg h]

theorem decodeQr_encodeQr {payload : QrPayload} (hversion : payload.version = 1)
    (hsecret : payload.sessionSecret ≠ HexId.ofNat 64 0) (hrelays : payload.relays ≠ [])
    (hurls : ∀ relay ∈ payload.relays, IsRelayUrl X relay)
    (hsize : (encodeQr payload).utf8ByteSize ≤ MAX_URI_LENGTH) :
    decodeQr X (encodeQr payload) = .ok payload := by
  apply (decodeQr_eq_ok X).mpr
  refine ⟨payload.sourcePubkey, _, 1, payload.sessionSecret, splitUri_encodeQr X payload hsize, rfl,
    checkSecret_toChars X hsecret, hrelays, (checkRelays_ok_iff X payload.relays).mpr hurls, ?_⟩
  rw [← hversion]

/-- The query of a URI. -/
def queryOf (uri : String) : Option (List Char) :=
  match uri.toList.dropPrefix? "nostrpair://".toList with
  | none => none
  | some rest => (splitOnce '?' rest).map Prod.snd

def versionValue (pair : List Char) : Option (List Char) :=
  match splitOnce '=' pair with
  | some (key, value) => if key = "v".toList then some value else none
  | none => none

/-- The values of the version parameters of a query, in order. -/
def versionValues (query : List Char) : List (List Char) :=
  (query.splitOn '&').filterMap versionValue

/-- The URI carries a version parameter that is anything other than the number 1. -/
def CarriesOtherVersion (uri : String) : Prop :=
  ∃ query, queryOf uri = some query ∧ ∃ value ∈ versionValues query, parseU32 value ≠ some 1

/-- The last version parameter of the URI is a number other than 1. -/
def LastVersionUnsupported (uri : String) : Prop :=
  ∃ query value n, queryOf uri = some query ∧ (versionValues query).getLast? = some value ∧
    parseU32 value = some n ∧ n ≠ 1

/-- The URI passes every check but the one of its version. -/
def ValidButVersion (uri : String) : Prop :=
  ∃ sourcePubkey params sessionSecret, splitUri X uri = .ok (sourcePubkey, params) ∧
    checkSecret X params.secretHex = .ok sessionSecret ∧ params.relays ≠ [] ∧
    checkRelays X params.relays = .ok ()

theorem version_add (params : QrParams) (pair : List Char) :
    (params.add pair).version = (versionValue pair).elim params.version parseU32 := by
  rw [QrParams.add, versionValue]
  cases splitOnce '=' pair with
  | none => rfl
  | some kv =>
    obtain ⟨key, value⟩ := kv
    dsimp only
    by_cases hv : key = "v".toList
    · have hsecret : key ≠ "secret".toList := by
        rw [hv]
        decide
      have hrelay : key ≠ "relay".toList := by
        rw [hv]
        decide
      rw [if_neg hsecret, if_neg hrelay, if_pos hv, if_pos hv]
      rfl
    · rw [if_neg hv, if_neg hv]
      split
      · rfl
      · split
        · rfl
        · rfl

theorem version_foldl_add (params : QrParams) (pairs : List (List Char)) :
    (pairs.foldl QrParams.add params).version =
      (pairs.filterMap versionValue).getLast?.elim params.version parseU32 := by
  induction pairs generalizing params with
  | nil => rfl
  | cons pair pairs ih =>
    rw [List.foldl_cons, ih, version_add]
    cases hvalue : versionValue pair with
    | none => rw [List.filterMap_cons_none hvalue, Option.elim_none]
    | some value =>
      rw [List.filterMap_cons_some hvalue, List.getLast?_cons, Option.elim_some, Option.elim_some]
      cases (pairs.filterMap versionValue).getLast? with
      | none => rfl
      | some last => rfl

/-- The version that is kept is the one that was written last. -/
theorem version_parseQuery (query : List Char) :
    (parseQuery query).version = (versionValues query).getLast?.bind parseU32 := by
  rw [parseQuery, version_foldl_add, versionValues]
  cases ((query.splitOn '&').filterMap versionValue).getLast? with
  | none => rfl
  | some value => rfl

theorem splitUri_params {uri : String} (h : splitUri X uri = .ok (sourcePubkey, params)) :
    ∃ query, queryOf uri = some query ∧ params = parseQuery query := by
  rw [splitUri] at h
  split at h
  · cases h
  · split at h
    · cases h
    · rename_i rest hrest
      split at h
      · cases h
      · rename_i pubkeyHex query hquery
        split at h
        · cases h
        · split at h
          · cases h
          · cases h
            refine ⟨query, ?_, rfl⟩
            rw [queryOf, hrest]
            dsimp only
            rw [hquery]
            rfl

theorem checkVersion_ok_iff (version : Option UInt32) :
    (∃ v, checkVersion version = .ok v) ↔ ∀ n, version = some n → n = 1 := by
  rw [checkVersion]
  cases version with
  | none => exact ⟨fun _ => nofun, fun _ => ⟨1, rfl⟩⟩
  | some n =>
    rw [Option.getD_some]
    by_cases hn : n = 1
    · simp [hn]
    · simp [hn]

/-- A URI is accepted if its version is the only thing that can be wrong and its last version
parameter is 1 or no number. -/
theorem decodeQr_ok_iff (uri : String) :
    (∃ payload, decodeQr X uri = .ok payload) ↔
      ValidButVersion X uri ∧ ¬LastVersionUnsupported uri := by
  constructor
  · rintro ⟨payload, h⟩
    obtain ⟨sourcePubkey, params, version, sessionSecret, hsplit, hversion, hsecret, hrelays,
      hurls, _⟩ := (decodeQr_eq_ok X).mp h
    refine ⟨⟨sourcePubkey, params, sessionSecret, hsplit, hsecret, hrelays, hurls⟩, ?_⟩
    rintro ⟨query, value, n, hquery, hvalue, hn, hne⟩
    obtain ⟨query', hquery', rfl⟩ := splitUri_params X hsplit
    rw [hquery, Option.some.injEq] at hquery'
    subst hquery'
    rw [version_parseQuery, hvalue, Option.bind_some, hn] at hversion
    exact hne ((checkVersion_ok_iff _).mp ⟨version, hversion⟩ n rfl)
  · rintro ⟨⟨sourcePubkey, params, sessionSecret, hsplit, hsecret, hrelays, hurls⟩, hlast⟩
    obtain ⟨query, hquery, hparams⟩ := splitUri_params X hsplit
    have hversion : ∀ n, params.version = some n → n = 1 := by
      intro n hn
      rw [hparams, version_parseQuery] at hn
      obtain ⟨value, hvalue, hn⟩ := Option.bind_eq_some_iff.mp hn
      by_contra hne
      exact hlast ⟨query, value, n, hquery, hvalue, hn, hne⟩
    obtain ⟨version, hversion⟩ := (checkVersion_ok_iff _).mpr hversion
    exact ⟨_, (decodeQr_eq_ok X).mpr ⟨sourcePubkey, params, version, sessionSecret, hsplit,
      hversion, hsecret, hrelays, hurls, rfl⟩⟩

/-- A payload within the limits survives the round trip. A URI with a version parameter other than
the number 1 is rejected exactly if its last one is another number, or something else about it is
wrong. -/
theorem qr_round_trip_and_version :
    (∀ payload : QrPayload, payload.version = 1 → payload.sessionSecret ≠ HexId.ofNat 64 0 →
      payload.relays ≠ [] → (∀ relay ∈ payload.relays, IsRelayUrl X relay) →
      (encodeQr payload).utf8ByteSize ≤ MAX_URI_LENGTH →
      decodeQr X (encodeQr payload) = .ok payload) ∧
    ∀ uri : String,
      (CarriesOtherVersion uri → ¬∃ payload, decodeQr X uri = .ok payload) ↔
        (CarriesOtherVersion uri → ValidButVersion X uri → LastVersionUnsupported uri) := by
  refine ⟨?_, ?_⟩
  · intro payload hversion hsecret hrelays hurls hsize
    exact decodeQr_encodeQr X hversion hsecret hrelays hurls hsize
  · intro uri
    rw [decodeQr_ok_iff, not_and, not_not]

namespace QrExample

/-- A parser that knows one relay. -/
def oneRelay : QrExternals :=
  ⟨fun relay =>
      if relay = "wss://relay.example.com" then .ok ⟨"wss", true⟩
      else .error "relative URL without a base",
    fun s => "\"" ++ s ++ "\""⟩

def payload : QrPayload :=
  ⟨1, HexId.ofNat 64 5, HexId.ofNat 64 171, ["wss://relay.example.com"]⟩

/-- The same with a version that is no number. -/
def wordQuery : List Char :=
  "secret=".toList ++ payload.sessionSecret.toChars ++
    "&relay=wss%3A%2F%2Frelay%2Eexample%2Ecom&v=two".toList

def wordVersion : String :=
  String.ofList ("nostrpair://".toList ++ payload.sourcePubkey.toChars ++ '?' :: wordQuery)

end QrExample

open QrExample

/-- A URI whose version is a word is read as version 1. -/
theorem word_version_accepted :
    ¬∀ (X : QrExternals) (uri : String), CarriesOtherVersion uri →
      ¬∃ payload, decodeQr X uri = .ok payload := by
  intro h
  have hother : CarriesOtherVersion wordVersion :=
    ⟨wordQuery, by decide +kernel, "two".toList, by decide +kernel, by decide +kernel⟩
  have haccepted : (decodeQr oneRelay wordVersion).toOption.isSome = true := by decide +kernel
  cases hdecode : decodeQr oneRelay wordVersion with
  | error e =>
    rw [hdecode] at haccepted
    cases haccepted
  | ok payload => exact h oneRelay wordVersion hother ⟨payload, hdecode⟩

/-- A payload with one relay survives the round trip. -/
theorem qr_round_trip_one : decodeQr oneRelay (encodeQr payload) = .ok payload := by
  apply (qr_round_trip_and_version oneRelay).1 payload
  · rfl
  · decide +kernel
  · decide
  · intro relay hrelay
    rw [List.mem_singleton.mp hrelay]
    exact ⟨⟨"wss", true⟩, rfl, .inl rfl, rfl⟩
  · decide +kernel

end Buzz.Pairing
