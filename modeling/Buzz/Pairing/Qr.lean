import Buzz.Lib.Decimal
import Buzz.Lib.Json
import Buzz.Lib.Percent
import Buzz.Lib.Utf8
import Buzz.Pairing.Session

namespace Buzz.Pairing
set_option autoImplicit true
open Percent

structure ParsedUrl where
  scheme : String
  hasHost : Bool

/-- The parser of URLs, and the text of a string in an error message. -/
structure QrExternals where
  parseUrl : String → Except String ParsedUrl
  debug : String → String

def MAX_URI_LENGTH : Nat := 2048

def encodeQr (payload : QrPayload) : String :=
  String.ofList ("nostrpair://".toList ++ payload.sourcePubkey.toChars ++ "?secret=".toList ++
    payload.sessionSecret.toChars ++
    payload.relays.flatMap (fun relay => "&relay=".toList ++ utf8PercentEncode relay) ++
    "&v=1".toList)

def splitOnce (c : Char) (cs : List Char) : Option (List Char × List Char) :=
  if c ∈ cs then some (cs.takeWhile (· != c), (cs.dropWhile (· != c)).tail) else none

def isLowercaseHex (c : Char) : Bool :=
  c.isDigit || ('a' ≤ c && c ≤ 'f')

def parseU32 (value : List Char) : Option UInt32 :=
  (Decimal.parse (2 ^ 32) value).map UInt32.ofNat

structure QrParams where
  secretHex : Option (List Char)
  relays : List String
  version : Option UInt32

def QrParams.add (params : QrParams) (pair : List Char) : QrParams :=
  match splitOnce '=' pair with
  | none => params
  | some (key, value) =>
    if key = "secret".toList then { params with secretHex := some value }
    else if key = "relay".toList then
      { params with relays := params.relays ++ [percentDecodeStr value] }
    else if key = "v".toList then { params with version := parseU32 value }
    else params

def parseQuery (query : List Char) : QrParams :=
  (query.splitOn '&').foldl QrParams.add ⟨none, [], none⟩

section Decode
variable (X : QrExternals)

def splitUri (uri : String) : Except String (PublicKey × QrParams) :=
  if MAX_URI_LENGTH < uri.utf8ByteSize then
    .error ("URI exceeds 2048-character limit (" ++ toString uri.utf8ByteSize ++ " chars)")
  else
    match uri.toList.dropPrefix? "nostrpair://".toList with
    | none => .error "URI must start with nostrpair://"
    | some rest =>
      match splitOnce '?' rest with
      | none => .error "missing query string (expected ?secret=…&relay=…)"
      | some (pubkeyHex, query) =>
        if textSize pubkeyHex ≠ 64 ∨ !pubkeyHex.all isLowercaseHex then
          .error ("pubkey must be 64 lowercase hex chars, got " ++
            X.debug (String.ofList pubkeyHex))
        else
          match HexId.ofChars 64 pubkeyHex with
          | none => .error "invalid pubkey"
          | some sourcePubkey => .ok (sourcePubkey, parseQuery query)

def checkVersion (version : Option UInt32) : Except String UInt32 :=
  if version.getD 1 ≠ 1 then
    .error ("unsupported protocol version " ++ toString (version.getD 1) ++ ", expected 1")
  else .ok (version.getD 1)

def checkSecret (secretHex : Option (List Char)) : Except String (HexId 64) :=
  match secretHex with
  | none => .error "missing 'secret' query parameter"
  | some secret =>
    if textSize secret ≠ 64 ∨ !secret.all isLowercaseHex then
      .error ("secret must be 64 lowercase hex chars, got " ++ X.debug (String.ofList secret))
    else
      match HexId.ofChars 64 secret with
      | none => .error "invalid secret hex"
      | some sessionSecret =>
        if sessionSecret = HexId.ofNat 64 0 then .error "session_secret must not be all zeros"
        else .ok sessionSecret

def checkRelays : List String → Except String Unit
  | [] => .ok ()
  | relay :: relays =>
    match X.parseUrl relay with
    | .error e => .error ("invalid relay URL " ++ X.debug relay ++ ": " ++ e)
    | .ok parsed =>
      if parsed.scheme ≠ "wss" ∧ parsed.scheme ≠ "ws" then
        .error ("relay URL must use wss:// or ws:// scheme, got " ++ X.debug parsed.scheme)
      else if !parsed.hasHost then .error ("relay URL has no host: " ++ X.debug relay)
      else checkRelays relays

def decodeQr (uri : String) : Except String QrPayload := do
  let (sourcePubkey, params) ← splitUri X uri
  let version ← checkVersion params.version
  let sessionSecret ← checkSecret X params.secretHex
  if params.relays = [] then .error "at least one 'relay' query parameter is required"
  else do
    checkRelays X params.relays
    .ok ⟨version, sourcePubkey, sessionSecret, params.relays⟩

/-- The relay is a WebSocket URL with a host. -/
def IsRelayUrl (relay : String) : Prop :=
  ∃ parsed, X.parseUrl relay = .ok parsed ∧ (parsed.scheme = "wss" ∨ parsed.scheme = "ws") ∧
    parsed.hasHost = true

theorem checkRelays_ok_iff (relays : List String) :
    checkRelays X relays = .ok () ↔ ∀ relay ∈ relays, IsRelayUrl X relay := by
  induction relays with
  | nil => exact ⟨fun _ => nofun, fun _ => rfl⟩
  | cons relay relays ih =>
    rw [List.forall_mem_cons, ← ih, checkRelays, IsRelayUrl]
    cases X.parseUrl relay with
    | error e => simp
    | ok parsed =>
      dsimp only
      by_cases hwss : parsed.scheme = "wss"
      · cases hhost : parsed.hasHost <;> simp [hwss, hhost]
      · by_cases hws : parsed.scheme = "ws"
        · cases hhost : parsed.hasHost <;> simp [hws, hhost]
        · simp [hwss, hws]

theorem decodeQr_eq_ok {uri : String} {payload : QrPayload} :
    decodeQr X uri = .ok payload ↔ ∃ sourcePubkey params version sessionSecret,
      splitUri X uri = .ok (sourcePubkey, params) ∧ checkVersion params.version = .ok version ∧
      checkSecret X params.secretHex = .ok sessionSecret ∧ params.relays ≠ [] ∧
      checkRelays X params.relays = .ok () ∧
      payload = ⟨version, sourcePubkey, sessionSecret, params.relays⟩ := by
  constructor
  · intro h
    obtain ⟨⟨sourcePubkey, params⟩, hsplit, h⟩ := ok_of_bind h
    obtain ⟨version, hversion, h⟩ := ok_of_bind h
    obtain ⟨sessionSecret, hsecret, h⟩ := ok_of_bind h
    split at h
    · cases h
    · rename_i hrelays
      obtain ⟨_, hurls, h⟩ := ok_of_bind h
      cases h
      exact ⟨sourcePubkey, params, version, sessionSecret, hsplit, hversion, hsecret, hrelays,
        hurls, rfl⟩
  · rintro ⟨sourcePubkey, params, version, sessionSecret, hsplit, hversion, hsecret, hrelays,
      hurls, rfl⟩
    simp only [decodeQr, hsplit, hversion, hsecret, hurls, if_neg hrelays, bind, Except.bind]

end Decode

end Buzz.Pairing
