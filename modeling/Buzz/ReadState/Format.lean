import Buzz.Core.Nostr
import Buzz.Lib.Join

namespace Buzz.ReadState
set_option autoImplicit true

def READ_STATE_D_TAG_PREFIX : String := "read-state:"

def MAX_CONTEXTS : Nat := 10000

/-- What `JSON.parse` gives for a number. -/
inductive JsNumber where
  | finite (q : ℚ)
  | infinity (negative : Bool)

/-- What `JSON.parse` gives. The keys of an object are distinct. -/
inductive JsValue where
  | null
  | bool (b : Bool)
  | number (n : JsNumber)
  | string (s : String)
  | array (items : List JsValue)
  | object (members : List (String × JsValue))

namespace JsValue

/-- A property that an object has of its own. -/
def get (key : String) : List (String × JsValue) → Option JsValue
  | [] => none
  | (k, v) :: members => if k = key then some v else get key members

def asString : JsValue → Option String
  | .string s => some s
  | _ => none

/-- `isPlainRecord`. -/
def asRecord : JsValue → Option (List (String × JsValue))
  | .object members => some members
  | _ => none

/-- `typeof value === "number" && Number.isInteger(value)`. -/
def asInteger : JsValue → Option Int
  | .number (.finite q) => if q.den = 1 then some q.num else none
  | _ => none

end JsValue

/-- The length of a string, in code units of UTF-16. -/
def utf16Length (s : String) : Nat :=
  (s.toList.map fun c => if c.toNat < 65536 then 1 else 2).sum

structure ReadStateBlob where
  clientId : String
  contexts : List (String × ℚ)

structure RelayEvent where
  id : EventId
  pubkey : PublicKey
  createdAt : Nat
  tags : List (List String)
  content : String
deriving DecidableEq

structure ParsedReadStateEvent where
  dTag : String
  blob : ReadStateBlob
  createdAt : Nat

/-- What is left of the contexts of a blob. `__proto__` names no property of a record. -/
def sanitizeContexts (contexts : List (String × JsValue)) : List (String × ℚ) :=
  contexts.filterMap fun (key, value) =>
    if 256 < key.utf8ByteSize || key = "__proto__" then none
    else value.asInteger.bind fun n => if n < 0 || 4294967295 < n then none else some (key, (n : ℚ))

/-- The parts of a blob that `isValidBlob` lets through. -/
def validBlob (value : JsValue) : Option (String × List (String × JsValue)) :=
  value.asRecord.bind fun record =>
    if (JsValue.get "v" record).bind JsValue.asInteger ≠ some 1 then none
    else ((JsValue.get "client_id" record).bind JsValue.asString).bind fun clientId =>
      if utf16Length clientId = 0 || 64 < utf16Length clientId then none
      else ((JsValue.get "contexts" record).bind JsValue.asRecord).bind fun contexts =>
        if MAX_CONTEXTS < contexts.length then none else some (clientId, contexts)

def isValidReadStateDTag (value : String) : Bool :=
  READ_STATE_D_TAG_PREFIX.toList.isPrefixOf value.toList &&
    (let slotId := value.toList.drop READ_STATE_D_TAG_PREFIX.length
    0 < slotId.length && slotId.length ≤ 64 && slotId.all fun c => c.toNat ≤ 127)

/-- The only `d` tag, if it has a value that is a slot. -/
def slotTag (tags : List (List String)) : Option String :=
  match tags.filter fun tag => tag.head? = some "d" with
  | [tag] => (tag[1]?).filter isValidReadStateDTag
  | _ => none

/-- `decrypt` stands for `nip44DecryptFromSelf` and `JSON.parse`, with `none` where one throws. -/
def parseReadStateEvent (decrypt : String → Option JsValue) (pubkey : PublicKey)
    (event : RelayEvent) : Option ParsedReadStateEvent :=
  if event.pubkey ≠ pubkey then none
  else (slotTag event.tags).bind fun dTag =>
    if (event.tags.filter fun tag => tag.take 2 = ["t", "read-state"]).length ≠ 1 then none
    else (decrypt event.content).bind fun value =>
      (validBlob value).map fun (clientId, contexts) =>
        ⟨dTag, ⟨clientId, sanitizeContexts contexts⟩, event.createdAt⟩

/-- The contexts of an event that is a valid read state, and nothing for any other. -/
def contextsOf (decrypt : String → Option JsValue) (pubkey : PublicKey) (event : RelayEvent) :
    List (String × ℚ) :=
  match parseReadStateEvent decrypt pubkey event with
  | some parsed => parsed.blob.contexts
  | none => []

end Buzz.ReadState
