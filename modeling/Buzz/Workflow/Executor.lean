import Buzz.Core.Nostr
import Buzz.Lib.CutAt
import Buzz.Lib.JsonParse
import Buzz.Lib.Table
import Buzz.Workflow.Schedule

namespace Buzz.Workflow
set_option autoImplicit true
open Json

/-- Data of the triggering event, passed to every step. -/
structure TriggerContext where
  text : String
  author : String
  channelId : String
  timestamp : String
  emoji : String
  messageId : String
  isReply : Bool
  webhookFields : Table String String

def TriggerContext.getField (ctx : TriggerContext) (name : String) : Option String :=
  match name with
  | "text" => some ctx.text
  | "author" => some ctx.author
  | "channel_id" => some ctx.channelId
  | "timestamp" => some ctx.timestamp
  | "emoji" => some ctx.emoji
  | "message_id" => some ctx.messageId
  | other => ctx.webhookFields.lookup other

/-- Public keys as the key library reads and writes them. -/
structure KeyFormat where
  fromHex : String → Option PublicKey
  toBech32 : PublicKey → Option String

abbrev StepOutputs (F : Type) : Type := Table String (Value F)

section Template
variable {F : Type} (keys : KeyFormat) (fmt : FloatFormat F)

def jsonToString : Value F → String
  | .string s => s
  | .bool true => "true"
  | .bool false => "false"
  | .number n => String.ofList (writeNumber fmt n)
  | .null => ""
  | other => String.ofList (write fmt other)

def jsonGetStr (value : Value F) (key : String) : Option String :=
  match value with
  | .object map => (map.lookup key).map (jsonToString fmt)
  | _ => none

/-- A path is `trigger.FIELD` or `steps.STEP_ID.output.FIELD`. -/
def resolveVariable (ctx : TriggerContext) (outputs : StepOutputs F) (path : String) :
    Option String :=
  match stripPrefix "trigger." path with
  | some field => ctx.getField field
  | none =>
    match stripPrefix "steps." path with
    | none => none
    | some rest =>
      match cutAt ['.'] rest.toList with
      | none => none
      | some (stepId, rest) =>
        match cutAt ['.'] rest with
        | none => none
        | some (middle, field) =>
          if middle ≠ "output".toList then none
          else
            match outputs.lookup (String.ofList stepId) with
            | none => none
            | some output => jsonGetStr fmt output (String.ofList field)

/-- What a filter makes of a value, or the text of the template error. -/
def applyFilter (value filter : String) : Except String String :=
  let filter := trim filter
  match (stripPrefix "truncate(" filter).bind (stripSuffix ')') with
  | some inner =>
    match Decimal.parse (2 ^ 64) (trim inner).toList with
    | none => .error ("truncate() requires a number, got: " ++ inner)
    | some n => .ok (String.ofList (value.toList.take n))
  | none =>
    if filter = "npub" ∨ filter = "truncate_pubkey" then
      match keys.fromHex value with
      | some pk => .ok ((keys.toBech32 pk).getD value)
      | none => .ok value
    else .error ("unknown filter: " ++ filter)

/-- The variable path of a placeholder and its filter, from what stands between its braces. -/
def pathAndFilter (expr : String) : String × Option String :=
  match cutAt ['|'] expr.toList with
  | none => (trim expr, none)
  | some (path, filter) => (trim (String.ofList path), some (trim (String.ofList filter)))

/-- The value of a placeholder. `none` is an unknown variable. -/
def placeholderValue (ctx : TriggerContext) (outputs : StepOutputs F) (expr : String) :
    Except String (Option String) :=
  match resolveVariable fmt ctx outputs (pathAndFilter expr).1, (pathAndFilter expr).2 with
  | some v, some f => (applyFilter keys v f).map some
  | some v, none => .ok (some v)
  | none, _ => .ok none

def OPEN : List Char := ['\x7b', '\x7b']
def CLOSE : List Char := ['\x7d', '\x7d']

/-- The text before the next placeholder, what stands between its braces, and the text after it. -/
inductive NextPlaceholder where
  | none
  /-- An opening without a close. -/
  | unclosed (before rest : List Char)
  | some (before inner rest : List Char)

def nextPlaceholder (remaining : List Char) : NextPlaceholder :=
  match cutAt OPEN remaining with
  | none => .none
  | some (before, rest) =>
    match cutAt CLOSE rest with
    | none => .unclosed before rest
    | some (inner, rest) => .some before inner rest

theorem length_nextPlaceholder {remaining before inner rest : List Char}
    (h : nextPlaceholder remaining = .some before inner rest) : rest.length < remaining.length := by
  rw [nextPlaceholder] at h
  split at h
  · cases h
  · rename_i hopen
    split at h
    · cases h
    · rename_i hclose
      cases h
      have hopen' := length_cutAt hopen
      have hclose' := length_cutAt hclose
      have hlength : OPEN.length = 2 := rfl
      omega

/-- The loop over the placeholders, for the values they have. -/
def resolveLoop (value : String → Except String (Option String))
    (remaining result : List Char) : Except String (List Char) :=
  match _h : nextPlaceholder remaining with
  | .none => .ok (result ++ remaining)
  -- emit it literally and stop
  | .unclosed before rest => .ok (result ++ before ++ OPEN ++ rest)
  | .some before inner rest =>
    match value (trim (String.ofList inner)) with
    | .error e => .error e
    | .ok none =>
      resolveLoop value rest
        (result ++ before ++ OPEN ++ (trim (String.ofList inner)).toList ++ CLOSE)
    | .ok (some v) => resolveLoop value rest (result ++ before ++ v.toList)
termination_by remaining.length
decreasing_by
  · exact length_nextPlaceholder _h
  · exact length_nextPlaceholder _h

def resolveTemplate (ctx : TriggerContext) (outputs : StepOutputs F) (template : String) :
    Except String String :=
  if (cutAt OPEN template.toList).isNone then .ok template
  else
    (resolveLoop (placeholderValue keys fmt ctx outputs) template.toList []).map String.ofList

end Template

end Buzz.Workflow
