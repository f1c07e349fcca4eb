import Buzz.Git.Store
import Buzz.Lib.JsonValue

namespace Buzz.Agent
set_option autoImplicit true

abbrev Value := Json.Value Json.FloatText

/-- The bytes of a value's compact text. -/
def valueBytes (v : Value) : Nat :=
  textSize (Json.write Json.floatText v)

inductive ToolResultContent where
  | text (s : String)
  | image (data mimeType : String)

def imageContextTokenEquiv : Nat := 16 * 1024

namespace ToolResultContent

/-- What the content takes on the wire. -/
def estimatedBytes : ToolResultContent → Nat
  | text s => s.utf8ByteSize
  | image data mimeType => data.utf8ByteSize + mimeType.utf8ByteSize

/-- What the content takes of the context window: an image is charged a flat budget. -/
def contextPressureBytes : ToolResultContent → Nat
  | text s => s.utf8ByteSize
  | image _ mimeType => imageContextTokenEquiv + mimeType.utf8ByteSize

def isImage : ToolResultContent → Bool
  | text _ => false
  | image _ _ => true

end ToolResultContent

structure ToolCall where
  providerId : String
  name : String
  arguments : Value
  providerExtra : List (String × Value)

structure ToolResult where
  providerId : String
  content : List ToolResultContent
  isError : Bool

inductive HistoryItem where
  | user (text : String)
  | assistant (text : String) (toolCalls : List ToolCall) (reasoningDetails : Option Value)
  | toolResult (result : ToolResult)

namespace HistoryItem

def isUser : HistoryItem → Bool
  | user _ => true
  | _ => false

def sizeWith (contentSize : ToolResultContent → Nat) : HistoryItem → Nat
  | user s => s.utf8ByteSize
  | assistant text toolCalls reasoningDetails =>
    text.utf8ByteSize +
      (toolCalls.map fun c => c.providerId.utf8ByteSize + c.name.utf8ByteSize +
        valueBytes c.arguments + valueBytes (.object c.providerExtra)).sum +
      reasoningDetails.elim 0 valueBytes
  | toolResult r => r.providerId.utf8ByteSize + (r.content.map contentSize).sum

def estimatedBytes : HistoryItem → Nat :=
  sizeWith ToolResultContent.estimatedBytes

def contextPressureBytes : HistoryItem → Nat :=
  sizeWith ToolResultContent.contextPressureBytes

end HistoryItem

def estimatedBytes (history : List HistoryItem) : Nat :=
  (history.map HistoryItem.estimatedBytes).sum

def contextPressureBytes (history : List HistoryItem) : Nat :=
  (history.map HistoryItem.contextPressureBytes).sum

inductive ContentBlock where
  | text (text : String)
  | resourceLink (uri : String)
  | unsupported

inductive AgentError where
  | invalidParams (text : String)
  | llm (text : String)
  | llmAuth (text : String)
  | llmModelNotFound (text : String)
  | llmContextExceeded (text : String)
  | unsupportedImageInput (text : String)
  | mcp (text : String)
  | cancelled
deriving DecidableEq

inductive ProviderStop where
  | endTurn
  | toolUse
  | maxTokens
  | refusal
  | other
deriving DecidableEq

inductive StopReason where
  | endTurn
  | cancelled
  | maxTokens
  | maxTurnRequests
  | refusal
deriving DecidableEq

def mapStop : ProviderStop → StopReason
  | .endTurn | .toolUse | .other => .endTurn
  | .maxTokens => .maxTokens
  | .refusal => .refusal

structure PricingIdentity where
  authority : String
  model : String
  cacheClass : Option String
deriving DecidableEq

structure LlmResponse where
  text : String
  toolCalls : List ToolCall
  stop : ProviderStop
  inputTokens : Option UInt64
  inputTokensOverflowed : Bool
  cachedInputTokens : Option UInt64
  cacheWriteTokens : Option UInt64
  outputTokens : Option UInt64
  totalTokens : Option UInt64
  reasoningDetails : Option Value
  requestModel : Option String

/-- A count that starts unseen and is lost for good when it cannot be told any more. -/
inductive Tally where
  | unseen
  | exact (n : UInt64)
  | unknown
deriving DecidableEq

namespace Tally

def checkedExactSum (acc n : UInt64) : Tally :=
  if acc.toNat + n.toNat < UInt64.size then exact (acc + n) else unknown

def add (n : UInt64) : Tally → Tally
  | unknown => unknown
  | unseen => exact n
  | exact acc => checkedExactSum acc n

/-- The count after a response, where a response without one loses it. -/
def fold (value : Option UInt64) (t : Tally) : Tally :=
  match value with
  | none => unknown
  | some n => t.add n

def mergeSession : Tally → Tally → Tally
  | unknown, _ => unknown
  | _, unknown => unknown
  | acc, unseen => acc
  | unseen, exact n => exact n
  | exact acc, exact n => checkedExactSum acc n

def exactValue : Tally → Option UInt64
  | exact n => some n
  | _ => none

end Tally

abbrev TurnIOState := Tally
abbrev CacheTotalState := Tally
abbrev TurnTotalState := Tally

def TurnIOState.foldRound (t : TurnIOState) (n : UInt64) : TurnIOState :=
  t.add n

/-- The counters of a session, or of one turn. -/
structure SessionUsageBaseline where
  inputTokens : TurnIOState
  outputTokens : TurnIOState
  cachedInputTokens : CacheTotalState
  cacheWriteTokens : CacheTotalState
  totalState : TurnTotalState
deriving DecidableEq

namespace SessionUsageBaseline

def unseen : SessionUsageBaseline :=
  ⟨.unseen, .unseen, .unseen, .unseen, .unseen⟩

def mergeSession (acc turn : SessionUsageBaseline) : SessionUsageBaseline where
  inputTokens := acc.inputTokens.mergeSession turn.inputTokens
  outputTokens := acc.outputTokens.mergeSession turn.outputTokens
  cachedInputTokens := acc.cachedInputTokens.mergeSession turn.cachedInputTokens
  cacheWriteTokens := acc.cacheWriteTokens.mergeSession turn.cacheWriteTokens
  totalState := acc.totalState.mergeSession turn.totalState

end SessionUsageBaseline

/-- A `usage_update`, with the counts of the session so far. -/
structure UsageUpdate where
  used : UInt64
  accumulatedInputTokens : Option UInt64
  accumulatedOutputTokens : Option UInt64
  accumulatedCachedInputTokens : Option UInt64
  accumulatedCacheWriteTokens : Option UInt64
  accumulatedTotalTokens : Option UInt64
  model : String
  pricingIdentity : Option PricingIdentity
deriving DecidableEq

def usageUpdatePayload (usage : SessionUsageBaseline) (model : String)
    (pricingIdentity : Option PricingIdentity) : UsageUpdate :=
  let input := usage.inputTokens.exactValue
  let output := usage.outputTokens.exactValue
  let used := (input.getD 0).toNat + (output.getD 0).toNat
  { used := UInt64.ofNat (min used (UInt64.size - 1))
    accumulatedInputTokens := input
    accumulatedOutputTokens := output
    accumulatedCachedInputTokens := usage.cachedInputTokens.exactValue
    accumulatedCacheWriteTokens := usage.cacheWriteTokens.exactValue
    accumulatedTotalTokens := usage.totalState.exactValue
    model, pricingIdentity }

/-- Fold one round's identity into that of the turn: `some none` stays. -/
def foldPricingIdentity (acc : Option (Option PricingIdentity)) (round : Option PricingIdentity) :
    Option (Option PricingIdentity) :=
  match acc with
  | none => some round
  | some (some existing) => if some existing = round then some round else some none
  | some none => some none

def promptToText (prompt : List ContentBlock) : Except AgentError String := do
  let parts ← prompt.mapM fun block =>
    match block with
    | .text text => .ok text
    | .resourceLink uri => .ok ("[resource: " ++ uri ++ "]")
    | .unsupported => .error (.invalidParams
        "prompt: unsupported content block (only text and resource_link are advertised)")
  return "\n".intercalate parts

def isBlank (s : String) : Bool :=
  s.toList.all isWhitespace

/-- The steers that are put into the history: those that render to a text that is not blank. -/
def steerText (blocks : List ContentBlock) : Option String :=
  match promptToText blocks with
  | .ok text => if isBlank text then none else some text
  | .error _ => none

end Buzz.Agent
