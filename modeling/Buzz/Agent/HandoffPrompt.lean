import Buzz.Agent.Turn
import Buzz.Lib.Fill

namespace Buzz.Agent
set_option autoImplicit true

def handoffMaxOutputTokens : Nat := 8192
def handoffOriginalTaskMaxBytes : Nat := 16 * 1024
def handoffMaxToolNames : Nat := 20
def conservativeBytesPerToken : Nat := 1

inductive Provider where
  | anthropic
  | openAi
  | databricks
  | databricksV2
  | openRouter

/-- OpenRouter grants reasoning a budget of its own. -/
def summaryCompletionCap : Provider → Nat → Nat
  | .openRouter, maxOutputTokens => min (2 * maxOutputTokens) (2 ^ 32 - 1)
  | _, maxOutputTokens => maxOutputTokens

def handoffPromptBudgetBytes (maxContextTokens maxOutputTokens fixedPromptBytes : Nat) : Nat :=
  min ((maxContextTokens - maxOutputTokens) * conservativeBytesPerToken) (2 ^ 64 - 1) -
    fixedPromptBytes

/-- The characters at the front that fit, up to the first that does not. -/
def takeBytes : Nat → List Char → List Char
  | _, [] => []
  | maxBytes, c :: cs =>
    if c.utf8Size ≤ maxBytes then c :: takeBytes (maxBytes - c.utf8Size) cs else []

def clampBytes (s : String) (maxBytes : Nat) : String :=
  if s.utf8ByteSize ≤ maxBytes then s
  else if maxBytes < 4 then String.ofList (takeBytes maxBytes s.toList)
  else String.ofList (takeBytes (maxBytes - "…".utf8ByteSize) s.toList) ++ "…"

def ToolResultContent.asTextLossy : ToolResultContent → String
  | text s => s
  | image data mimeType =>
    "[image: " ++ mimeType ++ ", " ++ String.ofList (Json.printNat data.utf8ByteSize) ++
      " base64 bytes]"

def ToolResult.text (r : ToolResult) : String :=
  "\n".intercalate (r.content.map ToolResultContent.asTextLossy)

def historySnippet : HistoryItem → String
  | .user s => "[user] " ++ s ++ "\n"
  | .assistant text toolCalls _ =>
    "[assistant] " ++ text ++ String.join (toolCalls.map fun c => " tool:" ++ c.name) ++ "\n"
  | .toolResult r => (if r.isError then "[tool_err] " else "[tool] ") ++ r.text ++ "\n"

def handoffHead (handoffCount : Nat) (originalTask : Option String) (tools : List String) :
    String :=
  "[Internal handoff #" ++ String.ofList (Json.printNat (handoffCount + 1)) ++
    " — context reset]\n\n" ++ "# Original Task\n" ++
    clampBytes (originalTask.getD "(unknown)") handoffOriginalTaskMaxBytes ++
    "\n\n# Available Tools\n" ++
    if tools.isEmpty then "(none)\n"
    else
      let shown := min tools.length handoffMaxToolNames
      ", ".intercalate (tools.take shown) ++
        (if shown < tools.length then
          ", … (+" ++ String.ofList (Json.printNat (tools.length - shown)) ++ " more)"
        else "") ++ "\n"

def historyHeader : String := "\n# Session History (oldest first)\n"

def handoffTail : String :=
  "\n# Instructions\nProduce a context handoff summary covering: (1) original task, " ++
  "(2) what was accomplished, (3) key decisions, (4) what remains, " ++
  "(5) one concrete next step. Be concise but thorough. Plain text.\n"

/-- The snippets of the history that are taken so far, the newest first. -/
structure Snippets where
  snippets : List String
  bytes : Nat
  dropped : Nat

/-- The newest snippet is cut to the budget where it does not fit. Any other one is left out. -/
def pushSnippet (budget : Nat) (s : Snippets) (snippet : String) : Snippets :=
  if budget < s.bytes + snippet.utf8ByteSize then
    if s.snippets.isEmpty then ⟨[clampBytes snippet budget], budget, s.dropped + 1⟩
    else { s with dropped := s.dropped + 1 }
  else ⟨s.snippets ++ [snippet], s.bytes + snippet.utf8ByteSize, s.dropped⟩

def historySnippets (budget : Nat) (history : List HistoryItem) : Snippets :=
  (history.reverse.map historySnippet).foldl (pushSnippet budget) ⟨[], 0, 0⟩

def omittedNote (dropped : Nat) : String :=
  "(… " ++ String.ofList (Json.printNat dropped) ++ " older items omitted)\n"

/-- What a handoff prompt is apart from the history. -/
def fixedBytes (head : String) : Nat :=
  head.utf8ByteSize + historyHeader.utf8ByteSize + handoffTail.utf8ByteSize

def promptBudget (cfg : Config) (provider : Provider) (fixedBytes : Nat) : Option Nat → Nat
  | some explicit => explicit - fixedBytes
  | none =>
    handoffPromptBudgetBytes cfg.maxContextTokens
      (summaryCompletionCap provider handoffMaxOutputTokens) fixedBytes

def promptText (head : String) (s : Snippets) : String :=
  head ++ historyHeader ++ (if 0 < s.dropped then omittedNote s.dropped else "") ++
    String.join s.snippets.reverse ++ handoffTail

/-- The prompt of the summarizer. `historyBudgetBytes` is the allowance for all of it. -/
def buildHandoffPrompt (cfg : Config) (provider : Provider) (tools : List String)
    (historyBudgetBytes : Option Nat) (t : Turn) : String :=
  let head := handoffHead t.handoffCount t.originalTask tools
  let budget := promptBudget cfg provider (fixedBytes head) historyBudgetBytes
  promptText head (historySnippets budget t.history)

end Buzz.Agent
