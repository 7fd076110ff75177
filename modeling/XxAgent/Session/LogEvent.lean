import XxAgent.Ecma.OrderedMap
import XxAgent.Session.Surface

/-!
# Typed session events

The discriminated union that the relational checks and the crash repair work on. An event carries
what they read and what the repair writes; content that neither looks at is left out. Event types
that a plugin merges into the vocabulary are `other`.
-/

namespace XxAgent

open Ecma

/-- Provider-issued call id. -/
abbrev CallId := JsString

/-- A block of assistant content. -/
inductive ContentBlock where
  /-- A tool invocation requested by the model. -/
  | toolCall (id : CallId)
  /-- Any other block. -/
  | other (type : JsString)
deriving DecidableEq

/-- The result of a tool invocation, sent back to the model. -/
structure ToolResultBlock where
  toolCallId : CallId
  content : List Json
  isError : Option Bool
deriving DecidableEq

/-- A tool-result message; its role is `user` and its source kind is `tool`. -/
structure ToolResultMessage where
  id : JsString
  /-- The call id of the source. -/
  callId : CallId
  /-- The one block of the content. -/
  block : ToolResultBlock
deriving DecidableEq

/-- Internal failure identity. -/
structure ToolError where
  name : JsString
  code : JsString
deriving DecidableEq

/-- Why a turn ended. -/
inductive TurnEndKind where
  /-- A persistence backend closed a crash-orphaned turn on reload. -/
  | interrupted
  /-- The loop ended the turn. -/
  | loop (kind : JsString)
deriving DecidableEq

/-- The payload of an event, by its type. -/
inductive EventData where
  | turnStart (turn : ℕ)
  | turnEnd (turn : ℕ) (reason : TurnEndKind)
  | stepStart (turn step : ℕ)
  | stepEnd (turn step : ℕ)
  | userMessage
  | assistantChunk (turn step : ℕ)
  | assistantMessage (turn step : ℕ) (content : List ContentBlock)
  | toolCall (turn step : ℕ) (callId : CallId)
  | toolResult (turn step : ℕ) (message : ToolResultMessage) (error : Option ToolError)
  | endSeed
  | todoWrite
  | requestHeader
  | requestContext
  | other (type : JsString)
deriving DecidableEq

/-- One immutable entry in the session log. -/
structure LogEvent where
  /-- Monotonic sequence number within the session. -/
  seq : ℕ
  /-- Unix epoch milliseconds. -/
  time : Number
  data : EventData
  sourceEventSeqs : Option (List ℕ) := none
  surfaceOp : Option SurfaceOp := none
deriving DecidableEq

/-- The ids of the tool calls that an event requests. -/
def LogEvent.requests (e : LogEvent) : List CallId :=
  match e.data with
  | .assistantMessage _ _ content => content.filterMap fun
    | .toolCall id => some id
    | .other _ => none
  | _ => []

/-- The call that a tool result is about. -/
def LogEvent.resultOf (e : LogEvent) : Option CallId :=
  match e.data with
  | .toolResult _ _ message _ => some message.callId
  | _ => none

end XxAgent
