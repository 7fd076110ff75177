import XxAgent.Session.Event

/-!
# The shape of message events

What a reader demands of the three events that carry an identified message, before it takes one over
from storage. Taking over freezes the event but does not change it.
-/

namespace XxAgent

open Ecma

/-- What is wrong with a message event. -/
inductive ShapeFault where
  | unidentified
  | role (expected : String)
  | source
  | content
  | modelSource
  | toolSource
  | toolResultBlock
  | toolCallIds
deriving DecidableEq

/-- The second half of the message, behind the subject. -/
def ShapeFault.message : ShapeFault → JsString
  | unidentified => js " lacks an identified message"
  | role expected => js " message must have role \"" ++ js expected ++ js "\""
  | source => js " message has invalid source"
  | content => js " message has invalid content"
  | modelSource => js " message must have model source"
  | toolSource => js " message must have tool source"
  | toolResultBlock => js " message must contain one tool-result block"
  | toolCallIds => js " message has mismatched tool call ids"

/-- `typeof value === 'string' && value !== ''`. -/
def isNonemptyString : Value → Bool
  | some (.str s) => !s.isEmpty
  | _ => false

/-- Whether a value carries the current provider/model pair. -/
def hasProviderModel (value : Value) : Bool :=
  value.isRecord && isNonemptyString (value.get "provider") && isNonemptyString (value.get "model")

/-- The events that carry a message. -/
def isMessageType (type : Value) : Bool :=
  decide (type = some (text "user/message") ∨ type = some (text "assistant/message") ∨
    type = some (text "tool/result"))

/-- The message of an event; only a user message is the payload itself. -/
def messageOf (event : Json) : Value :=
  if event.get? "type" = some (text "user/message") then event.get? "data"
  else Value.get "message" (event.get? "data")

/-- The part of the check that a tool result adds. -/
def checkToolResult (message source : Value) : Except ShapeFault Unit :=
  if ¬ (source.get "kind" = some (text "tool") ∧ isNonemptyString (source.get "callId") = true) then
    .error .toolSource
  else
    match (message.get "content").toList with
    | [block] =>
      if Value.isRecord block = false ∨ block.get? "type" ≠ some (text "tool-result") ∨
          Value.isArray (block.get? "content") = false then .error .toolResultBlock
      else if block.get? "toolCallId" ≠ source.get "callId" then .error .toolCallIds
      else .ok ()
    | _ => .error .toolResultBlock

/-- Validate the event-specific invariants needed to replay a message. -/
def assertMessageEventShape (event : Json) : Except ShapeFault Unit :=
  let type := event.get? "type"
  let message := messageOf event
  let source := message.get "source"
  let expectedRole := if type = some (text "assistant/message") then "assistant" else "user"
  if isMessageType type = false then .ok ()
  else if message.isRecord = false ∨ isNonemptyString (message.get "id") = false then
    .error .unidentified
  else if message.get "role" ≠ some (text expectedRole) then .error (.role expectedRole)
  else if source.isRecord = false ∨ isNonemptyString (source.get "kind") = false then .error .source
  else if (message.get "content").isArray = false then .error .content
  else if type = some (text "assistant/message") then
    if source.get "kind" ≠ some (text "model") ∨ hasProviderModel source = false then
      .error .modelSource
    else .ok ()
  else if type = some (text "tool/result") then checkToolResult message source
  else .ok ()

/-- Detach one event; its message is validated and the event is unchanged. -/
def snapshotSessionEvent (event : Json) : Except ShapeFault Json :=
  match assertMessageEventShape event with
  | .error fault => .error fault
  | .ok () => .ok event

end XxAgent
