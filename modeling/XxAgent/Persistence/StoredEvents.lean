import XxAgent.Session.MessageShape

/-!
# Upgrading stored events

Logs outlive the shapes of their events. A reader upgrades the retired shapes it still knows and
refuses the ones it does not, event by event; only a tool result that replaces an earlier one needs
to know something about the log before it, the message id of the event it replaces.
-/

namespace XxAgent

open Ecma

/-- Why stored events cannot be read. -/
inductive StoredEventError where
  /-- A `request/header-delta` event. -/
  | headerDelta (id : JsString) (seq : Value)
  /-- A `mode/set` event. -/
  | modeSet (id : JsString) (seq : Value)
  /-- A `request/header` event whose reason is `fallback`. -/
  | fallback (id : JsString) (seq : Value)
  /-- A retired event that is not what it was. -/
  | malformed (id : JsString) (type : String) (seq : Value)
  /-- A message event of the wrong shape. -/
  | shape (seq : Value) (fault : ShapeFault)
  /-- `TypeError`: a property of `null` or `undefined` was read. -/
  | noRecord
deriving DecidableEq

/-- The message of an error. -/
def StoredEventError.message : StoredEventError → JsString
  | headerDelta id seq => js "session \"" ++ id ++
      js "\" contains unsupported legacy request/header-delta event at seq " ++ display seq
  | modeSet id seq => js "session \"" ++ id ++
      js "\" contains unsupported legacy mode/set event at seq " ++ display seq
  | fallback id seq => js "session \"" ++ id ++
      js "\" contains unsupported legacy request/header reason \"fallback\" at seq " ++ display seq
  | malformed id type seq => js "session \"" ++ id ++ js "\" contains malformed pre-react-loop " ++
      js type ++ js " at seq " ++ display seq
  | shape seq fault => js "session event at seq " ++ display seq ++ fault.message
  | noRecord => js "Cannot read properties"

/-- `event.type === type`. -/
def hasType (type : String) (event : Json) : Bool := decide (event.get? "type" = some (text type))

/-- Whether an event is a request header with the reason `fallback`. -/
def isFallbackHeader (event : Json) : Except StoredEventError Bool :=
  if hasType "request/header" event then
    match event.get? "data" with
    | none => .error .noRecord
    | some .null => .error .noRecord
    | some data => .ok (decide (data.get? "reason" = some (text "fallback")))
  else .ok false

/-- `events.find(...)` for fallback headers. -/
def findFallback : List Json → Except StoredEventError (Option Json)
  | [] => .ok none
  | event :: rest =>
    match isFallbackHeader event with
    | .error e => .error e
    | .ok true => .ok (some event)
    | .ok false => findFallback rest

/-- Reject events from an obsolete vocabulary that this build cannot replay. -/
def assertSupportedEvents (events : List Json) (id : JsString) : Except StoredEventError Unit :=
  match events.find? (hasType "request/header-delta") with
  | some legacy => .error (.headerDelta id (legacy.get? "seq"))
  | none =>
    match events.find? (hasType "mode/set") with
    | some legacyMode => .error (.modeSet id (legacyMode.get? "seq"))
    | none =>
      match findFallback events with
      | .error e => .error e
      | .ok (some fallback) => .error (.fallback id (fallback.get? "seq"))
      | .ok none => .ok ()

/-! ## Records -/

/-- The properties of an object record; an array is none. -/
def asRecord : Value → Option Fields
  | some (.obj fs) => some fs
  | _ => none

/-- Every required key, and no key outside the required and optional ones. -/
def hasOnlyKeys (fs : Fields) (required : List String) (optional : List String) : Bool :=
  ((keys fs).all fun k ↦ ((required ++ optional).map js).contains k) &&
    required.all fun k ↦ (fieldOf (js k) fs).isSome

/-- `Object.hasOwn(record, k)`. -/
def hasField (k : String) (fs : Fields) : Bool := (fieldOf (js k) fs).isSome

/-- `{ ...event, ...changes }`; a stored event is an object. -/
def withFields (event : Json) (changes : Fields) : Json :=
  match event with
  | .obj fs => .obj (setFields fs changes)
  | x => x

/-- The properties that are not named: the rest of a destructuring. -/
def omitFields (names : List String) (fs : Fields) : Fields :=
  fs.filter fun p ↦ !(names.map js).contains p.1

/-! ## Retired events -/

/-- The identity of a message stored before messages had one. -/
def legacyMessageId (id : JsString) (seq : Value) : JsString :=
  js "legacy-message:" ++ id ++ js ":" ++ display seq

/-- The replacement target of an event. -/
def replacementStart (event : Json) : Option Number :=
  match asRecord (event.get? "surfaceOp") with
  | none => none
  | some op =>
    if fieldOf (js "op") op = some (text "replace") then
      match fieldOf (js "start") op with
      | some (.num start) => some start
      | _ => none
    else none

/-- Whether an event needs facts available only from the preceding stored prefix. -/
def needsLegacyPrefix (event : Json) : Bool :=
  if hasType "steering/message" event then true
  else
    match asRecord (event.get? "data") with
    | none => false
    | some data =>
      if hasType "user/message" event then !hasField "id" data && hasField "content" data
      else if hasType "assistant/message" event then
        !hasField "message" data && hasField "content" data
      else if hasType "tool/result" event then !hasField "message" data && hasField "callId" data
      else false

/-- Upgrade the removed steering event into a user message. -/
def migrateLegacySteeringEvent (event : Json) (id : JsString) : Except StoredEventError Json :=
  let malformed := StoredEventError.malformed id "steering/message" (event.get? "seq")
  if hasType "steering/message" event = false then .ok event
  else
    match asRecord (event.get? "data") with
    | none => .error malformed
    | some data =>
      let wrapped := asRecord (fieldOf (js "message") data)
      let turn : Value := fieldOf (js "turn") data
      if wrapped.isSome ∧ turn.isSafeInteger = true ∧
          hasOnlyKeys data ["turn", "message"] [] = true then
        .ok (withFields event [prop "type" (text "user/message"),
          prop "data" (.obj (wrapped.getD []))])
      else if turn.isSafeInteger = false ∨
          hasOnlyKeys data ["turn", "content", "source"] [] = false then .error malformed
      else
        .ok (withFields event [prop "type" (text "user/message"),
          prop "data" (.obj (setFields (omitFields ["turn"] data) [
            prop "id" (.str (legacyMessageId id (event.get? "seq"))),
            prop "role" (text "user")]))])

/-- `Number.isSafeInteger(value) && value >= least`. -/
def isSafeIntegerFrom (least : ℤ) (value : Value) : Bool :=
  value.isSafeInteger && decide (least ≤ value.toInt)

/-- Remove the obsolete trigger of a turn start. -/
def migrateLegacyTurnStartEvent (event : Json) (id : JsString) : Except StoredEventError Json :=
  if hasType "turn/start" event = false then .ok event
  else
    match asRecord (event.get? "data") with
    | none => .ok event
    | some data =>
      if hasField "trigger" data = false then .ok event
      else
        let trigger := asRecord (fieldOf (js "trigger") data)
        if isSafeIntegerFrom 1 (fieldOf (js "turn") data) = false ∨
            hasOnlyKeys data ["turn", "trigger"] [] = false ∨ trigger = none ∨
            isNonemptyString (fieldOf (js "kind") (trigger.getD [])) = false then
          .error (.malformed id "turn/start" (event.get? "seq"))
        else
          .ok (withFields event [prop "data" (.obj (definedFields [
            ("turn", fieldOf (js "turn") data)]))])

/-- `value === undefined || typeof value === 'number'`. -/
def isOptionalNumber (value : Value) : Bool := value.isNone || value.isNumber

/-- `value === undefined || typeof value === 'string'`. -/
def isOptionalString (value : Value) : Bool := value.isNone || value.isString

/-- The failure of an obsolete error ending, if it is one of the latest shape. -/
def legacyFailure (reason : Fields) : Option Json :=
  match asRecord (fieldOf (js "failure") reason) with
  | none => none
  | some failure =>
    if hasOnlyKeys reason ["kind", "step", "failure"] [] &&
        hasOnlyKeys failure ["message", "code"] ["status", "providerRetryAfterMs", "requestId"] &&
        Value.isString (fieldOf (js "message") failure) &&
        Value.isString (fieldOf (js "code") failure) &&
        isOptionalNumber (fieldOf (js "status") failure) &&
        isOptionalNumber (fieldOf (js "providerRetryAfterMs") failure) &&
        isOptionalString (fieldOf (js "requestId") failure) then
      some (.obj failure)
    else none

/-- The current reason of an obsolete error ending; `none` when it is malformed. -/
def legacyErrorReason (reason : Fields) : Option Json :=
  let code : Value := fieldOf (js "code") reason
  let message : Value := fieldOf (js "message") reason
  let messageKeys :=
    if code = none then ["kind", "step", "message"] else ["kind", "step", "message", "code"]
  if isSafeIntegerFrom 0 (fieldOf (js "step") reason) = false then none
  else
    match legacyFailure reason with
    | some failure => some (.obj [prop "kind" (text "error"), prop "error" failure])
    | none =>
      if hasOnlyKeys reason messageKeys [] = false ∨ message.isString = false ∨
          isOptionalString code = false then none
      else
        some (.obj [prop "kind" (text "error"), prop "error" (.obj [
          prop "message" message.toJson,
          prop "code" (if code.isString then code.toJson else text "UNKNOWN")])])

/-- What becomes of the reason of a turn ending. -/
inductive TurnEndReason where
  | malformed
  | current
  | upgraded (reason : Json)

/-- Classify the reason of a turn ending. -/
def turnEndReason (reason : Fields) : TurnEndReason :=
  let kind : Value := fieldOf (js "kind") reason
  let onlyKind := hasOnlyKeys reason ["kind"] []
  if kind = some (text "completed") ∨ kind = some (text "blocked") ∨
      kind = some (text "max-tokens") ∨ kind = some (text "interrupted") then
    if onlyKind then .current else .malformed
  else if kind = some (text "aborted") then
    if hasField "reason" reason then .current
    else if onlyKind then
      .upgraded (.obj [prop "kind" (text "aborted"),
        prop "reason" (.obj [prop "kind" (text "legacy")])])
    else .malformed
  else if kind = some (text "disposed") then
    if onlyKind then
      .upgraded (.obj [prop "kind" (text "aborted"),
        prop "reason" (.obj [prop "kind" (text "disposed")])])
    else .malformed
  else if kind = some (text "error") then
    if hasField "error" reason then .current
    else
      match legacyErrorReason reason with
      | some current => .upgraded current
      | none => .malformed
  else .current

/-- Upgrade an obsolete turn ending. -/
def migrateLegacyTurnEndEvent (event : Json) (id : JsString) : Except StoredEventError Json :=
  let malformed := StoredEventError.malformed id "turn/end" (event.get? "seq")
  if hasType "turn/end" event = false then .ok event
  else
    match asRecord (event.get? "data") with
    | none => .ok event
    | some data =>
      match asRecord (fieldOf (js "reason") data) with
      | none => .error malformed
      | some reason =>
        if isSafeIntegerFrom 1 (fieldOf (js "turn") data) = false ∨
            hasOnlyKeys data ["turn", "reason"] [] = false ∨
            Value.isString (fieldOf (js "kind") reason) = false then .error malformed
        else
          match turnEndReason reason with
          | .malformed => .error malformed
          | .current => .ok event
          | .upgraded current =>
            .ok (withFields event [prop "data" (.obj (setFields data [prop "reason" current]))])

/-- The message ids of the events read so far, the last one first. -/
abbrev MessageIds := List (Number × JsString)

/-- `messageIds.get(seq)`. -/
def MessageIds.find (ids : MessageIds) (seq : Number) : Option JsString := List.lookup seq ids

/-- The message of an obsolete tool result. -/
def legacyToolMessage (data : Fields) (messageId : Option JsString) : Json :=
  .obj (definedFields [
    ("id", messageId.map Json.str),
    ("role", some (text "user")),
    ("content", some (.arr [.obj (definedFields [
      ("type", some (text "tool-result")),
      ("toolCallId", fieldOf (js "callId") data),
      ("content", fieldOf (js "content") data),
      ("isError", fieldOf (js "isError") data)])])),
    ("source", some (.obj (definedFields [
      ("kind", some (text "tool")),
      ("callId", fieldOf (js "callId") data)])))])

/-- Upgrade one message event from before messages had an identity. -/
def migrateLegacyMessageEvent (event : Json) (id : JsString) (messageIds : MessageIds) : Json :=
  let ownId := legacyMessageId id (event.get? "seq")
  match asRecord (event.get? "data") with
  | none => event
  | some data =>
    if hasType "user/message" event then
      if hasField "id" data || hasField "role" data || hasField "message" data ||
          !hasField "content" data || !hasField "source" data then event
      else
        withFields event [prop "data" (.obj (setFields data [
          prop "id" (.str ownId), prop "role" (text "user")]))]
    else if hasType "assistant/message" event then
      if hasField "message" data || !hasField "content" data || !hasField "provenance" data then
        event
      else
        let provenance := (asRecord (fieldOf (js "provenance") data)).getD []
        withFields event [prop "data" (.obj (setFields (omitFields ["content", "provenance"] data) [
          prop "message" (.obj (definedFields [
            ("id", some (.str ownId)),
            ("role", some (text "assistant")),
            ("content", fieldOf (js "content") data),
            ("source", some (.obj (setFields provenance [prop "kind" (text "model")])))]))]))]
    else if hasType "tool/result" event then
      if hasField "message" data || !hasField "callId" data || !hasField "content" data ||
          !hasField "isError" data then event
      else
        let messageId := match replacementStart event with
          | none => some ownId
          | some start => messageIds.find start
        withFields event [prop "data" (.obj (setFields
          (omitFields ["callId", "content", "isError"] data) [
            prop "message" (legacyToolMessage data messageId)]))]
    else event

/-- The identified message of a validated event. -/
def eventMessageId (event : Json) : Option JsString :=
  let data := asRecord (event.get? "data")
  let message := if hasType "user/message" event then data
    else asRecord (data.bind (fieldOf (js "message")))
  match message.bind (fieldOf (js "id")) with
  | some (.str id) => some id
  | _ => none

/-- Upgrade and validate one event. -/
def snapshotStoredEvent (id : JsString) (messageIds : MessageIds) (event : Json) :
    Except StoredEventError Json :=
  match migrateLegacyTurnStartEvent event id with
  | .error e => .error e
  | .ok migratedStart =>
    match migrateLegacyTurnEndEvent migratedStart id with
    | .error e => .error e
    | .ok migratedTurn =>
      match migrateLegacySteeringEvent migratedTurn id with
      | .error e => .error e
      | .ok migratedSteering =>
        let migrated := migrateLegacyMessageEvent migratedSteering id messageIds
        match snapshotSessionEvent migrated with
        | .error fault => .error (.shape (migrated.get? "seq") fault)
        | .ok snapshot => .ok snapshot

/-- `messageIds.set(snapshot.seq, messageId)`, where there is one. -/
def MessageIds.record (ids : MessageIds) (snapshot : Json) : MessageIds :=
  match snapshot.get? "seq", eventMessageId snapshot with
  | some (.num seq), some messageId => (seq, messageId) :: ids
  | _, _ => ids

/-- The events one after another, with the message ids seen so far. -/
def snapshotStoredFrom (id : JsString) :
    MessageIds → List Json → Except StoredEventError (List Json)
  | _, [] => .ok []
  | messageIds, event :: rest =>
    match snapshotStoredEvent id messageIds event with
    | .error e => .error e
    | .ok snapshot =>
      match snapshotStoredFrom id (messageIds.record snapshot) rest with
      | .error e => .error e
      | .ok snapshots => .ok (snapshot :: snapshots)

/-- Materialize stored events as upgraded, validated snapshots. -/
def snapshotStoredEvents (events : List Json) (id : JsString) :
    Except StoredEventError (List Json) :=
  match assertSupportedEvents events id with
  | .error e => .error e
  | .ok () => snapshotStoredFrom id [] events

end XxAgent
