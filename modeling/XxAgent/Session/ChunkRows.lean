import XxAgent.Session.Event
import Mathlib.Data.List.SplitBy

/-!
# Chunk rows

Storage packing for runs of `assistant/chunk` delta events. `packChunkRuns` collects maximal runs of
events whose exact shape it recognises and writes one row for each run of at least `MIN_RUN`;
`decodeStorageRecord` validates a row and expands it.

The loop of the source is one pass with a current run. What it computes is stated without the loop
by `packChunkRuns_eq`: split the list where two neighbours do not join, and encode each part on its
own. Decoding is then a statement about one run.

A member is rebuilt with its keys in one fixed order, so the events that come back are the same
values (`Json.SameValue`), and the same terms exactly where the members had that order already;
`decode_packChunkRuns` keeps track of which.
-/

namespace XxAgent

open Ecma

/-! ## Encoding -/

/-- The chunk kinds that may pack. -/
inductive DeltaKind where
  | textDelta
  | reasoningDelta
  | toolCallDelta
deriving DecidableEq, Repr

/-- The minimum number of members before a run packs. -/
def MIN_RUN : ℕ := 3

/-- `event.data.chunk`. -/
def chunkOf (event : SessionEvent) : Value := (event.get "data").get "chunk"

/-- The kind of a delta chunk whose exact shape the encoder recognises. -/
def classifyChunk (chunk : Value) : Option DeltaKind :=
  if chunk.get "type" = some (text "text-delta") then
    if chunk.hasExactKeys ["type", "index", "text"] && (chunk.get "text").isString then
      some .textDelta
    else none
  else if chunk.get "type" = some (text "reasoning-delta") then
    if chunk.hasExactKeys ["type", "index", "text"] && (chunk.get "text").isString then
      some .reasoningDelta
    else none
  else if chunk.get "type" = some (text "tool-call-delta") then
    let shapeOk := chunk.hasExactKeys ["type", "index", "id", "argumentsDelta"] ||
      (chunk.hasExactKeys ["type", "index", "id", "name", "argumentsDelta"] &&
        (chunk.get "name").isString)
    if shapeOk && (chunk.get "id").isString && (chunk.get "argumentsDelta").isString then
      some .toolCallDelta
    else none
  else none

/-- The delta kind of an event when its entire shape is recognised. -/
def classify (event : SessionEvent) : Option DeltaKind :=
  let value : Value := some event.json
  let data := event.get "data"
  if event.get "type" ≠ some (text "assistant/chunk") then none
  else if !value.hasExactKeys ["type", "seq", "time", "data"] then none
  else if !(event.get "seq").isSafeInteger || decide ((event.get "seq").toInt < 0) ||
      !(event.get "time").isSafeInteger then none
  else if !data.isRecord || !data.hasExactKeys ["turn", "step", "chunk"] then none
  else if !(data.get "turn").isNumber || !(data.get "step").isNumber then none
  else if !(chunkOf event).isRecord || !((chunkOf event).get "index").isNumber then none
  else classifyChunk (chunkOf event)

/-- The tool-call fields of a recognised delta chunk. -/
def toolCallOf (event : SessionEvent) : Value := chunkOf event

/-- The block index of a recognised delta chunk. -/
def indexOf (event : SessionEvent) : Value := (chunkOf event).get "index"

/-- Whether `next` extends a run that ends in `prev`, of the same kind. -/
def continues (prev next : SessionEvent) (kind : DeltaKind) : Bool :=
  if (next.get "seq").toInt ≠ Number.addInt (prev.get "seq").toInt 1 then false
  else if ¬ Number.IsSafe (Number.subInt (next.get "time").toInt (prev.get "time").toInt) then false
  else if (next.get "data").get "turn" ≠ (prev.get "data").get "turn" ∨
      (next.get "data").get "step" ≠ (prev.get "data").get "step" then false
  else if indexOf next ≠ indexOf prev then false
  else if kind ≠ .toolCallDelta then true
  else
    let a := toolCallOf prev
    let b := toolCallOf next
    a.get "id" = b.get "id" && a.hasOwn "name" = b.hasOwn "name" && a.get "name" = b.get "name"

/-- The row of a completed run. -/
def buildRow (kind : DeltaKind) (run : List SessionEvent) : Json :=
  match run with
  | [] => .null -- a run has a first member
  | first :: _ =>
    let data := first.get "data"
    let base : Fields := [
      prop "turn" (data.get "turn").toJson,
      prop "step" (data.get "step").toJson,
      prop "index" (indexOf first).toJson,
      prop "dt" (.arr (run.tail.zipWith
        (fun event prev ↦ integer (Number.subInt (event.get "time").toInt (prev.get "time").toInt))
        run))]
    let envelope : Fields :=
      [prop "seq0" (first.get "seq").toJson, prop "time0" (first.get "time").toJson]
    match kind with
    | .toolCallDelta =>
      let call := toolCallOf first
      .obj (prop "type" (text "tool-call-chunks") :: envelope ++ [prop "data" (.obj (base ++
        [prop "id" (call.get "id").toJson] ++
        (if call.hasOwn "name" then [prop "name" (call.get "name").toJson] else []) ++
        [prop "args" (.arr (run.map fun event ↦ ((chunkOf event).get "argumentsDelta").toJson))]))])
    | .textDelta =>
      .obj (prop "type" (text "text-chunks") :: envelope ++ [prop "data" (.obj (base ++
        [prop "texts" (.arr (run.map fun event ↦ ((chunkOf event).get "text").toJson))]))])
    | .reasoningDelta =>
      .obj (prop "type" (text "reasoning-chunks") :: envelope ++ [prop "data" (.obj (base ++
        [prop "texts" (.arr (run.map fun event ↦ ((chunkOf event).get "text").toJson))]))])

/-- What the packing loop carries. -/
structure Packer where
  /-- The records written. -/
  out : List Json
  /-- The kind of the current run. -/
  kind : Option DeltaKind
  /-- The members of the current run. -/
  run : List SessionEvent

namespace Packer

/-- The loop before the first event. -/
def start : Packer := ⟨[], none, []⟩

/-- End the current run. -/
def flush (p : Packer) : Packer :=
  match p.kind with
  | some kind =>
    if p.run.length ≥ MIN_RUN then ⟨p.out ++ [buildRow kind p.run], none, []⟩
    else ⟨p.out ++ p.run.map SessionEvent.json, none, []⟩
  | none => ⟨p.out ++ p.run.map SessionEvent.json, none, []⟩

/-- One event of the batch. -/
def step (p : Packer) (event : SessionEvent) : Packer :=
  match classify event with
  | none => ⟨p.flush.out ++ [event.json], none, []⟩
  | some k =>
    match p.run.getLast? with
    | some last =>
      if some k = p.kind ∧ continues last event k then { p with run := p.run ++ [event] }
      else ⟨p.flush.out, some k, [event]⟩
    | none => ⟨p.flush.out, some k, [event]⟩

end Packer

/-- Pack an event batch for storage. -/
def packChunkRuns (events : List SessionEvent) : List Json :=
  (events.foldl Packer.step Packer.start).flush.out

/-! ## Decoding -/

/-- The uniform malformed-row diagnostic. -/
def malformed {α : Type} (tag : RowTag) (why : String) : Except String α :=
  .error ("malformed " ++ tag.name ++ " storage row: " ++ why)

/-- Validate the shared run data; the member payload. -/
def validateRunData (tag : RowTag) (data : Value) (payloadKey : String) :
    Except String (List Json) :=
  let payload := data.get payloadKey
  let dt := data.get "dt"
  if !(data.get "turn").isNumber || !(data.get "step").isNumber || !(data.get "index").isNumber then
    malformed tag "turn/step/index must be numbers"
  else if !payload.isArray || payload.toList.isEmpty ||
      payload.toList.any (fun entry ↦ !Value.isString (some entry)) then
    malformed tag (payloadKey ++ " must be a non-empty string array")
  else if !dt.isArray || dt.toList.any (fun gap ↦ !Value.isSafeInteger (some gap)) then
    malformed tag "dt must be an array of safe integers"
  else if dt.toList.length ≠ payload.toList.length - 1 then
    malformed tag ("dt length " ++ toString dt.toList.length ++ " does not match "
      ++ toString payload.toList.length ++ " members")
  else .ok payload.toList

/-- The running member time stays safe along the gaps. -/
def validateTimes (tag : RowTag) : ℤ → List Json → Except String Unit
  | _, [] => .ok ()
  | time, gap :: dt =>
    let time := Number.addInt time (Value.toInt (some gap))
    if Number.IsSafe time then validateTimes tag time dt
    else malformed tag "member times must stay safe integers"

/-- Validate a row's payload by its tag. -/
def validatePayload (tag : RowTag) (data : Value) : Except String (List Json) :=
  match tag with
  | .toolCallChunks =>
    let withName := data.hasExactKeys ["turn", "step", "index", "id", "name", "dt", "args"]
    if !withName && !data.hasExactKeys ["turn", "step", "index", "id", "dt", "args"] then
      malformed tag "data must be exactly \x7bturn, step, index, id, name?, dt, args\x7d"
    else if !(data.get "id").isString || (withName && !(data.get "name").isString) then
      malformed tag "id (and name when present) must be strings"
    else validateRunData tag data "args"
  | _ =>
    if !data.hasExactKeys ["turn", "step", "index", "dt", "texts"] then
      malformed tag "data must be exactly \x7bturn, step, index, dt, texts\x7d"
    else validateRunData tag data "texts"

/-- Validate a row-tagged value's envelope and data. -/
def validateRow (value : Json) (tag : RowTag) : Except String Unit :=
  let seq0 := value.get? "seq0"
  let time0 := value.get? "time0"
  let data := value.get? "data"
  if !Value.hasExactKeys ["type", "seq0", "time0", "data"] (some value) then
    malformed tag "envelope must be exactly \x7btype, seq0, time0, data\x7d"
  else if !Value.isSafeInteger seq0 || decide (Value.toInt seq0 < 0) then
    malformed tag "seq0 must be a non-negative safe integer"
  else if !Value.isSafeInteger time0 then malformed tag "time0 must be a safe integer"
  else if !Value.isRecord data then malformed tag "data must be an object"
  else
    match validatePayload tag data with
    | .error e => .error e
    | .ok payload =>
      if ¬ Number.IsSafe (Number.subInt (Number.addInt (Value.toInt seq0) payload.length) 1) then
        malformed tag "member seqs must stay safe integers"
      else validateTimes tag (Value.toInt time0) (Value.toList (Value.get "dt" data))

/-- The chunk of one member of a validated row. -/
def memberChunk (tag : RowTag) (data : Value) (member : Json) : Json :=
  match tag with
  | .textChunks => .obj [prop "type" (text "text-delta"), prop "index" (data.get "index").toJson,
      prop "text" member]
  | .reasoningChunks => .obj [prop "type" (text "reasoning-delta"),
      prop "index" (data.get "index").toJson, prop "text" member]
  | .toolCallChunks => .obj ([prop "type" (text "tool-call-delta"),
      prop "index" (data.get "index").toJson, prop "id" (data.get "id").toJson] ++
      (if data.hasOwn "name" then [prop "name" (data.get "name").toJson] else []) ++
      [prop "argumentsDelta" member])

/-- The members of a validated row from index `k` on, `time` being the time of the one before. -/
def expandMembers (tag : RowTag) (row : Json) : ℕ → ℤ → List Json → List Json
  | _, _, [] => []
  | k, time, member :: members =>
    let data := row.get? "data"
    let time := if k > 0 then
        Number.addInt time (Value.toInt (Value.toList (Value.get "dt" data))[k - 1]?)
      else time
    .obj [
      prop "type" (text "assistant/chunk"),
      prop "seq" (integer (Number.addInt (Value.toInt (row.get? "seq0")) k)),
      prop "time" (integer time),
      prop "data" (.obj [
        prop "turn" (Value.get "turn" data).toJson,
        prop "step" (Value.get "step" data).toJson,
        prop "chunk" (memberChunk tag data member)])]
    :: expandMembers tag row (k + 1) time members

/-- The key of the member payload. -/
def RowTag.payloadKey : RowTag → String
  | .toolCallChunks => "args"
  | _ => "texts"

/-- Expand a validated row back into its events. -/
def expandRow (row : Json) (tag : RowTag) : List Json :=
  let members := Value.toList (Value.get tag.payloadKey (row.get? "data"))
  expandMembers tag row 0 (Value.toInt (row.get? "time0")) members

/-- Decode one stored value into the events it stores. -/
def decodeStorageRecord (value : Json) : Except String (List Json) :=
  match rowTag? value with
  | none => .ok [value]
  | some tag =>
    match validateRow value tag with
    | .error e => .error e
    | .ok () => .ok (expandRow value tag)

/-- Decode stored values one after another. -/
def decodeStorageRecords : List Json → Except String (List Json)
  | [] => .ok []
  | value :: values =>
    match decodeStorageRecord value with
    | .error e => .error e
    | .ok events =>
      match decodeStorageRecords values with
      | .error e => .error e
      | .ok rest => .ok (events ++ rest)

end XxAgent
