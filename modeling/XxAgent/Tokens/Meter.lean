import XxAgent.Ecma.OrderedMap
import XxAgent.Session.Surface

/-!
# Token estimates

The fixed-density heuristic that prices messages and request envelopes, and the assembly of a
provider's chunks into the blocks that it prices.
-/

namespace XxAgent.Tokens

open Ecma

/-! ## Messages -/

/-- A block of content, with what its price depends on. -/
inductive ContentBlock where
  | text (text : JsString)
  | reasoning (text : JsString)
  | toolCall (id name arguments : JsString)
  | toolResult (content : List ContentBlock)
  /-- A block of a type that a plugin merges in. -/
  | other (type : JsString) (block : Json)

structure Message where
  content : List ContentBlock

/-- Fixed text-density estimate used until exact tokenization is needed. -/
def CHARS_PER_TOKEN : ℕ := 4

/-- Per-block structural overhead for JSON framing and type tags. -/
def BLOCK_OVERHEAD : ℕ := 4

/-- Role-field framing overhead added to every priced message. -/
def ROLE_OVERHEAD : ℕ := 4

/-- `Math.ceil(text.length / CHARS_PER_TOKEN)` -/
def charTokens (text : JsString) : ℕ := (text.length + (CHARS_PER_TOKEN - 1)) / CHARS_PER_TOKEN

mutual

/-- The price of one block. -/
def estimateBlock : ContentBlock → ℕ
  | .text text => charTokens text + BLOCK_OVERHEAD
  | .reasoning text => charTokens text + BLOCK_OVERHEAD
  | .toolCall _ name arguments => charTokens name + charTokens arguments + BLOCK_OVERHEAD
  | .toolResult content => estimateContent content + BLOCK_OVERHEAD
  | .other _ block => BLOCK_OVERHEAD + charTokens (stringify block)

/-- `estimateContent` -/
def estimateContent : List ContentBlock → ℕ
  | [] => 0
  | block :: blocks => estimateBlock block + estimateContent blocks

end

/-- `estimateMessage` -/
def estimateMessage (message : Message) : ℕ := estimateContent message.content + ROLE_OVERHEAD

/-! ## Request envelopes -/

/-- `LlmCallConfig` -/
structure LlmCallConfig where
  provider : JsString
  model : JsString
  reasoningEffort : Option JsString
  temperature : Option Number
  maxTokens : Option Number
  stop : Option (List JsString)
deriving DecidableEq

/-- Config fields that were materialized from the adapter. -/
structure LlmCallConfigAdapterDefaults where
  reasoningEffort : Bool
  maxTokens : Bool
deriving DecidableEq

/-- `EpochHeader` -/
structure EpochHeader where
  config : LlmCallConfig
  adapterDefaults : Option LlmCallConfigAdapterDefaults
  system : Option JsString
  /-- The tool schemas. -/
  tools : Option (List Json)

/-- `canonicalHeader` -/
def canonicalHeader (header : EpochHeader) : EpochHeader where
  config := header.config
  adapterDefaults := header.adapterDefaults.filter fun defaults ↦
    defaults.reasoningEffort || defaults.maxTokens
  system := header.system.filter fun system ↦ 0 < system.length
  tools := header.tools.filter fun tools ↦ 0 < tools.length

/-- `headerEquals` -/
def headerEquals (a b : EpochHeader) : Bool :=
  decide (a.config = b.config) &&
    decide (a.adapterDefaults.map (·.reasoningEffort) = b.adapterDefaults.map (·.reasoningEffort)) &&
    decide (a.adapterDefaults.map (·.maxTokens) = b.adapterDefaults.map (·.maxTokens)) &&
    decide (a.system = b.system) &&
    decide ((a.tools.getD []).map stringify = (b.tools.getD []).map stringify)

/-- `estimateSystemTokens` -/
def estimateSystemTokens (header : Option EpochHeader) : ℕ :=
  match header.bind (·.system) with
  | none => 0
  | some system => charTokens system + ROLE_OVERHEAD

/-- `estimateToolsTokens` -/
def estimateToolsTokens (header : Option EpochHeader) : ℕ :=
  match header.bind (·.tools) with
  | none => 0
  | some [] => 0
  | some tools => charTokens (stringify (.arr tools)) + BLOCK_OVERHEAD

/-- `estimateHeader` -/
def estimateHeader (header : Option EpochHeader) : ℕ :=
  estimateSystemTokens header + estimateToolsTokens header

/-! ## Provider usage -/

/-- `TokenUsage` -/
structure TokenUsage where
  inputTokens : ℕ
  outputTokens : ℕ
  cacheReadTokens : Option ℕ
  cacheWriteTokens : Option ℕ

/-- `usageTokens` -/
def usageTokens (usage : TokenUsage) : ℕ :=
  usage.inputTokens + usage.cacheReadTokens.getD 0 + usage.cacheWriteTokens.getD 0 +
    usage.outputTokens

/-- `pressureFrom` -/
def pressureFrom (usage : TokenUsage) : ℕ :=
  usage.inputTokens + usage.cacheReadTokens.getD 0 + usage.cacheWriteTokens.getD 0

/-! ## Assembling chunks -/

/-- `StreamChunk`; a finish carries whether it was cut off at the token limit. -/
inductive StreamChunk where
  | blockStart (index : ℕ) (blockType : JsString)
  | textDelta (index : ℕ) (text : JsString)
  | reasoningDelta (index : ℕ) (text : JsString)
  | toolCallDelta (index : ℕ) (id : JsString) (name : Option JsString) (argumentsDelta : JsString)
  | blockEnd (index : ℕ) (block : ContentBlock)
  | usage (usage : TokenUsage)
  | finish (maxTokens : Bool)

structure PartialBlock where
  blockType : JsString
  text : JsString := []
  toolCallId : Option JsString := none
  toolCallName : Option JsString := none
  toolCallArguments : JsString := []
  /-- Set by `block-end`, and freezes the rest. -/
  block : Option ContentBlock := none

/-- The partial blocks in stream order, and the finish. -/
structure BlockAssembler where
  partials : OrderedMap ℕ PartialBlock
  maxTokens : Bool

/-- The type tag of a block. -/
def ContentBlock.type : ContentBlock → JsString
  | .text _ => js "text"
  | .reasoning _ => js "reasoning"
  | .toolCall _ _ _ => js "tool-call"
  | .toolResult _ => js "tool-result"
  | .other type _ => type

namespace BlockAssembler

/-- `new BlockAssembler()` -/
def new : BlockAssembler := ⟨.empty, false⟩

/-- Change the partial of an index, which is there once it is asked for, unless it is closed. -/
def amend (a : BlockAssembler) (index : ℕ) (blockType : JsString)
    (change : PartialBlock → PartialBlock) : BlockAssembler :=
  let found := (a.partials.get? index).getD { blockType := blockType }
  { a with partials := a.partials.set index (if found.block.isSome then found else change found) }

/-- `push` -/
def push (a : BlockAssembler) : StreamChunk → BlockAssembler
  | .blockStart index blockType =>
    if (a.partials.get? index).isSome then a
    else { a with partials := a.partials.set index { blockType := blockType } }
  | .textDelta index text =>
    a.amend index (js "text") fun p ↦ { p with text := p.text ++ text }
  | .reasoningDelta index text =>
    a.amend index (js "reasoning") fun p ↦ { p with text := p.text ++ text }
  | .toolCallDelta index id name argumentsDelta =>
    a.amend index (js "tool-call") fun p ↦ { p with
      toolCallId := some id
      toolCallName := match name with
        | some (unit :: units) => some (unit :: units)
        | _ => p.toolCallName
      toolCallArguments := p.toolCallArguments ++ argumentsDelta }
  | .blockEnd index block => a.amend index block.type fun p ↦ { p with block := some block }
  | .usage _ => a
  | .finish maxTokens => { a with maxTokens := maxTokens }

/-- `assemble`; an open block of an unknown type cannot be assembled. -/
def assemble (index : ℕ) (p : PartialBlock) : Option ContentBlock :=
  match p.block with
  | some block => some block
  | none =>
    if p.blockType = js "text" then some (.text p.text)
    else if p.blockType = js "reasoning" then some (.reasoning p.text)
    else if p.blockType = js "tool-call" then
      some (.toolCall (p.toolCallId.getD (js s!"call-{index}")) (p.toolCallName.getD [])
        p.toolCallArguments)
    else none

/-- `blocks` -/
def blocks (a : BlockAssembler) : Option (List ContentBlock) :=
  (a.partials.entries.mapM fun entry ↦ assemble entry.1 entry.2).map fun all ↦
    if a.maxTokens then all.filter (·.type ≠ js "tool-call") else all

end BlockAssembler

/-!
## The token meter

The meter replays a session log into a surface whose nodes carry their price. It keeps what it has
consumed, and catches up with the log whenever it is read; an event it refuses is left unread.
-/

/-! ## Events -/

/-- An inclusive range of surface nodes. -/
structure SurfaceRange where
  start : ℕ
  stop : ℕ
deriving DecidableEq

/-- The payload of an event, as far as metering reads it. -/
inductive MeterData where
  | userMessage (message : Message)
  | assistantMessage (turn step : ℕ) (message : Message) (usage : Option TokenUsage)
  | toolResult (message : Message)
  | assistantChunk (turn step : ℕ) (chunk : StreamChunk)
  | stepStart (turn step : ℕ)
  | stepEnd (turn step : ℕ)
  | requestHeader (header : EpochHeader)
  | requestContext (contextWindow : Option ℕ)
  | compactionSummary (shadowedRange : SurfaceRange) (shadowedTokenCount : ℕ)
  | compactionPrune (shadowedRange : SurfaceRange) (shadowedTokenCount : ℕ)
  | other (type : String) (plain : type ∉ SURFACE_EVENT_TYPES)

/-- The type tag of an event. -/
def MeterData.type : MeterData → String
  | userMessage _ => "user/message"
  | assistantMessage _ _ _ _ => "assistant/message"
  | toolResult _ => "tool/result"
  | assistantChunk _ _ _ => "assistant/chunk"
  | stepStart _ _ => "step/start"
  | stepEnd _ _ => "step/end"
  | requestHeader _ => "request/header"
  | requestContext _ => "request/context"
  | compactionSummary _ _ => "compaction/summary"
  | compactionPrune _ _ => "compaction/prune"
  | other type _ => type

/-- The marker as it is stored. -/
def surfaceOpJson : SurfaceOp → Json
  | .append => text "append"
  | .replace start stop => .obj [prop "op" (text "replace"), prop "start" (integer start),
      prop "end" (integer stop)]

/-- A stored event and what metering reads of it. -/
structure MeterEvent where
  /-- The event as the surface fold sees it. -/
  json : Json
  seq : ℕ
  data : MeterData
  surfaceOp : Option SurfaceOp
  sourceEventSeqs : Option (List ℕ)
  json_type : json.get? "type" = some (text data.type)
  json_seq : json.get? "seq" = some (integer seq)
  json_surfaceOp : json.get? "surfaceOp" = surfaceOp.map surfaceOpJson

/-- `isSurfaceEvent`, with the operation that it finds. -/
def MeterEvent.surface (event : MeterEvent) : Option SurfaceOp :=
  if event.data.type ∈ SURFACE_EVENT_TYPES then event.surfaceOp else none

/-- `deriveEventMessage` -/
def deriveEventMessage (event : MeterEvent) : Option Message :=
  match event.data with
  | .userMessage message => some message
  | .assistantMessage _ _ message _ => if message.content.length = 0 then none else some message
  | .toolResult message => some message
  | _ => none

/-- The price of the message of an event. -/
def eventTokens (event : MeterEvent) : ℕ :=
  match deriveEventMessage event with
  | none => 0
  | some message => estimateMessage message

/-! ## The priced surface -/

/-- `TokenSurfaceNode` -/
structure TokenSurfaceNode where
  seq : ℕ
  tokens : ℕ

/-- Why the meter refuses an event. -/
inductive MeterFault where
  /-- `replace at seq … has invalid current range` -/
  | invalidRange (seq start stop : ℕ)
  /-- `step/start … arrived before … ended` -/
  | stepOpen (seq : ℕ)
  /-- `… has no matching step/start event` -/
  | noStep (seq : ℕ)
  | sourceNotEarlier (seq source : ℕ)
  | sourceRepeated (seq source : ℕ)
  | sourceNotChunk (seq source : ℕ)
  | sourceOtherStep (seq source : ℕ)
  /-- `cannot assemble incomplete block` -/
  | incompleteBlock
  /-- `replace … has no adjacent shadow price` -/
  | shadowPrice (seq start stop : ℕ)

/-- `SurfaceTokenFold` -/
structure SurfaceTokenFold where
  tokens : ℕ
  nodes : List TokenSurfaceNode
  deltaTokens : ℤ

/-- The price of some nodes. -/
def nodeTokens (nodes : List TokenSurfaceNode) : ℕ := (nodes.map (·.tokens)).sum

/-- The nodes of a range, by their indices. -/
def nodeRange (nodes : List TokenSurfaceNode) (startIdx endIdx : ℕ) : List TokenSurfaceNode :=
  (nodes.drop startIdx).take (endIdx + 1 - startIdx)

/-- `foldSurfaceTokens` -/
def foldSurfaceTokens (nodes : List TokenSurfaceNode) (event : MeterEvent) (op : SurfaceOp) :
    Except MeterFault SurfaceTokenFold :=
  let tokens := eventTokens event
  match op with
  | .append => .ok ⟨tokens, nodes ++ [⟨event.seq, tokens⟩], tokens⟩
  | .replace start stop =>
    match nodes.findIdx? (·.seq = start), nodes.findIdx? (·.seq = stop) with
    | some startIdx, some endIdx =>
      if endIdx < startIdx then .error (.invalidRange event.seq start stop)
      else .ok {
        tokens := tokens
        nodes := nodes.take startIdx ++ ⟨event.seq, tokens⟩ :: nodes.drop (endIdx + 1)
        deltaTokens := (tokens : ℤ) - nodeTokens (nodeRange nodes startIdx endIdx) }
    | _, _ => .error (.invalidRange event.seq start stop)

/-! ## Replay -/

inductive MeasurementBaseline where
  | none
  | usage (tokens : ℕ) (usage : TokenUsage)
  | estimated (tokens : ℤ)

/-- `baseline.tokens` -/
def MeasurementBaseline.tokens : MeasurementBaseline → ℤ
  | .none => 0
  | .usage tokens _ => tokens
  | .estimated tokens => tokens

structure MeasurementAnchor where
  header : Option EpochHeader
  surfaceTokens : ℤ
  baseline : MeasurementBaseline

structure StepStart where
  turn : ℕ
  step : ℕ
  surfaceTokens : ℤ

structure ReplayState where
  header : Option EpochHeader
  surface : List TokenSurfaceNode
  surfaceTokens : ℤ
  stepStart : Option StepStart
  anchor : Option MeasurementAnchor

/-- Nothing has been consumed. -/
def ReplayState.initial : ReplayState := ⟨none, [], 0, none, none⟩

/-- The loop over the sources of `_estimateProviderAssistant`. -/
def assembleSources (log : List MeterEvent) (seq turn step : ℕ) :
    List ℕ → List ℕ → BlockAssembler → Except MeterFault BlockAssembler
  | [], _, a => .ok a
  | source :: sources, seen, a =>
    if seq ≤ source then .error (.sourceNotEarlier seq source)
    else if source ∈ seen then .error (.sourceRepeated seq source)
    else
      match (log[source]?).map MeterEvent.data with
      | some (.assistantChunk turn' step' chunk) =>
        if turn' ≠ turn ∨ step' ≠ step then .error (.sourceOtherStep seq source)
        else assembleSources log seq turn step sources (source :: seen) (a.push chunk)
      | _ => .error (.sourceNotChunk seq source)

/-- `_estimateProviderAssistant` -/
def estimateProviderAssistant (log : List MeterEvent) (event : MeterEvent) (turn step : ℕ) :
    Except MeterFault ℕ :=
  match event.sourceEventSeqs with
  | none => .ok (eventTokens event)
  | some sources =>
    match assembleSources log event.seq turn step sources [] .new with
    | .error fault => .error fault
    | .ok a =>
      match a.blocks with
      | none => .error .incompleteBlock
      | some [] => .ok 0
      | some content => .ok (estimateContent content + ROLE_OVERHEAD)

/-- The anchor that an assistant message sets. -/
def anchorOf (log : List MeterEvent) (event : MeterEvent) (start : StepStart)
    (usage : Option TokenUsage) (header : Option EpochHeader) :
    Except MeterFault MeasurementAnchor :=
  match usage, header with
  | some usage, some header =>
    (estimateProviderAssistant log event start.turn start.step).map fun providerAssistantTokens ↦
      let surfaceTokens := start.surfaceTokens + providerAssistantTokens
      let estimated : ℤ := estimateHeader (some header) + surfaceTokens
      ⟨some header, surfaceTokens,
        if estimated ≤ usageTokens usage then .usage (usageTokens usage) usage
        else .estimated estimated⟩
  | _, header =>
    let surfaceTokens := start.surfaceTokens + eventTokens event
    .ok ⟨header, surfaceTokens, .estimated (estimateHeader header + surfaceTokens)⟩

/-- The step that is open behind an event. -/
def nextStepStart (state : ReplayState) (event : MeterEvent) :
    Except MeterFault (Option StepStart) :=
  match event.data with
  | .stepStart turn step =>
    if state.stepStart.isSome then .error (.stepOpen event.seq)
    else .ok (some ⟨turn, step, state.surfaceTokens⟩)
  | .stepEnd turn step =>
    if (state.stepStart.any fun start ↦ start.turn = turn ∧ start.step = step) then .ok none
    else .error (.noStep event.seq)
  | _ => .ok state.stepStart

/-- The anchor behind an event. -/
def nextAnchor (log : List MeterEvent) (state : ReplayState) (header : Option EpochHeader)
    (event : MeterEvent) : Except MeterFault (Option MeasurementAnchor) :=
  match event.data with
  | .assistantMessage turn step _ usage =>
    match state.stepStart.filter fun start ↦ start.turn = turn ∧ start.step = step with
    | none => .error (.noStep event.seq)
    | some start => (anchorOf log event start usage header).map some
  | _ => .ok state.anchor

/-- The envelope in force behind an event. -/
def nextHeader (state : ReplayState) (event : MeterEvent) : Option EpochHeader :=
  match event.data with
  | .requestHeader header => some (canonicalHeader header)
  | _ => state.header

/-- `_foldEvent`: everything that can fail comes before the state is changed. -/
def foldEvent (log : List MeterEvent) (state : ReplayState) (event : MeterEvent) :
    Except MeterFault ReplayState :=
  let header := nextHeader state event
  match nextStepStart state event with
  | .error fault => .error fault
  | .ok stepStart =>
    match event.surface with
    | none =>
      (nextAnchor log state header event).map fun anchor ↦
        { state with header := header, stepStart := stepStart, anchor := anchor }
    | some op =>
      match foldSurfaceTokens state.surface event op with
      | .error fault => .error fault
      | .ok surface =>
        (nextAnchor log state header event).map fun anchor ↦
          { header := header
            surface := surface.nodes
            surfaceTokens := state.surfaceTokens + surface.deltaTokens
            stepStart := stepStart
            anchor := anchor }

/-- What the meter keeps of a session. -/
structure MeterState where
  consumedEvents : ℕ
  replay : ReplayState

/-- The loop of `_sync`, over the events that are left; a refused event ends it. -/
def syncLoop (log : List MeterEvent) :
    MeterState → List MeterEvent → MeterState × Option MeterFault
  | state, [] => (state, none)
  | state, event :: rest =>
    match foldEvent log state.replay event with
    | .error fault => (state, some fault)
    | .ok replay => syncLoop log ⟨state.consumedEvents + 1, replay⟩ rest

/-- `_sync` -/
def sync (log : List MeterEvent) (state : Option MeterState) : MeterState × Option MeterFault :=
  let state := state.getD ⟨0, .initial⟩
  syncLoop log state (log.drop state.consumedEvents)

/-- `TokenMeasurement` -/
structure TokenMeasurement where
  logRevision : ℕ
  baseline : MeasurementBaseline
  surfaceDeltaTokens : ℤ
  totalTokens : ℤ
  surfaceTokens : ℤ
  nodes : List TokenSurfaceNode

/-- `optionalHeaderEquals` -/
def optionalHeaderEquals : Option EpochHeader → Option EpochHeader → Bool
  | some left, some right => headerEquals left right
  | none, none => true
  | _, _ => false

/-- What is measured against: the anchor, if the envelope is the one it was set under. -/
def measureBaseline (state : ReplayState) (header : Option EpochHeader) :
    MeasurementBaseline × ℤ :=
  match state.anchor.filter fun anchor ↦ optionalHeaderEquals anchor.header header with
  | some anchor => (anchor.baseline, state.surfaceTokens - anchor.surfaceTokens)
  | none =>
    if header.isNone ∧ state.surfaceTokens = 0 then (.none, 0)
    else (.estimated (estimateHeader header + state.surfaceTokens), 0)

/-- What `measure` returns once the fold has caught up. -/
def measurement (state : MeterState) (requestHeader : Option EpochHeader) : TokenMeasurement :=
  let header := match requestHeader with
    | none => state.replay.header
    | some header => some (canonicalHeader header)
  let baseline := measureBaseline state.replay header
  { logRevision := state.consumedEvents
    baseline := baseline.1
    surfaceDeltaTokens := baseline.2
    totalTokens := max 0 (baseline.1.tokens + baseline.2)
    surfaceTokens := state.replay.surfaceTokens
    nodes := state.replay.surface }

end XxAgent.Tokens
