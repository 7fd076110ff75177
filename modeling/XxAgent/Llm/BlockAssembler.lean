import XxAgent.Session.LogEvent

/-!
# Model streams

The raw streaming protocol of a model response, and the checker of its grammar. Block indexes
correlate interleaved deltas, and the end of a block carries the assembled block.
-/

namespace XxAgent.Llm

open Ecma

/-! ## The protocol -/

/-- The tag of a content block; plugins add their own. -/
inductive ContentBlockType where
  | text
  | reasoning
  | image
  | toolCall
  | toolResult
  | other (name : JsString)
deriving DecidableEq

def ContentBlockType.name : ContentBlockType → JsString
  | text => js "text"
  | reasoning => js "reasoning"
  | image => js "image"
  | toolCall => js "tool-call"
  | toolResult => js "tool-result"
  | other name => name

/-- A content block. -/
inductive ContentBlock where
  | text (text : JsString)
  | reasoning (text : JsString)
  | image (attachment : Json)
  /-- A tool invocation; the arguments are as the model produced them. -/
  | toolCall (id : CallId) (name arguments : JsString)
  | toolResult (toolCallId : CallId) (content : Json) (isError : Option Bool)
  | other (type : JsString) (fields : Fields)
deriving DecidableEq

def ContentBlock.type : ContentBlock → ContentBlockType
  | text _ => .text
  | reasoning _ => .reasoning
  | image _ => .image
  | toolCall .. => .toolCall
  | toolResult .. => .toolResult
  | other type _ => .other type

/-- Why a model response stopped. -/
inductive FinishReason where
  | stop
  | toolCalls
  | maxTokens
  | aborted (failure : Json)
  | error (failure : Json)
  | other (kind : JsString)
deriving DecidableEq

/-- The response was not cut off by a failure. -/
def FinishReason.normal : FinishReason → Bool
  | aborted _ => false
  | error _ => false
  | _ => true

/-- Adapter-private state for replaying a response. -/
structure ReplayEnvelope where
  response : Json
  /-- An entry for each emitted block, in first-seen order. -/
  blocks : Option (List Json)
deriving DecidableEq

structure TokenUsage where
  inputTokens : ℤ
  outputTokens : ℕ
  cacheReadTokens : Option ℕ
  cacheWriteTokens : Option ℕ
  reasoningTokens : Option ℕ
deriving DecidableEq

inductive StreamChunk where
  | blockStart (index : ℤ) (blockType : ContentBlockType)
  | textDelta (index : ℤ) (text : JsString)
  | reasoningDelta (index : ℤ) (text : JsString)
  | toolCallDelta (index : ℤ) (id : CallId) (name : Option JsString) (argumentsDelta : JsString)
  | blockEnd (index : ℤ) (block : ContentBlock)
  | usage (usage : TokenUsage)
  | finish (reason : FinishReason) (replayState : Option ReplayEnvelope)
deriving DecidableEq

def StreamChunk.type : StreamChunk → JsString
  | blockStart .. => js "block-start"
  | textDelta .. => js "text-delta"
  | reasoningDelta .. => js "reasoning-delta"
  | toolCallDelta .. => js "tool-call-delta"
  | blockEnd .. => js "block-end"
  | usage _ => js "usage"
  | finish .. => js "finish"

/-! ## The checker -/

/-- What the checker reports. -/
inductive StreamFault where
  | badIndex (index : ℤ)
  | repeatedStart (index : ℤ)
  | notOpen (expected : ContentBlockType) (index : ℤ) (actual : Option ContentBlockType)
  | endsNothing (index : ℤ)
  | closes (index : ℤ) (actual expected : ContentBlockType)
  | usageTwice
  | openAtFinish (count : ℕ)
  | afterFinish (type : JsString)
  | unfinished
deriving DecidableEq

private def indexText (index : ℤ) : JsString := (Number.int index).text

/-- The diagnostic. -/
def StreamFault.message : StreamFault → JsString
  | badIndex index =>
    js "LLM stream block index must be a non-negative safe integer, got " ++ indexText index
  | repeatedStart index => js "LLM stream repeated block-start index " ++ indexText index
  | notOpen expected index actual =>
    expected.name ++ js " delta at index " ++ indexText index ++ js " requires an open " ++
      expected.name ++ js " block, got " ++ (actual.map ContentBlockType.name).getD (js "undefined")
  | endsNothing index =>
    js "LLM stream block-end index " ++ indexText index ++ js " has no open block"
  | closes index actual expected =>
    js "LLM stream block-end index " ++ indexText index ++ js " closes " ++ actual.name ++
      js ", expected " ++ expected.name
  | usageTwice => js "LLM stream emitted usage more than once"
  | openAtFinish count =>
    js "LLM stream finished with " ++ indexText count ++ js " open block(s)"
  | afterFinish type => js "LLM stream emitted " ++ type ++ js " after terminal finish"
  | unfinished => js "LLM stream ended without a terminal finish chunk"

/-- What the checker keeps. -/
structure StreamGrammar where
  /-- The open blocks, with their types. -/
  opened : OrderedMap ℤ ContentBlockType
  usageSeen : Bool
  finished : Bool

def StreamGrammar.initial : StreamGrammar := ⟨.empty, false, false⟩

def validateIndex (index : ℤ) : Except StreamFault Unit :=
  if Number.IsSafe index ∧ 0 ≤ index then .ok () else .error (.badIndex index)

/-- Require a delta to address an open block of its type. -/
def validateDelta (g : StreamGrammar) (index : ℤ) (expected : ContentBlockType) :
    Except StreamFault StreamGrammar :=
  match validateIndex index with
  | .error e => .error e
  | .ok () =>
    if g.opened.get? index = some expected then .ok g
    else .error (.notOpen expected index (g.opened.get? index))

/-- One chunk. -/
def validateChunk (g : StreamGrammar) (chunk : StreamChunk) : Except StreamFault StreamGrammar :=
  if g.finished then .error (.afterFinish chunk.type)
  else
    match chunk with
    | .blockStart index blockType =>
      match validateIndex index with
      | .error e => .error e
      | .ok () =>
        if (g.opened.get? index).isSome then .error (.repeatedStart index)
        else .ok { g with opened := g.opened.set index blockType }
    | .textDelta index _ => validateDelta g index .text
    | .reasoningDelta index _ => validateDelta g index .reasoning
    | .toolCallDelta index .. => validateDelta g index .toolCall
    | .blockEnd index block =>
      match validateIndex index with
      | .error e => .error e
      | .ok () =>
        match g.opened.get? index with
        | none => .error (.endsNothing index)
        | some blockType =>
          if block.type ≠ blockType then .error (.closes index block.type blockType)
          else .ok { g with opened := g.opened.delete index }
    | .usage _ => if g.usageSeen then .error .usageTwice else .ok { g with usageSeen := true }
    | .finish reason _ =>
      if g.opened.entries ≠ [] ∧ reason.normal then
        .error (.openAtFinish g.opened.entries.length)
      else .ok { g with finished := true }

/-- The chunks of a stream, one after the other. -/
def validateChunks (g : StreamGrammar) : List StreamChunk → Except StreamFault StreamGrammar
  | [] => .ok g
  | chunk :: rest =>
    match validateChunk g chunk with
    | .error e => .error e
    | .ok g => validateChunks g rest

/-- Enforce the grammar of one provider stream. -/
def validateStream (chunks : List StreamChunk) : Except StreamFault Unit :=
  match validateChunks .initial chunks with
  | .error e => .error e
  | .ok g => if g.finished then .ok () else .error .unfinished

theorem validateChunks_append_eq_ok {g h : StreamGrammar} {front back : List StreamChunk} :
    validateChunks g (front ++ back) = .ok h ↔
      ∃ m, validateChunks g front = .ok m ∧ validateChunks m back = .ok h := by
  induction front generalizing g with
  | nil => simp [validateChunks]
  | cons chunk rest ih =>
    rw [List.cons_append, validateChunks, validateChunks]
    cases validateChunk g chunk with
    | error e => simp
    | ok m => exact ih

theorem validateStream_eq_ok {chunks : List StreamChunk} : validateStream chunks = .ok () ↔
    ∃ g, validateChunks .initial chunks = .ok g ∧ g.finished := by
  rw [validateStream]
  cases validateChunks .initial chunks with
  | error e => simp
  | ok g => simp

/-! ## Accepted chunks -/

/-- What a chunk that is accepted does. -/
inductive Accepts (g : StreamGrammar) : StreamChunk → StreamGrammar → Prop where
  | blockStart (index : ℤ) (blockType : ContentBlockType) (hindex : 0 ≤ index)
    (hnew : g.opened.get? index = none) :
    Accepts g (.blockStart index blockType) { g with opened := g.opened.set index blockType }
  | textDelta (index : ℤ) (text : JsString) (hopen : g.opened.get? index = some .text) :
    Accepts g (.textDelta index text) g
  | reasoningDelta (index : ℤ) (text : JsString) (hopen : g.opened.get? index = some .reasoning) :
    Accepts g (.reasoningDelta index text) g
  | toolCallDelta (index : ℤ) (id : CallId) (name : Option JsString) (argumentsDelta : JsString)
    (hopen : g.opened.get? index = some .toolCall) :
    Accepts g (.toolCallDelta index id name argumentsDelta) g
  | blockEnd (index : ℤ) (block : ContentBlock) (hopen : g.opened.get? index = some block.type) :
    Accepts g (.blockEnd index block) { g with opened := g.opened.delete index }
  | usage (usage : TokenUsage) : Accepts g (.usage usage) { g with usageSeen := true }
  | finish (reason : FinishReason) (replayState : Option ReplayEnvelope)
    (hclosed : reason.normal → g.opened.entries = []) :
    Accepts g (.finish reason replayState) { g with finished := true }

private theorem validateIndex_eq_ok {index : ℤ} (h : validateIndex index = .ok ()) :
    0 ≤ index := by
  rw [validateIndex] at h
  split_ifs at h with hsafe
  exact hsafe.2

private theorem validateDelta_eq_ok {g h : StreamGrammar} {index : ℤ} {expected : ContentBlockType}
    (hdelta : validateDelta g index expected = .ok h) :
    h = g ∧ g.opened.get? index = some expected := by
  rw [validateDelta] at hdelta
  cases hindex : validateIndex index with
  | error e => simp [hindex] at hdelta
  | ok =>
    simp only [hindex] at hdelta
    split_ifs at hdelta with hopen
    exact ⟨(Except.ok.inj hdelta).symm, hopen⟩

theorem accepts_of_validateChunk {g h : StreamGrammar} {chunk : StreamChunk}
    (hchunk : validateChunk g chunk = .ok h) : g.finished = false ∧ Accepts g chunk h := by
  rw [validateChunk.eq_def] at hchunk
  by_cases hfinished : g.finished
  · simp [hfinished] at hchunk
  rw [if_neg hfinished] at hchunk
  refine ⟨by simpa using hfinished, ?_⟩
  cases chunk with
  | blockStart index blockType =>
    dsimp only at hchunk
    cases hindex : validateIndex index with
    | error e => simp [hindex] at hchunk
    | ok =>
      simp only [hindex] at hchunk
      split_ifs at hchunk with hopen
      obtain rfl := Except.ok.inj hchunk
      exact .blockStart index blockType (validateIndex_eq_ok hindex)
        (Option.not_isSome_iff_eq_none.mp hopen)
  | textDelta index text =>
    obtain ⟨rfl, hopen⟩ := validateDelta_eq_ok hchunk
    exact .textDelta index text hopen
  | reasoningDelta index text =>
    obtain ⟨rfl, hopen⟩ := validateDelta_eq_ok hchunk
    exact .reasoningDelta index text hopen
  | toolCallDelta index id name argumentsDelta =>
    obtain ⟨rfl, hopen⟩ := validateDelta_eq_ok hchunk
    exact .toolCallDelta index id name argumentsDelta hopen
  | blockEnd index block =>
    dsimp only at hchunk
    cases hindex : validateIndex index with
    | error e => simp [hindex] at hchunk
    | ok =>
      simp only [hindex] at hchunk
      cases hopen : g.opened.get? index with
      | none => simp [hopen] at hchunk
      | some blockType =>
        simp only [hopen] at hchunk
        split_ifs at hchunk with htype
        obtain rfl := Except.ok.inj hchunk
        exact .blockEnd index block (by rw [hopen, not_not.mp htype])
  | usage usage =>
    dsimp only at hchunk
    by_cases hseen : g.usageSeen
    · simp [hseen] at hchunk
    · rw [if_neg hseen] at hchunk
      obtain rfl := Except.ok.inj hchunk
      exact .usage usage
  | finish reason replayState =>
    dsimp only at hchunk
    by_cases hopen : g.opened.entries ≠ [] ∧ reason.normal
    · simp [hopen] at hchunk
    · rw [if_neg hopen] at hchunk
      obtain rfl := Except.ok.inj hchunk
      refine .finish reason replayState fun hnormal ↦ ?_
      by_contra hentries
      exact hopen ⟨hentries, hnormal⟩

/-- The last of the chunks that are accepted. -/
theorem exists_accepts {front : List StreamChunk} {chunk : StreamChunk} {g h : StreamGrammar}
    (haccepted : validateChunks g (front ++ [chunk]) = .ok h) :
    ∃ m, validateChunks g front = .ok m ∧ m.finished = false ∧ Accepts m chunk h := by
  obtain ⟨m, hfront, hchunk⟩ := validateChunks_append_eq_ok.mp haccepted
  have hlast : validateChunk m chunk = .ok h := by
    rw [validateChunks] at hchunk
    cases hm : validateChunk m chunk with
    | error e => simp [hm] at hchunk
    | ok h' => simpa [hm, validateChunks] using hchunk
  exact ⟨m, hfront, accepts_of_validateChunk hlast⟩

/-- **Induction on accepted chunks**: what holds at the start and is kept by every chunk. -/
theorem validateChunks_induction {motive : List StreamChunk → StreamGrammar → Prop}
    (nil : motive [] .initial)
    (concat : ∀ front g chunk h, motive front g → g.finished = false → Accepts g chunk h →
      motive (front ++ [chunk]) h)
    {chunks : List StreamChunk} {g : StreamGrammar}
    (haccepted : validateChunks .initial chunks = .ok g) : motive chunks g := by
  induction chunks using List.reverseRecOn generalizing g with
  | nil =>
    obtain rfl := Except.ok.inj haccepted
    exact nil
  | append_singleton front chunk ih =>
    obtain ⟨m, hfront, hfinished, haccepts⟩ := exists_accepts haccepted
    exact concat front m chunk g (ih hfront) hfinished haccepts

/-!
## The block assembler

The canonical assembly of a model response from its chunks. It tolerates streams without block
starts and ends; what addresses an index that has been closed is ignored.
-/

structure PartialBlock where
  blockType : ContentBlockType
  text : JsString := []
  toolCallId : Option CallId := none
  toolCallName : Option JsString := none
  toolCallArguments : JsString := []
  /-- Set by `block-end`, which is authoritative and freezes the rest. -/
  block : Option ContentBlock := none
deriving DecidableEq

/-- Why blocks cannot be assembled. -/
inductive AssemblyError where
  /-- A block of a type without deltas has not been closed. -/
  | incomplete (blockType : ContentBlockType)
  /-- An index has no partial. -/
  | noPartial (index : ℤ)
deriving DecidableEq

def AssemblyError.message : AssemblyError → JsString
  | incomplete blockType =>
    js "cannot assemble incomplete block of type \"" ++ blockType.name ++ js "\""
  | noPartial index =>
    js "BlockAssembler invariant violated: no partial for index " ++ (Number.int index).text

/-- Incremental assembly. -/
structure BlockAssembler where
  partials : OrderedMap ℤ PartialBlock
  /-- The indexes, in the order in which they were first seen. -/
  order : List ℤ
  usage : Option TokenUsage
  finish? : Option FinishReason
  replay? : Option ReplayEnvelope

namespace BlockAssembler

def new : BlockAssembler := ⟨.empty, [], none, none, none⟩

/-- The partial of an index, which is new if there is none. -/
def ensure (a : BlockAssembler) (index : ℤ) (blockType : ContentBlockType) :
    PartialBlock × BlockAssembler :=
  match a.partials.get? index with
  | some partialBlock => (partialBlock, a)
  | none =>
    let partialBlock : PartialBlock := { blockType := blockType }
    (partialBlock, { a with
      partials := a.partials.set index partialBlock, order := a.order ++ [index] })

/-- Change the partial of an index, unless `block-end` has closed it. -/
def extend (a : BlockAssembler) (index : ℤ) (blockType : ContentBlockType)
    (f : PartialBlock → PartialBlock) : BlockAssembler :=
  let (partialBlock, a) := a.ensure index blockType
  if partialBlock.block.isSome then a
  else { a with partials := a.partials.set index (f partialBlock) }

/-- What a tool-call delta adds; an empty name is no name. -/
def addToolCallDelta (id : CallId) (name : Option JsString) (argumentsDelta : JsString)
    (p : PartialBlock) : PartialBlock :=
  { p with
    toolCallId := some id
    toolCallName := if name.getD [] = [] then p.toolCallName else name
    toolCallArguments := p.toolCallArguments ++ argumentsDelta }

/-- Feed one chunk into the assembly state. -/
def push (a : BlockAssembler) : StreamChunk → BlockAssembler
  | .blockStart index blockType =>
    if (a.partials.get? index).isSome then a
    else { a with
      order := a.order ++ [index], partials := a.partials.set index { blockType := blockType } }
  | .textDelta index text => a.extend index .text fun p ↦ { p with text := p.text ++ text }
  | .reasoningDelta index text =>
    a.extend index .reasoning fun p ↦ { p with text := p.text ++ text }
  | .toolCallDelta index id name argumentsDelta =>
    a.extend index .toolCall (addToolCallDelta id name argumentsDelta)
  | .blockEnd index block => a.extend index block.type fun p ↦ { p with block := some block }
  | .usage usage => { a with usage := some usage }
  | .finish reason replayState => { a with finish? := some reason, replay? := replayState }

def pushAll (chunks : List StreamChunk) : BlockAssembler := chunks.foldl push new

/-- The block of a partial. -/
def assemble (p : PartialBlock) (index : ℤ) : Except AssemblyError ContentBlock :=
  match p.block with
  | some block => .ok block
  | none =>
    match p.blockType with
    | .text => .ok (.text p.text)
    | .reasoning => .ok (.reasoning p.text)
    | .toolCall => .ok (.toolCall
        (p.toolCallId.getD (js "call-" ++ (Number.int index).text)) (p.toolCallName.getD [])
        p.toolCallArguments)
    | blockType => .error (.incomplete blockType)

/-- The block of an index. -/
def assembleAt (a : BlockAssembler) (index : ℤ) : Except AssemblyError ContentBlock :=
  match a.partials.get? index with
  | none => .error (.noPartial index)
  | some p => assemble p index

/-- The blocks held, with their indexes and before anything is dropped. -/
def held (a : BlockAssembler) : List (ℤ × Except AssemblyError ContentBlock) :=
  a.order.map fun index ↦ (index, a.assembleAt index)

/-- `finish`: a stream that ended without one has stopped. -/
def finish (a : BlockAssembler) : FinishReason := a.finish?.getD .stop

/-- Truncation drops tool calls, which cannot be executed safely. -/
def kept (a : BlockAssembler) (block : ContentBlock) : Bool :=
  a.finish ≠ .maxTokens || block.type ≠ .toolCall

/-- The entries of `entries` at the positions of blocks that are kept. -/
def keptEntries (a : BlockAssembler) (all : List ContentBlock) (entries : List Json) : List Json :=
  ((all.zip entries).filter fun p ↦ a.kept p.1).map Prod.snd

/-- The one keep/drop decision for blocks and replay entries. -/
def assembled (a : BlockAssembler) :
    Except AssemblyError (List ContentBlock × Option ReplayEnvelope) :=
  match a.order.mapM a.assembleAt with
  | .error e => .error e
  | .ok all =>
    let blocks := all.filter a.kept
    match a.replay? with
    | none => .ok (blocks, none)
    | some envelope =>
      match envelope.blocks with
      | none => .ok (blocks, some envelope)
      | some entries =>
        if entries.length ≠ all.length then .ok (blocks, none)
        else if a.finish ≠ .maxTokens ∨ blocks.length = all.length then .ok (blocks, some envelope)
        else .ok (blocks, some ⟨envelope.response, some (a.keptEntries all entries)⟩)

/-- `blocks()` -/
def blocks (a : BlockAssembler) : Except AssemblyError (List ContentBlock) :=
  a.assembled.map Prod.fst

/-- `replayState` -/
def replayState (a : BlockAssembler) : Except AssemblyError (Option ReplayEnvelope) :=
  a.assembled.map Prod.snd

end BlockAssembler

end XxAgent.Llm
