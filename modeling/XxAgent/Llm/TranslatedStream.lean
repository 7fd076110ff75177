import XxAgent.Llm.StreamKept

/-!
# Translating DeepSeek streams

Wire chunks become stream chunks. Reasoning, content and each tool-call index is a channel with one
block, which is opened by the first fragment of its channel and stays open until the stream is done.
-/

namespace XxAgent.Llm

open Ecma

/-! ## The wire format -/

/-- A fragment of the function of a tool call. -/
structure WireFunctionDelta where
  name : Option JsString
  arguments : Option JsString

/-- A streamed fragment of one tool call. -/
structure WireToolCallDelta where
  /-- Fragments that share an index are of one call. -/
  index : Number
  id : Option JsString
  function : Option WireFunctionDelta

/-- The incremental content of one choice; a field may be absent or `null`. -/
structure WireDelta where
  content : Option JsString := none
  reasoningContent : Option JsString := none
  toolCalls : Option (List WireToolCallDelta) := none

structure WireChoice where
  delta : Option WireDelta := none
  finishReason : Option JsString := none

/-- Token counts; the prompt tokens include the cache hits. -/
structure WireUsage where
  promptTokens : ℕ
  completionTokens : ℕ
  promptCacheHitTokens : Option ℕ := none
  /-- `prompt_tokens_details?.cached_tokens` -/
  cachedTokens : Option ℕ := none
  /-- `completion_tokens_details?.reasoning_tokens` -/
  reasoningTokens : Option ℕ := none

/-- One parsed payload. -/
structure WireChunk where
  choices : Option (List WireChoice) := none
  usage : Option WireUsage := none

/-- The terminal payload. -/
def DONE : JsString := js "[DONE]"

/-- Why a translation throws. -/
inductive TranslateError where
  | malformed (payload : JsString)
  | closed

def TranslateError.message : TranslateError → JsString
  | malformed payload => js "malformed SSE payload: " ++ payload.take 120
  | closed => js "SSE payload stream ended without [DONE]"

def TranslateError.code : TranslateError → JsString
  | malformed _ => js "MALFORMED_RESPONSE"
  | closed => js "STREAM_CLOSED"

/-! ## Mapping -/

def failure (message code : JsString) : Json :=
  .obj [(js "message", .str message), (js "code", .str code)]

def EMPTY_RESPONSE_CODE : JsString := js "EMPTY_RESPONSE"

def emptyResponse : FinishReason :=
  .error (failure (js "model returned a completed response with no content") EMPTY_RESPONSE_CODE)

def mapFinishReason (toUpperCase : JsString → JsString) (reason : JsString) : FinishReason :=
  if reason = js "stop" then .stop
  else if reason = js "tool_calls" then .toolCalls
  else if reason = js "length" then .maxTokens
  else .error (failure (js "model stopped: " ++ reason) (toUpperCase reason))

/-- The counts of the harness are disjoint. -/
def mapUsage (usage : WireUsage) : TokenUsage :=
  let cacheRead := usage.cachedTokens.or usage.promptCacheHitTokens
  { inputTokens := usage.promptTokens - (cacheRead.getD 0 : ℕ)
    outputTokens := usage.completionTokens
    cacheReadTokens := cacheRead
    cacheWriteTokens := none
    reasoningTokens := usage.reasoningTokens }

/-! ## Channels -/

/-- What a fragment belongs to. -/
inductive Channel where
  | reasoning
  | text
  | tool (index : Number)
deriving DecidableEq

inductive BlockKind where
  | text
  | reasoning
  | toolCall
deriving DecidableEq

def BlockKind.blockType : BlockKind → ContentBlockType
  | text => .text
  | reasoning => .reasoning
  | toolCall => .toolCall

def Channel.kind : Channel → BlockKind
  | reasoning => .reasoning
  | text => .text
  | tool _ => .toolCall

/-- A fragment of a channel. -/
structure Fragment where
  channel : Channel
  text : JsString
  id : Option JsString := none
  name : Option JsString := none

/-- Text that opens a block: an empty text does not. -/
def textFragment (channel : Channel) (text : Option JsString) : List Fragment :=
  match text with
  | none => []
  | some text => if text = [] then [] else [{ channel := channel, text := text }]

def WireToolCallDelta.fragment (call : WireToolCallDelta) : Fragment where
  channel := .tool call.index
  text := (call.function.bind WireFunctionDelta.arguments).getD []
  id := call.id
  name := call.function.bind WireFunctionDelta.name

/-- Reasoning first: thinking mode interleaves it before text. -/
def WireDelta.fragments (delta : WireDelta) : List Fragment :=
  textFragment .reasoning delta.reasoningContent ++ textFragment .text delta.content ++
    (delta.toolCalls.getD []).map WireToolCallDelta.fragment

def WireChoice.fragments (choice : WireChoice) : List Fragment :=
  (choice.delta.map WireDelta.fragments).getD []

/-! ## Translation -/

/-- One open block under assembly. -/
structure TranslateBlock where
  index : ℕ
  kind : BlockKind
  text : JsString := []
  callId : Option JsString := none
  name : Option JsString := none

/-- What `translate` keeps. The variables refer to blocks by their place in `order`. -/
structure TranslateState where
  nextIndex : ℕ
  textBlock : Option ℕ
  reasoningBlock : Option ℕ
  toolBlocks : OrderedMap Number ℕ
  order : List TranslateBlock
  pendingFinish : Option FinishReason
  pendingUsage : Option TokenUsage

def closeBlock (block : TranslateBlock) : ContentBlock :=
  match block.kind with
  | .text => .text block.text
  | .reasoning => .reasoning block.text
  | .toolCall => .toolCall (block.callId.getD []) (block.name.getD []) block.text

namespace TranslateState

def initial : TranslateState := ⟨0, none, none, .empty, [], none, none⟩

/-- The block of a channel. -/
def blockOf (s : TranslateState) : Channel → Option ℕ
  | .reasoning => s.reasoningBlock
  | .text => s.textBlock
  | .tool index => s.toolBlocks.get? index

/-- Open the block of a channel. -/
def opened (s : TranslateState) (channel : Channel) : TranslateState :=
  let place := s.order.length
  let s : TranslateState := { s with
    nextIndex := s.nextIndex + 1
    order := s.order ++ [{ index := s.nextIndex, kind := channel.kind }] }
  match channel with
  | .reasoning => { s with reasoningBlock := some place }
  | .text => { s with textBlock := some place }
  | .tool index => { s with toolBlocks := s.toolBlocks.set index place }

end TranslateState

/-- What a fragment adds to its block. -/
def TranslateBlock.add (block : TranslateBlock) (fragment : Fragment) : TranslateBlock :=
  { block with
    text := block.text ++ fragment.text
    callId := fragment.id.or block.callId
    name := fragment.name.or block.name }

/-- The delta of a fragment that its block has taken. -/
def TranslateBlock.delta (block : TranslateBlock) (fragment : Fragment) : StreamChunk :=
  match block.kind with
  | .reasoning => .reasoningDelta block.index fragment.text
  | .text => .textDelta block.index fragment.text
  | .toolCall => .toolCallDelta block.index (block.callId.getD []) block.name fragment.text

namespace TranslateState

/-- A fragment whose block is at this place. -/
def extended (s : TranslateState) (place : ℕ) (fragment : Fragment) :
    TranslateState × List StreamChunk :=
  let s := { s with order := s.order.modify place (·.add fragment) }
  (s, (s.order[place]?).toList.map (·.delta fragment))

/-- One fragment: the block of its channel is opened if there is none. -/
def feed (s : TranslateState) (fragment : Fragment) : TranslateState × List StreamChunk :=
  match s.blockOf fragment.channel with
  | some place => s.extended place fragment
  | none =>
    let (t, deltas) := (s.opened fragment.channel).extended s.order.length fragment
    (t, .blockStart s.nextIndex fragment.channel.kind.blockType :: deltas)

/-- The fragments of a choice, one after the other. -/
def feedAll (s : TranslateState) : List Fragment → TranslateState × List StreamChunk
  | [] => (s, [])
  | fragment :: rest =>
    let (s, chunks) := s.feed fragment
    let (s, more) := feedAll s rest
    (s, chunks ++ more)

variable (toUpperCase : JsString → JsString)

def pushChoice (s : TranslateState) (choice : WireChoice) : TranslateState × List StreamChunk :=
  let (s, chunks) := s.feedAll choice.fragments
  match choice.finishReason with
  | none => (s, chunks)
  | some reason => ({ s with pendingFinish := some (mapFinishReason toUpperCase reason) }, chunks)

def pushChoices (s : TranslateState) : List WireChoice → TranslateState × List StreamChunk
  | [] => (s, [])
  | choice :: rest =>
    let (s, chunks) := s.pushChoice toUpperCase choice
    let (s, more) := pushChoices s rest
    (s, chunks ++ more)

/-- One parsed payload; the latest usage is kept. -/
def pushChunk (s : TranslateState) (chunk : WireChunk) : TranslateState × List StreamChunk :=
  let (s, chunks) := s.pushChoices toUpperCase (chunk.choices.getD [])
  match chunk.usage with
  | none => (s, chunks)
  | some usage => ({ s with pendingUsage := some (mapUsage usage) }, chunks)

/-- The reason that is reported: a stop without any block is no completion. -/
def finishReason (s : TranslateState) : FinishReason :=
  let reason := s.pendingFinish.getD .stop
  if reason = .stop ∧ s.order = [] then emptyResponse else reason

/-- What follows `[DONE]`: the ends of the blocks, the usage and the finish. -/
def done (s : TranslateState) : List StreamChunk :=
  s.order.map (fun block ↦ .blockEnd block.index (closeBlock block)) ++
    (s.pendingUsage.toList.map .usage ++ [.finish s.finishReason none])

end TranslateState

/-- What a translation yields, and how it ends. -/
structure Translated where
  chunks : List StreamChunk
  thrown : Option TranslateError

section Translate

variable (asWireChunk : Json → WireChunk) (toUpperCase : JsString → JsString)

/-- The payloads, one after the other. A payload is taken for a wire chunk without a check. -/
def translateFrom (s : TranslateState) : List JsString → Translated
  | [] => ⟨[], some .closed⟩
  | payload :: rest =>
    if payload = DONE then ⟨s.done, none⟩
    else
      match parse payload with
      | none => ⟨[], some (.malformed payload)⟩
      | some value =>
        let (s, chunks) := s.pushChunk toUpperCase (asWireChunk value)
        let translated := translateFrom s rest
        ⟨chunks ++ translated.chunks, translated.thrown⟩

def translate (payloads : List JsString) : Translated :=
  translateFrom asWireChunk toUpperCase .initial payloads

end Translate

/-!
## Translations are faithful

Each fragment of a wire chunk belongs to a channel, and the blocks of a translation are its channels
in the order in which they were first used. The state of `translate` is a function of the fragments
so far (`Holds`), and what it has yielded is a stream whose open blocks are those of the state
(`Emits`); one fragment keeps both. The end of the payloads closes the blocks in order.
-/

/-! ## Channels of fragments -/

/-- The channels in use, in the order of their first fragments. -/
def channels (fragments : List Fragment) : List Channel :=
  (fragments.map Fragment.channel).eraseDups

def ofChannel (channel : Channel) (fragments : List Fragment) : List Fragment :=
  fragments.filter fun fragment ↦ fragment.channel = channel

/-- The block of a channel: its fragments in order, and the id and the name received last. -/
def blockFor (fragments : List Fragment) (index : ℕ) (channel : Channel) : TranslateBlock where
  index := index
  kind := channel.kind
  text := (ofChannel channel fragments).flatMap Fragment.text
  callId := ((ofChannel channel fragments).filterMap Fragment.id).getLast?
  name := ((ofChannel channel fragments).filterMap Fragment.name).getLast?

section Channels

variable {fragments : List Fragment} {fragment : Fragment} {channel : Channel}

theorem mem_channels : channel ∈ channels fragments ↔ channel ∈ fragments.map Fragment.channel :=
  List.mem_eraseDups

theorem channels_concat (fragments : List Fragment) (fragment : Fragment) :
    channels (fragments ++ [fragment]) =
      if fragment.channel ∈ channels fragments then channels fragments
      else channels fragments ++ [fragment.channel] := by
  rw [channels, List.map_append, List.eraseDups_append, ← channels]
  by_cases hmem : fragment.channel ∈ fragments.map Fragment.channel
  · rw [if_pos (mem_channels.mpr hmem)]
    have hnil : [fragment.channel].removeAll (fragments.map Fragment.channel) = [] :=
      List.filter_eq_nil_iff.mpr (by simpa using hmem)
    rw [List.map_singleton, hnil, List.eraseDups_nil, List.append_nil]
  · rw [if_neg (mt mem_channels.mp hmem)]
    have hself : [fragment.channel].removeAll (fragments.map Fragment.channel)
        = [fragment.channel] := List.filter_eq_self.mpr (by simpa using hmem)
    rw [List.map_singleton, hself]
    rfl

theorem nodup_channels (fragments : List Fragment) : (channels fragments).Nodup := by
  induction fragments using List.reverseRecOn with
  | nil => exact List.nodup_nil
  | append_singleton fragments fragment ih =>
    rw [channels_concat]
    split_ifs with hmem
    · exact ih
    · rw [List.nodup_append]
      refine ⟨ih, List.nodup_singleton _, fun a ha b hb hab ↦ hmem ?_⟩
      rw [← List.mem_singleton.mp hb, ← hab]
      exact ha

theorem length_channels_append (front back : List Fragment) :
    (channels front).length ≤ (channels (front ++ back)).length := by
  rw [channels, channels, List.map_append, List.eraseDups_append, List.length_append]
  exact Nat.le_add_right _ _

theorem ofChannel_concat (channel : Channel) (fragments : List Fragment) (fragment : Fragment) :
    ofChannel channel (fragments ++ [fragment]) = ofChannel channel fragments ++
      if fragment.channel = channel then [fragment] else [] := by
  rw [ofChannel, List.filter_append, ← ofChannel]
  congr 1
  split_ifs with h <;> simp [h]

/-- A fragment is added to the block of its channel. -/
theorem blockFor_concat_self (fragments : List Fragment) (index : ℕ) (fragment : Fragment) :
    blockFor (fragments ++ [fragment]) index fragment.channel
      = (blockFor fragments index fragment.channel).add fragment := by
  have hlast {α : Type} (l : List α) (a : Option α) :
      (l ++ a.toList).getLast? = a.or l.getLast? := by
    cases a <;> simp
  have hsingle {α : Type} (f : Fragment → Option α) :
      [fragment].filterMap f = (f fragment).toList := by
    cases h : f fragment <;> simp [h]
  simp only [blockFor, TranslateBlock.add, ofChannel_concat, if_true, List.flatMap_append,
    List.filterMap_append, List.flatMap_singleton, hsingle, hlast]

/-- The other blocks are left alone. -/
theorem blockFor_concat_of_ne (fragments : List Fragment) (index : ℕ)
    (h : fragment.channel ≠ channel) :
    blockFor (fragments ++ [fragment]) index channel = blockFor fragments index channel := by
  rw [blockFor, blockFor, ofChannel_concat, if_neg h, List.append_nil]

/-- A channel without fragments has an empty block. -/
theorem blockFor_of_not_mem (h : channel ∉ channels fragments) (index : ℕ) :
    blockFor fragments index channel = { index := index, kind := channel.kind } := by
  have hnil : ofChannel channel fragments = [] := by
    rw [ofChannel, List.filter_eq_nil_iff]
    intro fragment hmem
    rw [decide_eq_true_iff]
    rintro rfl
    exact h (mem_channels.mpr (List.mem_map_of_mem hmem))
  rw [blockFor, hnil]
  rfl

end Channels

/-! ## The state -/

/-- The state is that of these fragments. -/
structure Holds (s : TranslateState) (fragments : List Fragment) : Prop where
  next : s.nextIndex = s.order.length
  length : s.order.length = (channels fragments).length
  blocks : ∀ i channel, (channels fragments)[i]? = some channel →
    s.order[i]? = some (blockFor fragments i channel)
  places : ∀ channel i, s.blockOf channel = some i ↔ (channels fragments)[i]? = some channel

section State

variable {s : TranslateState} {fragments : List Fragment} {fragment : Fragment} {place : ℕ}

theorem holds_initial : Holds .initial [] where
  next := rfl
  length := rfl
  blocks := by simp [channels]
  places := by
    intro channel i
    cases channel <;> simp [TranslateState.blockOf, TranslateState.initial, channels,
      OrderedMap.get?]

/-- The state after a block is opened. -/
theorem blockOf_opened (s : TranslateState) (opened channel : Channel) :
    (s.opened opened).blockOf channel =
      if channel = opened then some s.order.length else s.blockOf channel := by
  cases opened with
  | reasoning => cases channel <;> simp [TranslateState.opened, TranslateState.blockOf]
  | text => cases channel <;> simp [TranslateState.opened, TranslateState.blockOf]
  | tool index =>
    cases channel with
    | reasoning => simp [TranslateState.opened, TranslateState.blockOf]
    | text => simp [TranslateState.opened, TranslateState.blockOf]
    | tool other =>
      simp [TranslateState.opened, TranslateState.blockOf, OrderedMap.get?_set]

theorem order_opened (s : TranslateState) (channel : Channel) :
    (s.opened channel).order = s.order ++ [{ index := s.nextIndex, kind := channel.kind }] := by
  cases channel <;> rfl

theorem nextIndex_opened (s : TranslateState) (channel : Channel) :
    (s.opened channel).nextIndex = s.nextIndex + 1 := by
  cases channel <;> rfl

theorem blockOf_extended (s : TranslateState) (place : ℕ) (fragment : Fragment)
    (channel : Channel) : (s.extended place fragment).1.blockOf channel = s.blockOf channel := by
  cases channel <;> rfl

theorem getElem?_order_extended (s : TranslateState) (place : ℕ) (fragment : Fragment) (i : ℕ) :
    (s.extended place fragment).1.order[i]?
      = s.order[i]?.map fun block ↦ if place = i then block.add fragment else block := by
  rw [TranslateState.extended, List.getElem?_modify]
  rfl

/-- A fragment of a channel whose block is open. -/
theorem Holds.extended (h : Holds s fragments)
    (hplace : (channels fragments)[place]? = some fragment.channel) :
    Holds (s.extended place fragment).1 (fragments ++ [fragment]) := by
  have hmem : fragment.channel ∈ channels fragments := List.mem_of_getElem? hplace
  have hsame : channels (fragments ++ [fragment]) = channels fragments := by
    rw [channels_concat, if_pos hmem]
  refine ⟨?_, ?_, fun i channel hi ↦ ?_, fun channel i ↦ ?_⟩
  · simp only [TranslateState.extended, List.length_modify]
    exact h.next
  · simp only [TranslateState.extended, List.length_modify, hsame]
    exact h.length
  · rw [hsame] at hi
    rw [getElem?_order_extended, h.blocks i channel hi, Option.map_some]
    by_cases hi' : place = i
    · subst hi'
      obtain rfl : fragment.channel = channel := Option.some.inj (hplace.symm.trans hi)
      rw [if_pos rfl, blockFor_concat_self]
    · have hne : fragment.channel ≠ channel := by
        rintro rfl
        exact hi' ((List.getElem?_inj (List.getElem?_eq_some_iff.mp hplace).1
          (nodup_channels fragments)).mp (hplace.trans hi.symm))
      rw [if_neg hi', blockFor_concat_of_ne fragments i hne]
  · rw [blockOf_extended, hsame]
    exact h.places channel i

/-- A channel that is used for the first time. -/
theorem Holds.opened (h : Holds s fragments) (hnew : s.blockOf fragment.channel = none) :
    Holds ((s.opened fragment.channel).extended s.order.length fragment).1
      (fragments ++ [fragment]) := by
  have hnotin : fragment.channel ∉ channels fragments := by
    intro hmem
    obtain ⟨i, hi⟩ := List.mem_iff_getElem?.mp hmem
    rw [(h.places _ _).mpr hi] at hnew
    simp at hnew
  have hchannels : channels (fragments ++ [fragment])
      = channels fragments ++ [fragment.channel] := by
    rw [channels_concat, if_neg hnotin]
  refine ⟨?_, ?_, fun i channel hi ↦ ?_, fun channel i ↦ ?_⟩
  · simp only [TranslateState.extended, List.length_modify, order_opened, nextIndex_opened,
      List.length_append, List.length_singleton, h.next]
  · simp only [TranslateState.extended, List.length_modify, order_opened, hchannels,
      List.length_append, List.length_singleton, h.length]
  · rw [hchannels] at hi
    rw [getElem?_order_extended, order_opened]
    by_cases hlt : i < (channels fragments).length
    · rw [List.getElem?_append_left hlt] at hi
      have hne : fragment.channel ≠ channel := by
        rintro rfl
        exact hnotin (List.mem_of_getElem? hi)
      rw [List.getElem?_append_left (h.length ▸ hlt), h.blocks i channel hi, Option.map_some,
        if_neg (by rw [h.length]; omega), blockFor_concat_of_ne fragments i hne]
    · obtain rfl : i = s.order.length := by
        obtain ⟨hlt', -⟩ := List.getElem?_eq_some_iff.mp hi
        rw [List.length_append, List.length_singleton] at hlt'
        rw [h.length]
        omega
      rw [h.length, List.getElem?_concat_length] at hi
      obtain rfl := Option.some.inj hi
      rw [List.getElem?_concat_length, Option.map_some, if_pos rfl, blockFor_concat_self,
        blockFor_of_not_mem hnotin, h.next]
  · rw [blockOf_extended, blockOf_opened, hchannels]
    by_cases hchannel : channel = fragment.channel
    · subst hchannel
      rw [if_pos rfl, Option.some_inj, h.length]
      constructor
      · rintro rfl
        rw [List.getElem?_concat_length]
      · intro hi
        by_contra hne
        obtain ⟨hlt, -⟩ := List.getElem?_eq_some_iff.mp hi
        rw [List.length_append, List.length_singleton] at hlt
        rw [List.getElem?_append_left (by omega)] at hi
        exact hnotin (List.mem_of_getElem? hi)
    · rw [if_neg hchannel, h.places]
      constructor
      · intro hi
        rw [List.getElem?_append_left (List.getElem?_eq_some_iff.mp hi).1]
        exact hi
      · intro hi
        by_cases hlt : i < (channels fragments).length
        · rwa [List.getElem?_append_left hlt] at hi
        · have hmem := List.getElem?_append_right (not_lt.mp hlt) ▸ hi
          exact absurd (List.mem_singleton.mp (List.mem_of_getElem? hmem)) hchannel

theorem Holds.feed (h : Holds s fragments) (fragment : Fragment) :
    Holds (s.feed fragment).1 (fragments ++ [fragment]) := by
  rw [TranslateState.feed]
  cases hplace : s.blockOf fragment.channel with
  | some place => exact h.extended ((h.places _ _).mp hplace)
  | none => exact h.opened hplace

end State

/-! ## What is yielded -/

/-- The chunks yielded are a stream whose blocks are those of the state, all open. -/
structure Emits (s : TranslateState) (yielded : List StreamChunk) : Prop where
  accepted : ∃ g, validateChunks .initial yielded = .ok g ∧ g.usageSeen = false ∧
    g.finished = false ∧
    g.opened.entries = s.order.map fun block ↦ ((block.index : ℤ), block.kind.blockType)
  blocks : (streamBlocks yielded).map (fun b ↦ (b.index, b.content))
    = s.order.map fun block ↦ ((block.index : ℤ), none)

/-- The most blocks whose indexes are safe integers. -/
def maxBlocks : ℕ := 2 ^ 53

section Emits

variable {s : TranslateState} {fragments : List Fragment} {fragment : Fragment} {place : ℕ}
  {yielded : List StreamChunk} {g g' : StreamGrammar} {block : TranslateBlock}

theorem validateChunks_concat {chunk : StreamChunk} (h : validateChunks .initial yielded = .ok g)
    (hchunk : validateChunk g chunk = .ok g') :
    validateChunks .initial (yielded ++ [chunk]) = .ok g' :=
  validateChunks_append_eq_ok.mpr ⟨g, h, by rw [validateChunks, hchunk]; rfl⟩

theorem validateIndex_of_lt {index : ℕ} (h : index < maxBlocks) : validateIndex index = .ok () := by
  rw [validateIndex, if_pos]
  rw [maxBlocks] at h
  rw [Number.IsSafe, Number.maxSafe]
  omega

theorem index_of_holds (h : Holds s fragments) (hblock : block ∈ s.order) :
    block.index < (channels fragments).length ∧ s.order[block.index]? = some block := by
  obtain ⟨i, hi⟩ := List.mem_iff_getElem?.mp hblock
  obtain ⟨hlt, -⟩ := List.getElem?_eq_some_iff.mp hi
  rw [h.length] at hlt
  have hsame := h.blocks i _ (List.getElem?_eq_getElem hlt)
  rw [hi] at hsame
  rw [Option.some.inj hsame]
  exact ⟨hlt, hsame ▸ hi⟩

/-- A delta of an open block. -/
theorem validateChunk_delta (hget : g.opened.get? (block.index : ℤ) = some block.kind.blockType)
    (hlt : block.index < maxBlocks) (hfinished : g.finished = false) (fragment : Fragment) :
    validateChunk g (block.delta fragment) = .ok g := by
  have hdelta : validateDelta g block.index block.kind.blockType = .ok g := by
    rw [validateDelta, validateIndex_of_lt hlt]
    dsimp only
    rw [if_pos hget]
  rw [TranslateBlock.delta, validateChunk.eq_def, hfinished]
  cases hkind : block.kind with
  | text => rwa [hkind] at hdelta
  | reasoning => rwa [hkind] at hdelta
  | toolCall => rwa [hkind] at hdelta

/-- A delta neither opens nor closes a block. -/
theorem map_nextBlocks_delta (blocks : List StreamBlock) (block : TranslateBlock)
    (fragment : Fragment) :
    (nextBlocks blocks (block.delta fragment)).map (fun b ↦ (b.index, b.content))
      = blocks.map fun b ↦ (b.index, b.content) := by
  have hsame (f : StreamBlock → StreamBlock) (hf : ∀ b, ((f b).index, (f b).content)
      = (b.index, b.content)) :
      (atOpen block.index f blocks).map (fun b ↦ (b.index, b.content))
        = blocks.map fun b ↦ (b.index, b.content) := by
    rw [atOpen, List.map_map]
    refine List.map_congr_left fun b _ ↦ ?_
    rw [Function.comp_apply]
    split_ifs
    · exact hf b
    · rfl
  rw [TranslateBlock.delta]
  cases block.kind with
  | text => exact hsame _ fun _ ↦ rfl
  | reasoning => exact hsame _ fun _ ↦ rfl
  | toolCall => exact hsame _ fun _ ↦ rfl

theorem emits_initial : Emits .initial [] where
  accepted := ⟨.initial, rfl, rfl, rfl, rfl⟩
  blocks := rfl

/-- What a fragment adds changes neither the index nor the kind of a block. -/
theorem map_order_extended {α : Type} (s : TranslateState) (place : ℕ) (fragment : Fragment)
    (f : ℕ → BlockKind → α) :
    (s.extended place fragment).1.order.map (fun block ↦ f block.index block.kind)
      = s.order.map fun block ↦ f block.index block.kind := by
  refine List.ext_getElem? fun i ↦ ?_
  rw [List.getElem?_map, List.getElem?_map, getElem?_order_extended, Option.map_map]
  refine congrArg (Option.map · s.order[i]?) (funext fun block ↦ ?_)
  rw [Function.comp_apply]
  split_ifs <;> rfl

/-- A fragment whose block is open. -/
theorem Emits.extended (h : Emits s yielded) (fragment : Fragment)
    (hplace : s.order[place]? = some block)
    (hlt : block.index < maxBlocks) :
    Emits (s.extended place fragment).1 (yielded ++ (s.extended place fragment).2) := by
  obtain ⟨g, haccepted, husage, hfinished, hentries⟩ := h.accepted
  have hdeltas : (s.extended place fragment).2 = [(block.add fragment).delta fragment] := by
    have hget := getElem?_order_extended s place fragment place
    rw [hplace, Option.map_some, if_pos rfl] at hget
    change ((s.extended place fragment).1.order[place]?).toList.map (·.delta fragment) = _
    rw [hget]
    rfl
  have hopen : g.opened.get? ((block.add fragment).index : ℤ)
      = some (block.add fragment).kind.blockType := by
    rw [OrderedMap.get?_eq_some_iff, hentries]
    exact List.mem_map.mpr ⟨block, List.mem_of_getElem? hplace, rfl⟩
  rw [hdeltas]
  refine ⟨⟨g, validateChunks_concat haccepted (validateChunk_delta hopen hlt hfinished fragment),
    husage, hfinished, ?_⟩, ?_⟩
  · rw [hentries, map_order_extended s place fragment
      fun index kind ↦ ((index : ℤ), kind.blockType)]
  · rw [streamBlocks_concat, map_nextBlocks_delta, h.blocks,
      map_order_extended s place fragment fun index _ ↦ ((index : ℤ), none)]

/-- A block that is opened. -/
theorem Emits.opened (h : Emits s yielded) (hholds : Holds s fragments)
    (hlt : s.nextIndex < maxBlocks) (channel : Channel) :
    Emits (s.opened channel) (yielded ++ [.blockStart s.nextIndex channel.kind.blockType]) := by
  obtain ⟨g, haccepted, husage, hfinished, hentries⟩ := h.accepted
  have hnew : g.opened.get? (s.nextIndex : ℤ) = none := by
    rw [Option.eq_none_iff_forall_ne_some]
    intro blockType hget
    rw [OrderedMap.get?_eq_some_iff, hentries] at hget
    obtain ⟨block, hblock, heq⟩ := List.mem_map.mp hget
    have hindex : block.index = s.nextIndex := Int.ofNat_inj.mp (Prod.mk.inj heq).1
    have hlt' := (index_of_holds hholds hblock).1
    rw [hindex, hholds.next, hholds.length] at hlt'
    exact Nat.lt_irrefl _ hlt'
  refine ⟨⟨{ g with opened := g.opened.set s.nextIndex channel.kind.blockType },
    validateChunks_concat haccepted ?_, husage, hfinished, ?_⟩, ?_⟩
  · rw [validateChunk.eq_def, hfinished]
    simp only [validateIndex_of_lt hlt, hnew]
    rfl
  · rw [OrderedMap.entries_set_of_get?_eq_none hnew, hentries, order_opened, List.map_append]
    rfl
  · rw [streamBlocks_concat, nextBlocks, List.map_append, h.blocks, order_opened, List.map_append]
    rfl

/-- One fragment. -/
theorem Emits.feed (h : Emits s yielded) (hholds : Holds s fragments) (fragment : Fragment)
    (hmax : (channels (fragments ++ [fragment])).length ≤ maxBlocks) :
    Emits (s.feed fragment).1 (yielded ++ (s.feed fragment).2) := by
  rw [TranslateState.feed]
  cases hplace : s.blockOf fragment.channel with
  | some place =>
    have hchannel := (hholds.places _ _).mp hplace
    have hlt : place < maxBlocks := (List.getElem?_eq_some_iff.mp hchannel).1.trans_le
      ((length_channels_append fragments [fragment]).trans hmax)
    exact h.extended fragment (hholds.blocks place _ hchannel) hlt
  | none =>
    have hlt : s.nextIndex < maxBlocks := by
      have hopened := (hholds.opened hplace).length
      simp only [TranslateState.extended, List.length_modify, order_opened, List.length_append,
        List.length_singleton] at hopened
      rw [hholds.next]
      omega
    have hstarted := h.opened hholds hlt fragment.channel
    have hblock : (s.opened fragment.channel).order[s.order.length]?
        = some { index := s.nextIndex, kind := fragment.channel.kind } := by
      rw [order_opened, List.getElem?_concat_length]
    have hextended := hstarted.extended fragment hblock hlt
    rw [List.append_assoc, List.singleton_append] at hextended
    exact hextended

end Emits

end XxAgent.Llm
