import XxAgent.Llm.TranslatedStream

/-!
# Whole translations

A translation that reads `[DONE]` is a stream that the checker accepts and the assembler gives back:
one block for each channel, in the order of their first use. Every other translation throws, and
without a finish.
-/

namespace XxAgent.Llm

open Ecma

/-! ## The end of a translation -/

section Ends

variable {g : StreamGrammar} {blocks : List TranslateBlock} {a : BlockAssembler}

theorem type_closeBlock (block : TranslateBlock) :
    (closeBlock block).type = block.kind.blockType := by
  rw [closeBlock]
  cases block.kind <;> rfl

def blockEnds (blocks : List TranslateBlock) : List StreamChunk :=
  blocks.map fun block ↦ .blockEnd block.index (closeBlock block)

/-- The open blocks are closed in order. -/
theorem validateChunks_blockEnds (hlt : ∀ block ∈ blocks, block.index < maxBlocks)
    (hfinished : g.finished = false)
    (hentries : g.opened.entries
      = blocks.map fun block ↦ ((block.index : ℤ), block.kind.blockType)) :
    ∃ g', validateChunks g (blockEnds blocks) = .ok g' ∧ g'.opened.entries = [] ∧
      g'.usageSeen = g.usageSeen ∧ g'.finished = false := by
  induction blocks generalizing g with
  | nil => exact ⟨g, rfl, hentries, rfl, hfinished⟩
  | cons block rest ih =>
    rw [List.forall_mem_cons] at hlt
    rw [List.map_cons] at hentries
    have hopen : g.opened.get? (block.index : ℤ) = some block.kind.blockType := by
      rw [OrderedMap.get?_eq_some_iff, hentries]
      exact List.mem_cons_self
    have hchunk : validateChunk g (.blockEnd block.index (closeBlock block))
        = .ok { g with opened := g.opened.delete block.index } := by
      rw [validateChunk.eq_def, hfinished]
      simp only [validateIndex_of_lt hlt.1, hopen, type_closeBlock]
      rw [if_neg (by simp), if_neg (by simp)]
    obtain ⟨g', hrest, hclosed, husage, hfinished'⟩ :=
      ih (g := { g with opened := g.opened.delete block.index }) hlt.2 hfinished
        (OrderedMap.entries_delete_of_head hentries)
    refine ⟨g', ?_, hclosed, husage, hfinished'⟩
    rw [blockEnds, List.map_cons, validateChunks, hchunk]
    exact hrest

/-- What the end of a block makes of a block of the stream. -/
def endPair (block : TranslateBlock) (p : ℤ × Option ContentBlock) : ℤ × Option ContentBlock :=
  if p.1 = block.index ∧ p.2 = none then (p.1, some (closeBlock block)) else p

theorem map_nextBlocks_blockEnd (streamed : List StreamBlock) (block : TranslateBlock) :
    (nextBlocks streamed (.blockEnd block.index (closeBlock block))).map
        (fun b ↦ (b.index, b.content))
      = (streamed.map fun b ↦ (b.index, b.content)).map (endPair block) := by
  rw [nextBlocks, atOpen, List.map_map, List.map_map]
  refine List.map_congr_left fun b _ ↦ ?_
  rw [Function.comp_apply, Function.comp_apply, endPair]
  split_ifs <;> rfl

theorem map_foldl_blockEnds (streamed : List StreamBlock) (blocks : List TranslateBlock) :
    ((blockEnds blocks).foldl nextBlocks streamed).map (fun b ↦ (b.index, b.content))
      = (streamed.map fun b ↦ (b.index, b.content)).map
          fun p ↦ blocks.foldl (fun p block ↦ endPair block p) p := by
  induction blocks generalizing streamed with
  | nil => simp [blockEnds]
  | cons block rest ih =>
    rw [blockEnds, List.map_cons, List.foldl_cons, ← blockEnds, ih, map_nextBlocks_blockEnd,
      List.map_map]
    rfl

theorem foldl_endPair_closed (blocks : List TranslateBlock) (index : ℤ) (content : ContentBlock) :
    blocks.foldl (fun p block ↦ endPair block p) (index, some content) = (index, some content) := by
  induction blocks with
  | nil => rfl
  | cons block rest ih =>
    rw [List.foldl_cons, endPair, if_neg (by simp), ih]

/-- Each block is closed by its own end. -/
theorem foldl_endPair {block : TranslateBlock} (hmem : block ∈ blocks)
    (hnodup : (blocks.map TranslateBlock.index).Nodup) :
    blocks.foldl (fun p block ↦ endPair block p) ((block.index : ℤ), none)
      = ((block.index : ℤ), some (closeBlock block)) := by
  induction blocks with
  | nil => cases hmem
  | cons first rest ih =>
    rw [List.map_cons, List.nodup_cons] at hnodup
    rw [List.foldl_cons, endPair]
    by_cases hindex : block.index = first.index
    · obtain rfl : block = first := by
        rcases List.mem_cons.mp hmem with rfl | hrest
        · rfl
        · exact absurd (hindex ▸ List.mem_map_of_mem hrest) hnodup.1
      rw [if_pos (And.intro rfl rfl), foldl_endPair_closed]
    · have hne : ¬ ((block.index : ℤ) = first.index ∧ (none : Option ContentBlock) = none) :=
        fun h ↦ hindex (Int.ofNat_inj.mp h.1)
      rw [if_neg hne]
      refine ih ((List.mem_cons.mp hmem).resolve_left ?_) hnodup.2
      rintro rfl
      exact hindex rfl

/-- The usage that the assembler holds after a chunk. -/
theorem usage_push (a : BlockAssembler) (chunk : StreamChunk) :
    (a.push chunk).usage = match chunk with
      | .usage usage => some usage
      | _ => a.usage := by
  have hextend (index : ℤ) (blockType : ContentBlockType) (f : PartialBlock → PartialBlock) :
      (a.extend index blockType f).usage = a.usage := by
    rw [BlockAssembler.extend, BlockAssembler.ensure]
    cases a.partials.get? index with
    | none => rfl
    | some p =>
      dsimp only
      split_ifs <;> rfl
  cases chunk with
  | blockStart index blockType =>
    rw [BlockAssembler.push]
    split_ifs <;> rfl
  | textDelta index text => exact hextend _ _ _
  | reasoningDelta index text => exact hextend _ _ _
  | toolCallDelta index id name argumentsDelta => exact hextend _ _ _
  | blockEnd index block => exact hextend _ _ _
  | usage usage => rfl
  | finish reason replayState => rfl

/-- A stream that has reported no usage leaves none with the assembler. -/
theorem usage_pushAll {chunks : List StreamChunk} (h : validateChunks .initial chunks = .ok g)
    (hunseen : g.usageSeen = false) : (BlockAssembler.pushAll chunks).usage = none := by
  refine validateChunks_induction (motive := fun chunks g ↦ g.usageSeen = false →
    (BlockAssembler.pushAll chunks).usage = none) (fun _ ↦ rfl) ?_ h hunseen
  intro front m chunk next ih hfinished haccepts hnext
  rw [BlockAssembler.pushAll, List.foldl_concat, ← BlockAssembler.pushAll, usage_push]
  cases haccepts with
  | usage usage => simp at hnext
  | blockStart => exact ih hnext
  | textDelta => exact ih hnext
  | reasoningDelta => exact ih hnext
  | toolCallDelta => exact ih hnext
  | blockEnd => exact ih hnext
  | finish => exact ih hnext

end Ends

/-! ## What is expected -/

/-- The fragments of wire chunks. -/
def fragmentsOf (chunks : List WireChunk) : List Fragment :=
  chunks.flatMap fun chunk ↦ (chunk.choices.getD []).flatMap WireChoice.fragments

def lastFinish (chunks : List WireChunk) : Option JsString :=
  (chunks.flatMap fun chunk ↦
    (chunk.choices.getD []).filterMap WireChoice.finishReason).getLast?

def lastUsage (chunks : List WireChunk) : Option WireUsage :=
  (chunks.filterMap WireChunk.usage).getLast?

/-- The block of each channel, in the order in which the channels were first used. -/
def expectedBlocks (chunks : List WireChunk) : List ContentBlock :=
  (channels (fragmentsOf chunks)).map fun channel ↦
    closeBlock (blockFor (fragmentsOf chunks) 0 channel)

/-- The mapping of the last finish reason; a stop without any block is no completion. -/
def expectedFinish (toUpperCase : JsString → JsString) (chunks : List WireChunk) : FinishReason :=
  let reason := ((lastFinish chunks).map (mapFinishReason toUpperCase)).getD .stop
  if reason = .stop ∧ channels (fragmentsOf chunks) = [] then emptyResponse else reason

/-- A translation that says what the chunks say. -/
structure Faithful (toUpperCase : JsString → JsString) (chunks : List WireChunk)
    (translated : Translated) : Prop where
  returns : translated.thrown = none
  accepted : validateStream translated.chunks = .ok ()
  /-- Truncation drops tool calls. -/
  blocks : (BlockAssembler.pushAll translated.chunks).blocks
    = .ok ((expectedBlocks chunks).filter (keeps (expectedFinish toUpperCase chunks)))
  finish : (BlockAssembler.pushAll translated.chunks).finish?
    = some (expectedFinish toUpperCase chunks)
  usage : (BlockAssembler.pushAll translated.chunks).usage = (lastUsage chunks).map mapUsage

/-- A translation that fails. -/
structure Fails (translated : Translated) : Prop where
  throws : translated.thrown.isSome
  unfinished : ∀ reason replayState, .finish reason replayState ∉ translated.chunks

/-! ## Whole chunks -/

/-- What is known of a state in the middle of a chunk. -/
structure Feeding (s : TranslateState) (fragments : List Fragment) (yielded : List StreamChunk) :
    Prop where
  holds : Holds s fragments
  emits : (channels fragments).length ≤ maxBlocks → Emits s yielded
  unfinished : ∀ reason replayState, .finish reason replayState ∉ yielded

/-- What is known of a state between two chunks. -/
structure Translating (toUpperCase : JsString → JsString) (s : TranslateState)
    (chunks : List WireChunk) (yielded : List StreamChunk) : Prop where
  feeding : Feeding s (fragmentsOf chunks) yielded
  finish : s.pendingFinish = (lastFinish chunks).map (mapFinishReason toUpperCase)
  usage : s.pendingUsage = (lastUsage chunks).map mapUsage

section Runs

variable {toUpperCase : JsString → JsString} {s : TranslateState} {fragments : List Fragment}
  {yielded : List StreamChunk} {chunks : List WireChunk}

theorem finish_not_mem_extended (s : TranslateState) (place : ℕ) (fragment : Fragment)
    (reason : FinishReason) (replayState : Option ReplayEnvelope) :
    .finish reason replayState ∉ (s.extended place fragment).2 := by
  intro hmem
  obtain ⟨block, -, heq⟩ := List.mem_map.mp hmem
  rw [TranslateBlock.delta] at heq
  split at heq <;> simp at heq

theorem finish_not_mem_feed (s : TranslateState) (fragment : Fragment) (reason : FinishReason)
    (replayState : Option ReplayEnvelope) :
    .finish reason replayState ∉ (s.feed fragment).2 := by
  rw [TranslateState.feed]
  cases s.blockOf fragment.channel with
  | some place => exact finish_not_mem_extended s place fragment reason replayState
  | none =>
    rw [List.mem_cons, not_or]
    exact ⟨by simp, finish_not_mem_extended _ _ fragment reason replayState⟩

theorem feeding_initial : Feeding .initial [] [] :=
  ⟨holds_initial, fun _ ↦ emits_initial, fun _ _ ↦ List.not_mem_nil⟩

theorem Feeding.feed (h : Feeding s fragments yielded) (fragment : Fragment) :
    Feeding (s.feed fragment).1 (fragments ++ [fragment]) (yielded ++ (s.feed fragment).2) where
  holds := h.holds.feed fragment
  emits hmax := (h.emits ((length_channels_append _ _).trans hmax)).feed h.holds fragment hmax
  unfinished reason replayState hmem := (List.mem_append.mp hmem).elim
    (h.unfinished reason replayState) (finish_not_mem_feed s fragment reason replayState)

theorem Feeding.feedAll (h : Feeding s fragments yielded) (more : List Fragment) :
    Feeding (s.feedAll more).1 (fragments ++ more) (yielded ++ (s.feedAll more).2) := by
  induction more generalizing s fragments yielded with
  | nil => simpa [TranslateState.feedAll] using h
  | cons fragment rest ih =>
    have hrest := ih (h.feed fragment)
    rw [List.append_assoc, List.singleton_append, List.append_assoc] at hrest
    exact hrest

/-- Neither the finish reason nor the usage is part of what a fragment touches. -/
theorem pending_feedAll (s : TranslateState) (more : List Fragment) :
    (s.feedAll more).1.pendingFinish = s.pendingFinish ∧
      (s.feedAll more).1.pendingUsage = s.pendingUsage := by
  induction more generalizing s with
  | nil => exact ⟨rfl, rfl⟩
  | cons fragment rest ih =>
    have hfeed : (s.feed fragment).1.pendingFinish = s.pendingFinish ∧
        (s.feed fragment).1.pendingUsage = s.pendingUsage := by
      rw [TranslateState.feed]
      cases s.blockOf fragment.channel with
      | some place => exact ⟨rfl, rfl⟩
      | none => cases fragment.channel <;> exact ⟨rfl, rfl⟩
    obtain ⟨hfinish, husage⟩ := ih (s.feed fragment).1
    exact ⟨hfinish.trans hfeed.1, husage.trans hfeed.2⟩

/-- The pending fields are no part of what is known in the middle of a chunk. -/
theorem Feeding.withPending (h : Feeding s fragments yielded) (finish : Option FinishReason)
    (usage : Option TokenUsage) :
    Feeding { s with pendingFinish := finish, pendingUsage := usage } fragments yielded where
  holds := ⟨h.holds.next, h.holds.length, h.holds.blocks, fun channel i ↦ by
    rw [← h.holds.places]
    cases channel <;> rfl⟩
  emits hmax := ⟨(h.emits hmax).accepted, (h.emits hmax).blocks⟩
  unfinished := h.unfinished

theorem Feeding.pushChoice (h : Feeding s fragments yielded) (toUpperCase : JsString → JsString)
    (choice : WireChoice) :
    Feeding (s.pushChoice toUpperCase choice).1 (fragments ++ choice.fragments)
      (yielded ++ (s.pushChoice toUpperCase choice).2) := by
  have hall := h.feedAll choice.fragments
  rw [TranslateState.pushChoice]
  cases choice.finishReason with
  | none => exact hall
  | some reason => exact hall.withPending _ _

theorem pending_pushChoice (toUpperCase : JsString → JsString) (s : TranslateState)
    (choice : WireChoice) :
    (s.pushChoice toUpperCase choice).1.pendingFinish
        = (choice.finishReason.map (mapFinishReason toUpperCase)).or s.pendingFinish ∧
      (s.pushChoice toUpperCase choice).1.pendingUsage = s.pendingUsage := by
  obtain ⟨hfinish, husage⟩ := pending_feedAll s choice.fragments
  rw [TranslateState.pushChoice]
  cases choice.finishReason with
  | none => exact ⟨hfinish, husage⟩
  | some reason => exact ⟨rfl, husage⟩

theorem Feeding.pushChoices (h : Feeding s fragments yielded)
    (toUpperCase : JsString → JsString) (choices : List WireChoice) :
    Feeding (s.pushChoices toUpperCase choices).1
      (fragments ++ choices.flatMap WireChoice.fragments)
      (yielded ++ (s.pushChoices toUpperCase choices).2) := by
  induction choices generalizing s fragments yielded with
  | nil => simpa [TranslateState.pushChoices] using h
  | cons choice rest ih =>
    have hrest := ih (h.pushChoice toUpperCase choice)
    rw [List.append_assoc, List.append_assoc, ← List.flatMap_cons] at hrest
    exact hrest

theorem pending_pushChoices (toUpperCase : JsString → JsString) (s : TranslateState)
    (choices : List WireChoice) :
    (s.pushChoices toUpperCase choices).1.pendingFinish
        = ((choices.filterMap WireChoice.finishReason).getLast?.map
            (mapFinishReason toUpperCase)).or s.pendingFinish ∧
      (s.pushChoices toUpperCase choices).1.pendingUsage = s.pendingUsage := by
  induction choices generalizing s with
  | nil => exact ⟨rfl, rfl⟩
  | cons choice rest ih =>
    obtain ⟨hfinish, husage⟩ := ih (s.pushChoice toUpperCase choice).1
    obtain ⟨hfirst, hkept⟩ := pending_pushChoice toUpperCase s choice
    refine ⟨hfinish.trans ?_, husage.trans hkept⟩
    rw [hfirst]
    cases hreason : choice.finishReason with
    | none => simp [hreason]
    | some reason =>
      rw [List.filterMap_cons_some hreason, List.getLast?_cons]
      cases (rest.filterMap WireChoice.finishReason).getLast? <;> rfl

theorem fragmentsOf_concat (chunks : List WireChunk) (chunk : WireChunk) :
    fragmentsOf (chunks ++ [chunk])
      = fragmentsOf chunks ++ (chunk.choices.getD []).flatMap WireChoice.fragments := by
  rw [fragmentsOf, List.flatMap_append, List.flatMap_singleton, ← fragmentsOf]

/-- One wire chunk. -/
theorem Translating.pushChunk (h : Translating toUpperCase s chunks yielded) (chunk : WireChunk) :
    Translating toUpperCase (s.pushChunk toUpperCase chunk).1 (chunks ++ [chunk])
      (yielded ++ (s.pushChunk toUpperCase chunk).2) := by
  have hfed := h.feeding.pushChoices toUpperCase (chunk.choices.getD [])
  rw [← fragmentsOf_concat] at hfed
  obtain ⟨hfinish, husage⟩ :=
    pending_pushChoices toUpperCase s (chunk.choices.getD [])
  have hlast : (lastFinish (chunks ++ [chunk])).map (mapFinishReason toUpperCase)
      = (s.pushChoices toUpperCase (chunk.choices.getD [])).1.pendingFinish := by
    rw [hfinish, h.finish, lastFinish, List.flatMap_append, List.flatMap_singleton,
      List.getLast?_append, ← lastFinish]
    cases ((chunk.choices.getD []).filterMap WireChoice.finishReason).getLast? <;> rfl
  rw [TranslateState.pushChunk]
  cases hchunk : chunk.usage with
  | none =>
    refine ⟨hfed, hlast.symm, ?_⟩
    rw [husage, h.usage, lastUsage, lastUsage, List.filterMap_append]
    simp [hchunk]
  | some usage =>
    refine ⟨hfed.withPending _ _, hlast.symm, ?_⟩
    rw [lastUsage, List.filterMap_append]
    simp [hchunk]

/-- The indexes count the blocks. -/
theorem map_index_order (h : Holds s fragments) :
    s.order.map TranslateBlock.index = List.range s.order.length := by
  refine List.ext_getElem? fun i ↦ ?_
  rw [List.getElem?_map]
  by_cases hlt : i < (channels fragments).length
  · rw [h.blocks i _ (List.getElem?_eq_getElem hlt), List.getElem?_range (h.length ▸ hlt)]
    rfl
  · rw [List.getElem?_eq_none (by rw [h.length]; omega),
      List.getElem?_eq_none (by rw [List.length_range, h.length]; omega)]
    rfl

/-- The blocks of the state are those expected. -/
theorem map_closeBlock_order (h : Holds s (fragmentsOf chunks)) :
    s.order.map closeBlock = expectedBlocks chunks := by
  refine List.ext_getElem? fun i ↦ ?_
  rw [expectedBlocks, List.getElem?_map, List.getElem?_map]
  by_cases hlt : i < (channels (fragmentsOf chunks)).length
  · rw [h.blocks i _ (List.getElem?_eq_getElem hlt), List.getElem?_eq_getElem hlt]
    rfl
  · rw [List.getElem?_eq_none (by rw [h.length]; omega), List.getElem?_eq_none (by omega)]
    rfl

theorem finishReason_eq (h : Translating toUpperCase s chunks yielded) :
    s.finishReason = expectedFinish toUpperCase chunks := by
  have hnil : s.order = [] ↔ channels (fragmentsOf chunks) = [] := by
    rw [← List.length_eq_zero_iff, h.feeding.holds.length, List.length_eq_zero_iff]
  rw [TranslateState.finishReason, expectedFinish, h.finish]
  exact if_congr (and_congr_right fun _ ↦ hnil) rfl rfl

/-- What follows the ends of the blocks. -/
def trailer (usage : Option TokenUsage) (reason : FinishReason) : List StreamChunk :=
  usage.toList.map .usage ++ [.finish reason none]

theorem validateChunks_singleton {g g' : StreamGrammar} {chunk : StreamChunk}
    (h : validateChunk g chunk = .ok g') : validateChunks g [chunk] = .ok g' := by
  rw [validateChunks, h]
  rfl

theorem validateChunks_trailer {g : StreamGrammar} (hentries : g.opened.entries = [])
    (hunseen : g.usageSeen = false) (hfinished : g.finished = false) (usage : Option TokenUsage)
    (reason : FinishReason) :
    ∃ g', validateChunks g (trailer usage reason) = .ok g' ∧ g'.finished := by
  have hfinish (seen : Bool) :
      validateChunk { g with usageSeen := seen } (.finish reason none)
        = .ok { g with usageSeen := seen, finished := true } := by
    rw [validateChunk.eq_def, if_neg (by simp [hfinished])]
    exact if_neg fun h ↦ h.1 hentries
  cases usage with
  | none => exact ⟨_, validateChunks_singleton (hfinish g.usageSeen), rfl⟩
  | some usage =>
    have hreported : validateChunk g (.usage usage) = .ok { g with usageSeen := true } := by
      rw [validateChunk.eq_def, if_neg (by simp [hfinished])]
      exact if_neg (by simp [hunseen])
    exact ⟨_, validateChunks_append_eq_ok.mpr ⟨_, validateChunks_singleton hreported,
      validateChunks_singleton (hfinish true)⟩, rfl⟩

theorem foldl_nextBlocks_trailer (streamed : List StreamBlock) (usage : Option TokenUsage)
    (reason : FinishReason) : (trailer usage reason).foldl nextBlocks streamed = streamed := by
  cases usage <;> rfl

theorem done_eq (s : TranslateState) :
    s.done = blockEnds s.order ++ trailer s.pendingUsage s.finishReason := rfl

/-- The blocks of the stream, when the translation is done. -/
theorem map_streamBlocks_done (hemits : Emits s yielded) (hholds : Holds s fragments) :
    (streamBlocks (yielded ++ s.done)).map (fun b ↦ (b.index, b.content))
      = s.order.map fun block ↦ ((block.index : ℤ), some (closeBlock block)) := by
  have hnodup : (s.order.map TranslateBlock.index).Nodup := by
    rw [map_index_order hholds]
    exact List.nodup_range
  rw [streamBlocks, done_eq, List.foldl_append, List.foldl_append, ← streamBlocks,
    foldl_nextBlocks_trailer, map_foldl_blockEnds, hemits.blocks, List.map_map]
  exact List.map_congr_left fun block hblock ↦ foldl_endPair hblock hnodup

/-- The blocks are indexed in the order of their starts. -/
theorem map_index_done (hemits : Emits s yielded) (hholds : Holds s fragments) :
    (streamBlocks (yielded ++ s.done)).map StreamBlock.index
      = (List.range s.order.length).map Int.ofNat := by
  have hfirst := congrArg (List.map Prod.fst) (map_streamBlocks_done hemits hholds)
  rw [List.map_map, List.map_map] at hfirst
  refine hfirst.trans ?_
  rw [← map_index_order hholds, List.map_map]
  rfl

/-- A translation that reads `[DONE]` is faithful. -/
theorem Translating.faithful (h : Translating toUpperCase s chunks yielded)
    (hmax : (channels (fragmentsOf chunks)).length ≤ maxBlocks) :
    Faithful toUpperCase chunks ⟨yielded ++ s.done, none⟩ := by
  have hholds := h.feeding.holds
  have hemits := h.feeding.emits hmax
  have hlt : ∀ block ∈ s.order, block.index < maxBlocks :=
    fun block hblock ↦ (index_of_holds hholds hblock).1.trans_le hmax
  obtain ⟨g, haccepted, hunseen, hfinished, hentries⟩ := hemits.accepted
  obtain ⟨closed, hends, hempty, hseen, hclosed⟩ :=
    validateChunks_blockEnds hlt hfinished hentries
  obtain ⟨g', htrailer, hdone⟩ := validateChunks_trailer hempty (hseen.trans hunseen) hclosed
    s.pendingUsage s.finishReason
  have hend := validateChunks_append_eq_ok.mpr ⟨g, haccepted, hends⟩
  have hwhole : validateChunks .initial (yielded ++ s.done) = .ok g' := by
    rw [done_eq, ← List.append_assoc]
    exact validateChunks_append_eq_ok.mpr ⟨closed, hend, htrailer⟩
  have hpairs := map_streamBlocks_done hemits hholds
  have hcontents : (streamBlocks (yielded ++ s.done)).map StreamBlock.content
      = (expectedBlocks chunks).map some := by
    have hsecond := congrArg (List.map Prod.snd) hpairs
    rw [List.map_map, List.map_map] at hsecond
    rw [← map_closeBlock_order hholds, List.map_map]
    exact hsecond
  have hfirsts : firsts (streamBlocks (yielded ++ s.done)) = streamBlocks (yielded ++ s.done) := by
    refine firsts_eq_self ?_
    rw [map_index_done hemits hholds]
    exact List.nodup_range.map fun _ _ heq ↦ Int.ofNat_inj.mp heq
  have hheld := mapM_assembleAt (holdsFirsts_pushAll hwhole) (hfirsts.symm ▸ hcontents)
  have hreason : (BlockAssembler.pushAll (yielded ++ s.done)).finish? = some s.finishReason := by
    rw [done_eq, trailer, ← List.append_assoc, ← List.append_assoc, BlockAssembler.pushAll,
      List.foldl_concat]
    rfl
  have hkept : (BlockAssembler.pushAll (yielded ++ s.done)).kept = keeps s.finishReason :=
    kept_eq_keeps (by rw [BlockAssembler.finish, hreason, Option.getD_some])
  refine ⟨rfl, validateStream_eq_ok.mpr ⟨g', hwhole, hdone⟩, ?_, ?_, ?_⟩
  · rw [blocks_of_held hheld, hkept, finishReason_eq h]
  · rw [hreason, finishReason_eq h]
  · have hnone : (BlockAssembler.pushAll (yielded ++ blockEnds s.order)).usage = none :=
      usage_pushAll hend (hseen.trans hunseen)
    rw [← h.usage, done_eq, ← List.append_assoc, trailer]
    cases s.pendingUsage with
    | none =>
      rw [Option.toList_none, List.map_nil, List.nil_append, BlockAssembler.pushAll,
        List.foldl_concat, ← BlockAssembler.pushAll, usage_push]
      exact hnone
    | some usage =>
      rw [Option.toList_some, List.map_singleton, List.singleton_append, BlockAssembler.pushAll,
        List.foldl_append]
      rfl

end Runs

/-! ## Whole translations -/

section Translate

variable (asWireChunk : Json → WireChunk)

/-- The wire chunks before `[DONE]`: none if a payload is no JSON, or `[DONE]` is missing. -/
def wireChunks : List JsString → Option (List WireChunk)
  | [] => none
  | payload :: rest =>
    if payload = DONE then some []
    else
      match parse payload with
      | none => none
      | some value => (wireChunks rest).map (asWireChunk value :: ·)

variable {toUpperCase : JsString → JsString} {s : TranslateState} {chunks : List WireChunk}
  {yielded : List StreamChunk}

theorem translateFrom_of_wireChunks {payloads : List JsString} {more : List WireChunk}
    (h : Translating toUpperCase s chunks yielded)
    (hread : wireChunks asWireChunk payloads = some more) :
    ∃ s' yielded', Translating toUpperCase s' (chunks ++ more) yielded' ∧
      yielded ++ (translateFrom asWireChunk toUpperCase s payloads).chunks = yielded' ++ s'.done ∧
        (translateFrom asWireChunk toUpperCase s payloads).thrown = none := by
  induction payloads generalizing s chunks yielded more with
  | nil => simp [wireChunks] at hread
  | cons payload rest ih =>
    rw [wireChunks] at hread
    rw [translateFrom]
    by_cases hdone : payload = DONE
    · rw [if_pos hdone] at hread
      obtain rfl := Option.some.inj hread
      rw [List.append_nil, if_pos hdone]
      exact ⟨s, yielded, h, rfl, rfl⟩
    · rw [if_neg hdone] at hread
      rw [if_neg hdone]
      cases hparse : parse payload with
      | none => simp [hparse] at hread
      | some value =>
        rw [hparse] at hread
        obtain ⟨after, hafter, rfl⟩ := Option.map_eq_some_iff.mp hread
        rw [List.append_cons]
        have hrest := ih (h.pushChunk (asWireChunk value)) hafter
        rw [List.append_assoc yielded] at hrest
        exact hrest

theorem translateFrom_of_none {payloads : List JsString}
    (hread : wireChunks asWireChunk payloads = none)
    (h : Translating toUpperCase s chunks yielded) :
    Fails ⟨yielded ++ (translateFrom asWireChunk toUpperCase s payloads).chunks,
        (translateFrom asWireChunk toUpperCase s payloads).thrown⟩ := by
  induction payloads generalizing s chunks yielded with
  | nil => exact ⟨rfl, by simpa [translateFrom] using h.feeding.unfinished⟩
  | cons payload rest ih =>
    rw [wireChunks] at hread
    rw [translateFrom]
    split_ifs at hread with hdone
    rw [if_neg hdone]
    cases hparse : parse payload with
    | none => exact ⟨rfl, by simpa using h.feeding.unfinished⟩
    | some value =>
      rw [hparse] at hread
      have hrest := ih (Option.map_eq_none_iff.mp hread) (h.pushChunk (asWireChunk value))
      rw [List.append_assoc] at hrest
      exact hrest

theorem translating_initial : Translating toUpperCase .initial [] [] :=
  ⟨feeding_initial, rfl, rfl⟩

theorem faithful_of_wireChunks (toUpperCase : JsString → JsString) {payloads : List JsString}
    (hread : wireChunks asWireChunk payloads = some chunks)
    (hmax : (channels (fragmentsOf chunks)).length ≤ maxBlocks) :
    Faithful toUpperCase chunks (translate asWireChunk toUpperCase payloads) := by
  obtain ⟨s, yielded, h, hchunks, hthrown⟩ :=
    translateFrom_of_wireChunks asWireChunk translating_initial hread
  have heq : translate asWireChunk toUpperCase payloads = ⟨yielded ++ s.done, none⟩ :=
    congrArg₂ Translated.mk hchunks hthrown
  exact heq ▸ h.faithful hmax

/-- **Translations are faithful**: payloads that are read up to `[DONE]` become an accepted stream
with a block for each channel, and all others throw without a finish. -/
theorem translate_faithful (toUpperCase : JsString → JsString) (payloads : List JsString)
    (hmax : ∀ chunks, wireChunks asWireChunk payloads = some chunks →
      (channels (fragmentsOf chunks)).length ≤ maxBlocks) :
    (∀ chunks, wireChunks asWireChunk payloads = some chunks →
      Faithful toUpperCase chunks (translate asWireChunk toUpperCase payloads)) ∧
    (wireChunks asWireChunk payloads = none →
      Fails (translate asWireChunk toUpperCase payloads)) :=
  ⟨fun chunks hread ↦ faithful_of_wireChunks asWireChunk toUpperCase hread (hmax chunks hread),
    fun hread ↦ translateFrom_of_none asWireChunk hread translating_initial⟩

end Translate

/-! ## A truncated tool call -/

/-- A tool call that was cut off by the token limit. -/
def truncatedChunk : WireChunk where
  choices := some [{
    delta := some { toolCalls := some [{
      index := .int 0
      id := some (js "c1")
      function := some { name := some (js "read"), arguments := some (js "[1") } }] }
    finishReason := some (js "length") }]

def truncatedPayload : JsString :=
  js "\x7b\"choices\":[\x7b\"delta\":\x7b\"tool_calls\":[\x7b\"index\":0,\"id\":\"c1\"," ++
    js "\"function\":\x7b\"name\":\"read\",\"arguments\":\"[1\"\x7d\x7d]\x7d," ++
    js "\"finish_reason\":\"length\"\x7d]\x7d"

theorem wireChunks_truncated :
    wireChunks (fun _ ↦ truncatedChunk) [truncatedPayload, DONE] = some [truncatedChunk] := by
  obtain ⟨value, hvalue⟩ : ∃ value, parse truncatedPayload = some value :=
    Option.isSome_iff_exists.mp (by decide +kernel)
  have hdone : truncatedPayload ≠ DONE := by decide +kernel
  rw [wireChunks, if_neg hdone, hvalue]
  rfl

theorem length_channels_truncated :
    (channels (fragmentsOf [truncatedChunk])).length ≤ maxBlocks := by decide +kernel

theorem translate_faithful_truncated :
    (∀ chunks, wireChunks (fun _ ↦ truncatedChunk) [truncatedPayload, DONE] = some chunks →
      Faithful id chunks (translate (fun _ ↦ truncatedChunk) id [truncatedPayload, DONE])) ∧
    (wireChunks (fun _ ↦ truncatedChunk) [truncatedPayload, DONE] = none →
      Fails (translate (fun _ ↦ truncatedChunk) id [truncatedPayload, DONE])) := by
  refine translate_faithful _ id _ fun chunks hread ↦ ?_
  rw [wireChunks_truncated] at hread
  rw [← Option.some.inj hread]
  exact length_channels_truncated

/-- The block of a tool call that was cut off is not given back. -/
theorem exists_block_dropped : ∃ asWireChunk payloads chunks,
    wireChunks asWireChunk payloads = some chunks ∧
      (BlockAssembler.pushAll (translate asWireChunk id payloads).chunks).blocks
        ≠ .ok (expectedBlocks chunks) := by
  refine ⟨fun _ ↦ truncatedChunk, [truncatedPayload, DONE], [truncatedChunk],
    wireChunks_truncated, ?_⟩
  have hblocks := (faithful_of_wireChunks (fun _ ↦ truncatedChunk) id wireChunks_truncated
    length_channels_truncated).blocks
  have hfilter : (expectedBlocks [truncatedChunk]).filter
      (keeps (expectedFinish id [truncatedChunk])) ≠ expectedBlocks [truncatedChunk] := by
    decide +kernel
  intro hall
  exact hfilter (Except.ok.inj (hblocks.symm.trans hall))

end XxAgent.Llm
