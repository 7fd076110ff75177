import XxAgent.Ecma.CodePoints
import XxAgent.Log.MiddleCut
import XxAgent.Session.ContentRewrites

/-!
# Pruning tool results

A tool result whose text is over a budget keeps the head and the tail of it around a marker. Text is
measured and cut in code points, block by block: no character that lies within one block is torn,
and a surrogate pair that is split between two blocks counts as two.

The removed span is found by walking the blocks with a count of the points consumed. What a block
becomes depends on the count only, so the walk is `MiddleCut.cut` over the points of the content
with its rich blocks between them.
-/

namespace XxAgent.Pruning

open Ecma

/-! ## Configuration -/

/-- Fixed marker substituted for every removed middle span. -/
def PRUNE_MARKER : JsString := js "\n\n[... tool result middle pruned ...]\n\n"

/-- Count Unicode code points without splitting surrogate pairs. -/
def codePointLength (text : JsString) : ℕ := (points text).length

/-- Resolved character budgets; what is emitted fits the threshold. -/
structure ResolvedConfig where
  thresholdChars : ℕ
  headChars : ℕ
  tailChars : ℕ
  fits : headChars + codePointLength PRUNE_MARKER + tailChars ≤ thresholdChars

theorem defaults_fit : 4096 + codePointLength PRUNE_MARKER + 1024 ≤ 8192 := by decide +kernel

/-- Low-friction defaults for coding-agent tool output. -/
def DEFAULTS : ResolvedConfig := ⟨8192, 4096, 1024, defaults_fit⟩

/-- Why a configuration is refused. -/
inductive ConfigFault where
  /-- `unknown key "…" (allowed: thresholdChars, headChars, tailChars)` -/
  | unknownKey (key : JsString)
  /-- `… must be a positive integer` -/
  | notPositive (name : String) (value : Json)
  /-- `… must be a non-negative integer` -/
  | negative (name : String) (value : Json)
  /-- `headChars + marker + tailChars (…) must be at most thresholdChars (…)` -/
  | exceeds (emittedChars thresholdChars : ℕ)

/-- `config[name] ?? fallback` -/
def budget (config : Fields) (name : String) (fallback : ℕ) : Json :=
  match fieldOf (js name) config with
  | none | some .null => integer fallback
  | some value => value

/-- The integer that a value is. -/
def integerOf : Json → Option ℤ
  | .num x => x.toInt?
  | _ => none

def assertPositiveInteger (name : String) (value : Json) : Except ConfigFault ℕ :=
  match integerOf value with
  | some n => if n ≤ 0 then .error (.notPositive name value) else .ok n.toNat
  | none => .error (.notPositive name value)

def assertNonNegativeInteger (name : String) (value : Json) : Except ConfigFault ℕ :=
  match integerOf value with
  | some n => if n < 0 then .error (.negative name value) else .ok n.toNat
  | none => .error (.negative name value)

/-- The keys of a configuration. -/
def CONFIG_KEYS : List String := ["thresholdChars", "headChars", "tailChars"]

/-- Resolve and validate pruning budgets. Their sum is exact: a budget beyond the safe integers is
one that no text reaches. -/
def resolveConfig (config : Fields) : Except ConfigFault ResolvedConfig :=
  match (keys config).find? (· ∉ CONFIG_KEYS.map js) with
  | some key => .error (.unknownKey key)
  | none => do
    let thresholdChars ← assertPositiveInteger "thresholdChars"
      (budget config "thresholdChars" DEFAULTS.thresholdChars)
    let headChars ← assertNonNegativeInteger "headChars"
      (budget config "headChars" DEFAULTS.headChars)
    let tailChars ← assertNonNegativeInteger "tailChars"
      (budget config "tailChars" DEFAULTS.tailChars)
    let emittedChars := headChars + codePointLength PRUNE_MARKER + tailChars
    if h : emittedChars ≤ thresholdChars then .ok ⟨thresholdChars, headChars, tailChars, h⟩
    else .error (.exceeds emittedChars thresholdChars)

/-! ## Content -/

/-- Whether a text block has its text. -/
def hasText (fields : Fields) : Bool :=
  if fieldOf (js "type") fields = some (text "text") then
    Value.isString (fieldOf (js "text") fields)
  else true

/-- A block of the content of a tool result; a text block carries its text. -/
structure ContentBlock where
  fields : Fields
  typed : hasText fields = true

namespace ContentBlock

/-- `block.type === 'text'` -/
def isText (block : ContentBlock) : Bool :=
  decide (fieldOf (js "type") block.fields = some (text "text"))

/-- `block.text`, of a text block. -/
def text (block : ContentBlock) : JsString :=
  match fieldOf (js "text") block.fields with
  | some (.str s) => s
  | _ => []

theorem hasText_setField (fields : Fields) (s : JsString) :
    hasText (setField fields (js "text") (.str s)) = true := by
  rw [hasText, fieldOf_setField_self]
  split_ifs <;> rfl

/-- `{ ...block, text }` -/
def withText (block : ContentBlock) (s : JsString) : ContentBlock :=
  ⟨setField block.fields (js "text") (.str s), hasText_setField block.fields s⟩

@[simp] theorem text_withText (block : ContentBlock) (s : JsString) :
    (block.withText s).text = s := by
  rw [text, withText, fieldOf_setField_self]

@[simp] theorem isText_withText (block : ContentBlock) (s : JsString) :
    (block.withText s).isText = block.isText := by
  have hne : js "text" ≠ js "type" := by simp
  rw [isText, isText, withText, fieldOf_setField_of_ne hne]

/-- The code points of a text block; any other block stands as it is. -/
def tokens (block : ContentBlock) : List (JsString ⊕ ContentBlock) :=
  if block.isText then (points block.text).map .inl else [.inr block]

end ContentBlock

/-- The code points of a content with its rich blocks between them. -/
def contentTokens (blocks : List ContentBlock) : List (JsString ⊕ ContentBlock) :=
  blocks.flatMap ContentBlock.tokens

/-- The text of a content. -/
def contentText (blocks : List ContentBlock) : JsString :=
  (blocks.filter ContentBlock.isText).flatMap ContentBlock.text

/-! ## The pruner -/

/-- Measure text content in Unicode code points; non-text blocks cost zero. -/
def measureContent (blocks : List ContentBlock) : ℕ :=
  blocks.foldl (fun chars block ↦
    if block.isText then chars + codePointLength block.text else chars) 0

/-- What the walk over the blocks carries. -/
structure PruneState where
  pruned : List ContentBlock := []
  consumed : ℕ := 0
  markerInserted : Bool := false

/-- One turn of the loop; the text `[removedStart, removedEnd)` goes. -/
def pruneBlock (removedStart removedEnd : ℕ) (st : PruneState) (block : ContentBlock) :
    PruneState :=
  if block.isText then
    let blockPoints := points block.text
    let blockStart := st.consumed
    let blockEnd := blockStart + blockPoints.length
    let headEnd := min blockPoints.length (removedStart - blockStart)
    let tailStart := min blockPoints.length (removedEnd - blockStart)
    let intersectsRemoved := decide (blockStart < removedEnd ∧ removedStart < blockEnd)
    let marker := if intersectsRemoved && !st.markerInserted then PRUNE_MARKER else []
    let kept := (blockPoints.take headEnd).flatten ++ marker ++ (blockPoints.drop tailStart).flatten
    { pruned := if 0 < kept.length then st.pruned ++ [block.withText kept] else st.pruned
      consumed := blockEnd
      markerInserted := st.markerInserted || decide (0 < marker.length) }
  else { st with pruned := st.pruned ++ [block] }

/-- The internal errors of the pruner. -/
inductive PruneFault where
  /-- `tool-result prune: failed to locate the removed text span` -/
  | unlocated
  /-- `tool-result prune: replacement must be smaller and within threshold` -/
  | notSmaller
deriving DecidableEq

/-- Replace an over-budget text middle while retaining rich-block order; `none` when the text is
within budget. -/
def pruneContent (config : ResolvedConfig) (blocks : List ContentBlock) :
    Except PruneFault (Option (List ContentBlock)) :=
  let totalChars := measureContent blocks
  if totalChars ≤ config.thresholdChars then .ok none
  else
    let st := blocks.foldl (pruneBlock config.headChars (totalChars - config.tailChars)) {}
    let charsAfter := measureContent st.pruned
    if st.markerInserted = false then .error .unlocated
    else if config.thresholdChars < charsAfter ∨ totalChars ≤ charsAfter then .error .notSmaller
    else .ok (some st.pruned)

/-! ## Measures -/

open MiddleCut

@[simp] theorem contentTokens_append (front back : List ContentBlock) :
    contentTokens (front ++ back) = contentTokens front ++ contentTokens back :=
  List.flatMap_append

theorem contentTokens_singleton (block : ContentBlock) :
    contentTokens [block] = block.tokens := List.append_nil _

/-- The text is measured by its code points, block by block. -/
theorem measureContent_eq (blocks : List ContentBlock) :
    measureContent blocks = (pointsOf (contentTokens blocks)).length := by
  induction blocks using List.reverseRecOn with
  | nil => rfl
  | append_singleton blocks block ih =>
    rw [measureContent, List.foldl_concat, ← measureContent, ih, contentTokens_append,
      contentTokens_singleton, pointsOf_append, List.length_append, ContentBlock.tokens]
    split_ifs
    · rw [pointsOf_map_inl]
      rfl
    · rfl

theorem flatten_pointsOf (blocks : List ContentBlock) :
    (pointsOf (contentTokens blocks)).flatten = contentText blocks := by
  induction blocks with
  | nil => rfl
  | cons block blocks ih =>
    have hsplit := contentTokens_append [block] blocks
    rw [List.singleton_append, contentTokens_singleton] at hsplit
    rw [hsplit, pointsOf_append, List.flatten_append, ih, contentText, contentText,
      List.filter_cons, ContentBlock.tokens]
    split_ifs
    · rw [pointsOf_map_inl, flatten_points]
      rfl
    · rfl

/-- The marker stands apart from the text on both sides of it. -/
theorem points_around_marker (s t : JsString) :
    points (s ++ PRUNE_MARKER ++ t) = points s ++ points PRUNE_MARKER ++ points t := by
  have hmarker : PRUNE_MARKER = 10 :: (PRUNE_MARKER.drop 1).dropLast ++ [10] := by decide +kernel
  rw [hmarker]
  exact points_append_between (by decide) (by decide) _ _ _

/-! ## The walk -/

variable {config : ResolvedConfig} {removedStart removedEnd : ℕ}

/-- What a block of text becomes has the code points that the cut leaves of it. -/
theorem points_kept (hle : removedStart < removedEnd) (k : ℕ) (s : JsString) :
    points (((points s).take (removedStart - k)).flatten ++
        (if k ≤ removedStart ∧ removedStart < k + (points s).length then PRUNE_MARKER else []) ++
        ((points s).drop (removedEnd - k)).flatten) =
      (points s).take (removedStart - k) ++
        (if k ≤ removedStart ∧ removedStart < k + (points s).length then points PRUNE_MARKER
          else []) ++ (points s).drop (removedEnd - k) := by
  have htake := (parsed_points s).take (removedStart - k)
  have hdrop := (parsed_points s).drop (removedEnd - k)
  rw [Parsed] at htake hdrop
  split_ifs with hin
  · rw [points_around_marker, htake, hdrop]
  · rw [List.append_nil, List.append_nil]
    -- Without the marker, the block keeps all of its text or only a tail of it.
    by_cases hk : k ≤ removedStart
    · have hend : (points s).length ≤ removedStart - k := by omega
      rw [List.take_of_length_le hend, List.drop_of_length_le (by omega), List.flatten_nil,
        List.append_nil, List.append_nil, flatten_points]
    · rw [show removedStart - k = 0 by omega, List.take_zero, List.flatten_nil, List.nil_append,
        List.nil_append, hdrop]

theorem contentTokens_pushText (pruned : List ContentBlock) {block : ContentBlock}
    (htext : block.isText = true) (s : JsString) :
    contentTokens (if 0 < s.length then pruned ++ [block.withText s] else pruned) =
      contentTokens pruned ++ (points s).map .inl := by
  split_ifs with hs
  · rw [contentTokens_append, contentTokens_singleton, ContentBlock.tokens,
      ContentBlock.isText_withText, if_pos htext, ContentBlock.text_withText]
  · rw [List.length_eq_zero_iff.mp (Nat.eq_zero_of_not_pos hs)]
    exact (List.append_nil _).symm

/-- The blocks that are left of a content: text blocks with another text, and all others. -/
inductive Retexted : List ContentBlock → List ContentBlock → Prop
  | nil : Retexted [] []
  | rich {blocks left : List ContentBlock} {block : ContentBlock} (h : Retexted blocks left)
      (hrich : block.isText = false) : Retexted (blocks ++ [block]) (left ++ [block])
  | text {blocks left : List ContentBlock} {block : ContentBlock} (h : Retexted blocks left)
      (htext : block.isText = true) (s : JsString) :
      Retexted (blocks ++ [block]) (left ++ [block.withText s])
  | gone {blocks left : List ContentBlock} {block : ContentBlock} (h : Retexted blocks left)
      (htext : block.isText = true) : Retexted (blocks ++ [block]) left

theorem Retexted.push {blocks left : List ContentBlock} (h : Retexted blocks left)
    {block : ContentBlock} (htext : block.isText = true) (s : JsString) :
    Retexted (blocks ++ [block]) (if 0 < s.length then left ++ [block.withText s] else left) := by
  split_ifs
  · exact h.text htext s
  · exact h.gone htext

/-- What holds of the walk behind some blocks. -/
structure Walked (removedStart removedEnd : ℕ) (blocks : List ContentBlock) (st : PruneState) :
    Prop where
  consumed : st.consumed = (pointsOf (contentTokens blocks)).length
  marked : st.markerInserted = decide (removedStart < st.consumed)
  tokens : contentTokens st.pruned =
    cut removedStart removedEnd (points PRUNE_MARKER) 0 (contentTokens blocks)
  blocks : Retexted blocks st.pruned

theorem Walked.step (hle : removedStart < removedEnd) {blocks : List ContentBlock}
    {st : PruneState} (h : Walked removedStart removedEnd blocks st) (block : ContentBlock) :
    Walked removedStart removedEnd (blocks ++ [block])
      (pruneBlock removedStart removedEnd st block) := by
  have hcut := @cut_append _ _ removedStart removedEnd (points PRUNE_MARKER) 0
    (contentTokens blocks) (contentTokens [block])
  rw [Nat.zero_add, ← h.consumed, contentTokens_singleton] at hcut
  by_cases htext : block.isText = true
  · have htokens : block.tokens = (points block.text).map .inl := by
      rw [ContentBlock.tokens, if_pos htext]
    -- The first block that reaches into the removed span is the one that it starts in.
    have hmarker : (decide (st.consumed < removedEnd ∧
        removedStart < st.consumed + (points block.text).length) && !st.markerInserted) =
        decide (st.consumed ≤ removedStart ∧
          removedStart < st.consumed + (points block.text).length) := by
      rw [h.marked, ← decide_not, ← Bool.decide_and, decide_eq_decide]
      omega
    have hpositive : 0 < PRUNE_MARKER.length := by decide +kernel
    have htake : (points block.text).take (min (points block.text).length
        (removedStart - st.consumed)) = (points block.text).take (removedStart - st.consumed) := by
      rw [Nat.min_comm, ← List.take_eq_take_min]
    have hdrop : (points block.text).drop (min (points block.text).length
        (removedEnd - st.consumed)) = (points block.text).drop (removedEnd - st.consumed) := by
      rw [Nat.min_comm, ← List.drop_eq_drop_min]
    rw [pruneBlock, if_pos htext]
    refine ⟨?_, ?_, ?_, ?_⟩
    · rw [contentTokens_append, pointsOf_append, List.length_append, ← h.consumed,
        contentTokens_singleton, htokens, pointsOf_map_inl]
    · simp only [hmarker, decide_eq_true_eq]
      rw [h.marked]
      split_ifs with hin
      · rw [decide_eq_true hpositive, Bool.or_true, decide_eq_true hin.2]
      · rw [List.length_nil, decide_eq_false (lt_irrefl 0), Bool.or_false, decide_eq_decide]
        omega
    · simp only [hmarker, decide_eq_true_eq]
      rw [contentTokens_pushText _ htext, h.tokens, contentTokens_append, contentTokens_singleton,
        hcut, htokens, cut_run hle, ← points_kept hle, ← htake, ← hdrop]
    · exact h.blocks.push htext _
  · rw [pruneBlock, if_neg htext]
    have htokens : block.tokens = [.inr block] := by rw [ContentBlock.tokens, if_neg htext]
    refine ⟨?_, h.marked, ?_, h.blocks.rich (Bool.eq_false_iff.mpr htext)⟩
    · rw [contentTokens_append, pointsOf_append, contentTokens_singleton, htokens,
        List.length_append, h.consumed]
      rfl
    · rw [contentTokens_append, h.tokens, contentTokens_append, contentTokens_singleton, hcut,
        htokens]
      rfl

theorem walked_foldl (hle : removedStart < removedEnd) (blocks : List ContentBlock) :
    Walked removedStart removedEnd blocks
      (blocks.foldl (pruneBlock removedStart removedEnd) {}) := by
  induction blocks using List.reverseRecOn with
  | nil => exact ⟨rfl, by simp, rfl, .nil⟩
  | append_singleton blocks block ih =>
    rw [List.foldl_concat]
    exact ih.step hle block

/-! ## What is kept -/

/-- A content that another was pruned to. -/
structure PrunedTo (config : ResolvedConfig) (blocks pruned : List ContentBlock) : Prop where
  /-- Code points and rich blocks are the original ones, with the removed span replaced. -/
  tokens : contentTokens pruned = cut config.headChars (measureContent blocks - config.tailChars)
    (points PRUNE_MARKER) 0 (contentTokens blocks)
  /-- The code points are the first ones, those of the marker and the last ones. -/
  kept : pointsOf (contentTokens pruned) =
    (pointsOf (contentTokens blocks)).take config.headChars ++ points PRUNE_MARKER ++
      (pointsOf (contentTokens blocks)).drop (measureContent blocks - config.tailChars)
  rich : othersOf (contentTokens pruned) = othersOf (contentTokens blocks)
  measure : measureContent pruned ≤ config.thresholdChars
  blocks : Retexted blocks pruned

theorem PrunedTo.of_tokens {blocks pruned : List ContentBlock}
    (hover : config.thresholdChars < measureContent blocks)
    (htokens : contentTokens pruned = cut config.headChars
      (measureContent blocks - config.tailChars) (points PRUNE_MARKER) 0 (contentTokens blocks))
    (hblocks : Retexted blocks pruned) : PrunedTo config blocks pruned := by
  have hfits := config.fits
  have hpositive : 0 < codePointLength PRUNE_MARKER := by decide +kernel
  have htotal := measureContent_eq blocks
  have hle : config.headChars < measureContent blocks - config.tailChars := by omega
  have hpoints : pointsOf (contentTokens pruned) =
      (pointsOf (contentTokens blocks)).take config.headChars ++ points PRUNE_MARKER ++
        (pointsOf (contentTokens blocks)).drop (measureContent blocks - config.tailChars) := by
    rw [htokens, pointsOf_cut hle, if_pos (by omega), Nat.sub_zero, Nat.sub_zero]
  refine ⟨htokens, hpoints, by rw [htokens, othersOf_cut], ?_, hblocks⟩
  rw [measureContent_eq, hpoints, List.length_append, List.length_append, List.length_take,
    List.length_drop, ← codePointLength]
  omega

/-- The text of pruned content: the head, the marker once, the tail. -/
theorem PrunedTo.text {blocks pruned : List ContentBlock} (h : PrunedTo config blocks pruned) :
    contentText pruned =
      ((pointsOf (contentTokens blocks)).take config.headChars).flatten ++ PRUNE_MARKER ++
        ((pointsOf (contentTokens blocks)).drop
          (measureContent blocks - config.tailChars)).flatten := by
  rw [← flatten_pointsOf, h.kept, List.flatten_append, List.flatten_append, flatten_points]

/-- **The pruner never fails, and what it returns is exact.** -/
theorem pruneContent_eq (config : ResolvedConfig) (blocks : List ContentBlock) :
    (measureContent blocks ≤ config.thresholdChars ∧ pruneContent config blocks = .ok none) ∨
      config.thresholdChars < measureContent blocks ∧
        ∃ pruned, pruneContent config blocks = .ok (some pruned) ∧
          PrunedTo config blocks pruned := by
  by_cases hover : measureContent blocks ≤ config.thresholdChars
  · exact .inl ⟨hover, by rw [pruneContent, if_pos hover]⟩
  · refine .inr ⟨not_le.mp hover, ?_⟩
    have hfits := config.fits
    have hpositive : 0 < codePointLength PRUNE_MARKER := by decide +kernel
    have hwalked := @walked_foldl config.headChars (measureContent blocks - config.tailChars)
      (by omega) blocks
    have hpruned := PrunedTo.of_tokens (not_le.mp hover) hwalked.tokens hwalked.blocks
    have hmarked := hwalked.marked
    rw [hwalked.consumed, ← measureContent_eq, decide_eq_true (by omega)] at hmarked
    have hmeasure := hpruned.measure
    refine ⟨_, ?_, hpruned⟩
    rw [pruneContent, if_neg hover]
    simp only
    rw [if_neg (by rw [hmarked]; exact Bool.true_eq_false.mp), if_neg (by omega)]

/-- Pruned content is within the budget. -/
theorem pruneContent_pruned {blocks pruned : List ContentBlock}
    (h : pruneContent config blocks = .ok (some pruned)) :
    pruneContent config pruned = .ok none := by
  obtain ⟨-, hnone⟩ | ⟨-, pruned', hpruned', hto⟩ := pruneContent_eq config blocks
  · cases hnone.symm.trans h
  · cases hpruned'.symm.trans h
    rw [pruneContent, if_pos hto.measure]

/-!
## Pruning a session

One pass over a snapshot of the current surface: every tool result that is over the budget gets a
pruned copy in its place, directly behind an event that prices what the copy shadows. A copy is
within the budget, so a second pass finds nothing to do.
-/

/-! ## Contents in events -/

namespace ContentBlock

def json (block : ContentBlock) : Json := .obj block.fields

/-- A JSON value as a block. -/
def ofJson : Json → Option ContentBlock
  | .obj fields => if h : hasText fields = true then some ⟨fields, h⟩ else none
  | _ => none

@[simp] theorem ofJson_json (block : ContentBlock) : ofJson block.json = some block := by
  rw [json, ofJson, dif_pos block.typed]

end ContentBlock

/-- The content of a tool result. -/
def contentJson (blocks : List ContentBlock) : Json := .arr (blocks.map ContentBlock.json)

/-- `event.data.message.content[0].content`, where it is content. -/
def resultContent (event : StoredEvent) : Option (List ContentBlock) :=
  match (resultBlock (event.json.get? "data")).get "content" with
  | some (.arr blocks) => blocks.mapM ContentBlock.ofJson
  | _ => none

/-- `event.type === 'tool/result'` -/
def isResult (event : StoredEvent) : Bool := decide (event.event.data.type = js "tool/result")

theorem mapM_ofJson (blocks : List ContentBlock) :
    (blocks.map ContentBlock.json).mapM ContentBlock.ofJson = some blocks := by
  induction blocks with
  | nil => rfl
  | cons block blocks ih =>
    rw [List.map_cons, List.mapM_cons, ContentBlock.ofJson_json, ih]
    rfl

theorem resultContent_of_withContent {event : StoredEvent} {data : Value}
    {blocks : List ContentBlock}
    (h : event.json.get? "data" = some (withContent data (contentJson blocks))) :
    resultContent event = some blocks := by
  have hfirst := firstElement_withContent data (contentJson blocks)
  rw [resultContent, h, resultBlock]
  simp only [Value.get_some]
  rw [hfirst]
  simp only [Value.get_some, Json.get?_obj, fieldOf_setField_self]
  exact mapM_ofJson blocks

/-- A content has the block that it is the content of. -/
theorem exists_firstElement {event : StoredEvent} {blocks : List ContentBlock}
    (h : resultContent event = some blocks) : ∃ block,
      firstElement (Value.get "content" (Value.get "message" (event.json.get? "data"))) =
        .ok block := by
  cases hfirst : firstElement
      (Value.get "content" (Value.get "message" (event.json.get? "data"))) with
  | ok block => exact ⟨block, rfl⟩
  | error fault =>
    have hblock : resultBlock (event.json.get? "data") = none := by
      rw [resultBlock, hfirst]
    rw [resultContent, hblock] at h
    cases h

/-! ## The pass -/

/-- The pruner with the prices of the token meter. -/
structure ToolResultPruner where
  config : ResolvedConfig
  /-- `tokenMeter.estimateMessage` -/
  estimateMessage : Value → ℕ

/-- A replacement that landed. -/
structure PrunedEntry where
  originalSeq : ℕ
  replacementSeq : ℕ
  callId : Value
  charsBefore : ℕ
  charsAfter : ℕ

/-- The session during a pass, and what the pass has to tell. -/
structure PrunePass where
  session : Session
  pruned : List PrunedEntry := []
  charsRemoved : ℕ := 0

/-- What stops a pass; the replacements committed earlier remain durable. -/
inductive PassFault where
  /-- A property of nothing is read. -/
  | typeError (session : Session)
  | prune (fault : PruneFault) (session : Session)
  | append (fault : AppendFault) (session : Session)

/-- The event that prices a node before it is shadowed. -/
def priceDraft (seq tokens : ℕ) (time : SafeNat) : EventDraft where
  data := .other (js "compaction/prune")
  payload := .obj [
    prop "shadowedRange" (.obj [prop "start" (integer seq), prop "end" (integer seq)]),
    prop "shadowedSeqs" (.arr [integer seq]), prop "shadowedTokenCount" (integer tokens)]
  time := time

/-- The typed side of a result with another content. -/
def resultData (content : List ContentBlock) : EventData → EventData
  | .toolResult turn step message error => .toolResult turn step
      { message with block := { message.block with
        content := content.map ContentBlock.json } } error
  | data => data

@[simp] theorem type_resultData (content : List ContentBlock) (data : EventData) :
    (resultData content data).type = data.type := by
  cases data <;> rfl

theorem price_ineligible :
    isSurfaceEligibleType (some (.str (EventData.other (js "compaction/prune")).type)) = false := by
  decide +kernel

theorem result_eligible : isSurfaceEligibleType (some (.str (js "tool/result"))) = true := by
  decide +kernel

variable (pruner : ToolResultPruner) (clock : ℕ → SafeNat)

/-- One turn of the loop over the candidates; an append leaves the events of the snapshot. -/
def pruneNode (pass : PrunePass) (seq : ℕ) : Except PassFault PrunePass :=
  match pass.session.events[seq]? with
  | none => .error (.typeError pass.session)
  | some event =>
    let data : Value := event.json.get? "data"
    match resultContent event with
    | none => .error (.typeError pass.session)
    | some blocks =>
      match pruneContent pruner.config blocks with
      | .error fault => .error (.prune fault pass.session)
      | .ok none => .ok pass
      | .ok (some content) =>
        let price := pruner.estimateMessage (data.get "message")
        match pass.session.append (priceDraft seq price (clock pass.session.events.length)) with
        | .error fault => .error (.append fault pass.session)
        | .ok priced =>
          match priced.append (rewriteDraft seq (resultData content event.event.data)
              (withContent data (contentJson content)) (clock priced.events.length)) with
          | .error fault => .error (.append fault priced)
          | .ok session => .ok {
              session
              pruned := pass.pruned ++ [{
                originalSeq := seq
                replacementSeq := priced.events.length
                callId := ((data.get "message").get "source").get "callId"
                charsBefore := measureContent blocks
                charsAfter := measureContent content }]
              charsRemoved :=
                pass.charsRemoved + (measureContent blocks - measureContent content) }

/-- The tool results on the current surface. -/
def candidates (session : Session) : List ℕ :=
  (surfaceNodes session).filter fun seq ↦ (session.events[seq]?.map isResult).getD false

/-- Prune every over-budget tool result from one stable current-surface snapshot. -/
def pruneSession (session : Session) : Except PassFault PrunePass :=
  (candidates session).foldlM (pruneNode pruner clock) ⟨session, [], 0⟩

/-! ## What becomes of a result -/

/-- The content of a result is over the budget. -/
def Pending (_ : ℕ) (e : StoredEvent) : Prop :=
  ∃ blocks, resultContent e = some blocks ∧ pruner.config.thresholdChars < measureContent blocks

/-- A result that another was pruned to: the same but for its content. -/
def Becomes (_ : ℕ) (e e' : StoredEvent) : Prop :=
  isResult e' = true ∧ ∃ blocks pruned, resultContent e = some blocks ∧
    PrunedTo pruner.config blocks pruned ∧
    e'.json.get? "data" = some (withContent (e.json.get? "data") (contentJson pruned))

/-- A tool result whose content has its type. -/
structure TypedResult (e : StoredEvent) : Prop where
  result : isResult e = true
  content : (resultContent e).isSome = true
  wf : e.json.WF

variable {pruner clock}

theorem rewritesNode : RewritesNode PrunePass.session (pruneNode pruner clock)
    (fun _ e ↦ TypedResult e) (Pending pruner) (Becomes pruner) where
  skip pass seq e he hcandidate hpending := by
    obtain ⟨blocks, hblocks⟩ := Option.isSome_iff_exists.mp hcandidate.content
    rw [pruneNode, he]
    simp only [hblocks]
    rcases pruneContent_eq pruner.config blocks with ⟨-, hnone⟩ | ⟨hover, -⟩
    · rw [hnone]
    · exact absurd ⟨blocks, hblocks, hover⟩ hpending
  step pass state seq e hfolds hmem he hsafe hcandidate hpending := by
    obtain ⟨blocks, hblocks, hover⟩ := hpending
    rcases pruneContent_eq pruner.config blocks with ⟨hle, -⟩ | ⟨-, pruned, hpruned, hto⟩
    · exact absurd hover (not_lt.mpr hle)
    obtain ⟨block, hfirst⟩ := exists_firstElement hblocks
    have hdata : ∀ x ∈ e.json.get? "data", Json.WF x := fun x hx ↦ hcandidate.wf.of_get? hx
    have hsame := withoutContent_withContent hfirst (contentJson pruned)
    have hresult : e.event.data.type = js "tool/result" := of_decide_eq_true hcandidate.result
    obtain ⟨x, hx⟩ := exists_withoutContent hfirst
    set price := priceDraft seq
      (pruner.estimateMessage (Value.get "message" (e.json.get? "data")))
      (clock pass.session.events.length) with hprice
    -- The price goes before the replacement and joins no surface.
    obtain ⟨priced, hpriced, hfolds₁, hevents₁⟩ := hfolds.append_logOnly price
      (by simp [assertSupportedRequestHeader, hprice, priceDraft, EventData.type, text])
      price_ineligible rfl rfl
    obtain ⟨next, state', hrewrite, hfolds₂, hevents₂, hnodes⟩ := hfolds₁.append_rewrite
      (resultData pruned e.event.data) (withContent (e.json.get? "data") (contentJson pruned))
      (clock priced.events.length) hsafe hmem
      (by rw [hevents₁, List.getElem?_append_left (hfolds.lt_length hmem), he])
      (by rw [type_resultData, hresult]; exact result_eligible)
      (fun _ ↦ ⟨hresult, x, hx, hsame.trans hx, isDeepEqualJson_withoutContent hdata hx⟩)
    have hnode : ∃ entries chars,
        pruneNode pruner clock pass seq = .ok ⟨next, entries, chars⟩ := by
      rw [pruneNode, he]
      simp only [hblocks, hpruned, ← hprice, hpriced, hrewrite]
      exact ⟨_, _, rfl⟩
    obtain ⟨entries, chars, hnode⟩ := hnode
    rw [hevents₁] at hevents₂ hnodes
    refine ⟨_, [price.event pass.session.events.length], _, hnode, hevents₂,
      ⟨?_, blocks, pruned, hblocks, hto, ?_⟩, state', hfolds₂, hnodes⟩
    · exact decide_eq_true ((type_resultData pruned e.event.data).trans hresult)
    · exact EventDraft.get?_json _ _ (by simp [EventDraft.fields, rewriteDraft])

/-! ## The whole pass -/

/-- The log of a session before and after a pass that is under way no longer. -/
structure SessionPruned (pruner : ToolResultPruner) (before after : Session)
    (state state' : SurfaceFoldState) : Prop where
  folds : surfaceAfter (stored after.events) = .ok state'
  log : ∃ added, after.events = before.events ++ added
  /-- The nodes are the old ones, but for results that were over the budget. -/
  nodes : ∃ place : ℕ → ℕ, state'.nodes = state.nodes.map place ∧
    ∀ seq ∈ state.nodes, Passed (Pending pruner) (Becomes pruner) (candidates before)
      before.events after.events seq (place seq)

theorem mem_candidates {session : Session} {seq : ℕ} : seq ∈ candidates session ↔
    seq ∈ surfaceNodes session ∧ ∃ e, session.events[seq]? = some e ∧ isResult e = true := by
  rw [candidates, List.mem_filter]
  refine and_congr_right fun _ ↦ ?_
  cases session.events[seq]? <;> simp

/-- **A pass is never stopped.** -/
theorem exists_pruneSession (pruner : ToolResultPruner) (clock : ℕ → SafeNat) {session : Session}
    {state : SurfaceFoldState} (hsurface : surfaceAfter (stored session.events) = .ok state)
    (hlength : session.events.length < 2 ^ 32) (hwf : ∀ e ∈ session.events, e.json.WF)
    (htyped : ∀ e ∈ session.events, isResult e = true → (resultContent e).isSome = true) :
    ∃ pass state', pruneSession pruner clock session = .ok pass ∧
      SessionPruned pruner session pass.session state state' := by
  have hfolds := Session.Folds.of_surface hwf hsurface
  have hsub : candidates session ⊆ state.nodes := fun seq hseq ↦
    surfaceNodes_eq hsurface ▸ (mem_candidates.mp hseq).1
  have hnd : (candidates session).Nodup := by
    rw [candidates, surfaceNodes_eq hsurface]
    exact hfolds.nodup.filter _
  have hsafe : ∀ seq ∈ candidates session, Number.IsSafe seq := by
    intro seq hseq
    have := hfolds.lt_length (hsub hseq)
    rw [Number.IsSafe, Number.maxSafe]
    omega
  have htyped' : ∀ seq ∈ candidates session, ∀ e, session.events[seq]? = some e →
      TypedResult e := by
    intro seq hseq e he
    obtain ⟨-, e', he', hresult⟩ := mem_candidates.mp hseq
    rw [he, Option.some.injEq] at he'
    have hmem := List.mem_of_getElem? he
    exact ⟨he' ▸ hresult, htyped e hmem (he' ▸ hresult), hwf e hmem⟩
  obtain ⟨pass, state', added, place, hpass, hfolds', hadded, hplace, hpassed⟩ :=
    (@rewritesNode pruner clock).exists_pass (candidates session) ⟨session, [], 0⟩ state hfolds
      hsub hnd hsafe htyped'
  exact ⟨pass, state', hpass, hfolds'.surface, ⟨added, hadded⟩, place, hplace, hpassed⟩

/-- **A second pass appends nothing.** -/
theorem SessionPruned.pruneSession {before after : Session} {state state' : SurfaceFoldState}
    (h : SessionPruned pruner before after state state')
    (hsurface : surfaceAfter (stored before.events) = .ok state)
    (htyped : ∀ e ∈ before.events, isResult e = true → (resultContent e).isSome = true)
    (clock : ℕ → SafeNat) : pruneSession pruner clock after = .ok ⟨after, [], 0⟩ := by
  refine foldlM_self fun seq' hseq' ↦ ?_
  obtain ⟨hmem, e', he', hresult⟩ := mem_candidates.mp hseq'
  obtain ⟨place, hplace, hpassed⟩ := h.nodes
  rw [surfaceNodes_eq h.folds, hplace, List.mem_map] at hmem
  obtain ⟨seq, hseq, rfl⟩ := hmem
  -- What is there now is within the budget, whether it was rewritten or not.
  have hbudget : ∃ blocks, resultContent e' = some blocks ∧
      measureContent blocks ≤ pruner.config.thresholdChars := by
    have hlt := (below_surfaceAfter hsurface seq hseq).trans_eq (length_stored _)
    obtain ⟨e, he⟩ : ∃ e, before.events[seq]? = some e := ⟨_, List.getElem?_eq_getElem hlt⟩
    by_cases hpending : seq ∈ candidates before ∧ Pending pruner seq e
    · obtain ⟨f, hf, -, blocks, pruned, -, hto, hdata⟩ :=
        (hpassed seq hseq).rewritten e he hpending.1 hpending.2
      rw [he', Option.some.injEq] at hf
      exact ⟨pruned, resultContent_of_withContent (hf ▸ hdata), hto.measure⟩
    · have hplace' := (hpassed seq hseq).kept e he hpending
      obtain ⟨added, hadded⟩ := h.log
      rw [hplace', hadded, List.getElem?_append_left hlt, he, Option.some.injEq] at he'
      subst he'
      obtain ⟨blocks, hblocks⟩ := Option.isSome_iff_exists.mp
        (htyped e (List.mem_of_getElem? he) hresult)
      refine ⟨blocks, hblocks, not_lt.mp fun hover ↦ hpending ⟨?_, blocks, hblocks, hover⟩⟩
      exact mem_candidates.mpr ⟨by rwa [surfaceNodes_eq hsurface], e, he, hresult⟩
  obtain ⟨blocks, hblocks, hle⟩ := hbudget
  rw [pruneNode, he']
  simp only [hblocks]
  rw [pruneContent, if_pos hle]

/-! ## Exactness -/

/-- What the pruner does to a content. The code points are those of each text block by itself. -/
structure ContentExact (config : ResolvedConfig) (blocks : List ContentBlock) : Prop where
  null_iff : pruneContent config blocks = .ok none ↔
    (MiddleCut.pointsOf (contentTokens blocks)).length ≤ config.thresholdChars
  pruned : config.thresholdChars < (MiddleCut.pointsOf (contentTokens blocks)).length →
    ∃ pruned, pruneContent config blocks = .ok (some pruned) ∧ PrunedTo config blocks pruned ∧
      contentText pruned =
        ((MiddleCut.pointsOf (contentTokens blocks)).take config.headChars).flatten ++
          PRUNE_MARKER ++ ((MiddleCut.pointsOf (contentTokens blocks)).drop
            ((MiddleCut.pointsOf (contentTokens blocks)).length - config.tailChars)).flatten ∧
      pruneContent config pruned = .ok none

theorem contentExact (config : ResolvedConfig) (blocks : List ContentBlock) :
    ContentExact config blocks := by
  obtain ⟨hle, hnone⟩ | ⟨hover, pruned, hpruned, hto⟩ := pruneContent_eq config blocks
  · rw [measureContent_eq] at hle
    exact ⟨iff_of_true hnone hle, fun hover ↦ absurd hle (not_le.mpr hover)⟩
  · have htext := hto.text
    rw [measureContent_eq] at hover htext
    refine ⟨⟨fun hnone ↦ ?_, fun hle ↦ absurd hover (not_lt.mpr hle)⟩, fun _ ↦
      ⟨pruned, hpruned, hto, htext, pruneContent_pruned hpruned⟩⟩
    cases hnone.symm.trans hpruned

/-- **Pruning is exact and idempotent**, for a content and for a session. -/
theorem pruning_exact (pruner : ToolResultPruner) :
    (∀ blocks, ContentExact pruner.config blocks) ∧
      ∀ (clock : ℕ → SafeNat) (session : Session) (fold : SurfaceFoldResult),
        foldSurface (stored session.events) = .ok fold → session.events.length < 2 ^ 32 →
        (∀ e ∈ session.events, e.json.WF) →
        (∀ e ∈ session.events, isResult e = true → (resultContent e).isSome = true) →
        ∃ pass state, pruneSession pruner clock session = .ok pass ∧
          SessionPruned pruner session pass.session fold.state state ∧
          ∀ clock', pruneSession pruner clock' pass.session = .ok ⟨pass.session, [], 0⟩ := by
  refine ⟨contentExact pruner.config, fun clock session fold hfold hlength hwf htyped ↦ ?_⟩
  have hsurface : surfaceAfter (stored session.events) = .ok fold.state := by
    rw [← foldSurface_eq, hfold]
    rfl
  obtain ⟨pass, state, hpass, hpruned⟩ :=
    exists_pruneSession pruner clock hsurface hlength hwf htyped
  exact ⟨pass, state, hpass, hpruned, hpruned.pruneSession hsurface htyped⟩

theorem narrow_fits : 1 + codePointLength PRUNE_MARKER + 1 ≤ 41 := by decide +kernel

/-- A budget of one code point on both sides of the marker. -/
def narrow : ToolResultPruner where
  config := ⟨41, 1, 1, narrow_fits⟩
  estimateMessage _ := 0

theorem hasText_textBlock (s : JsString) :
    hasText [prop "type" (text "text"), prop "text" (.str s)] = true := by
  simp [hasText, fieldOf, Value.isString]

/-- A text block. -/
def textBlock (s : JsString) : ContentBlock :=
  ⟨[prop "type" (text "text"), prop "text" (.str s)], hasText_textBlock s⟩

/-- A tool result of some text. -/
def resultDraft (s : JsString) : EventDraft where
  data := .toolResult 1 1 ⟨js "m", js "c", ⟨js "c", [(textBlock s).json], none⟩⟩ none
  payload := .obj [prop "turn" (integer 1), prop "step" (integer 1),
    prop "message" (.obj [prop "id" (text "m"),
      prop "content" (.arr [.obj [prop "type" (text "tool-result"),
        prop "content" (.arr [(textBlock s).json])]])])]
  time := .zero
  surfaceOp := some (text "append")

/-- A log with one tool result. -/
def resultSession (s : JsString) : Session :=
  ⟨.topLevel "s" .zero, [(resultDraft s).event 0], 0⟩

/-- A literal with these names is well formed if its values are. -/
theorem wf_literal {fs : Fields} (names : List String) (hkeys : keys fs = names.map js)
    (hordered : OrderedKeys (names.map js)) (hfields : Json.WFFields fs) : (Json.obj fs).WF := by
  rw [Json.WF, hkeys]
  exact ⟨hordered, hfields⟩

theorem wf_resultEvent (s : JsString) : ((resultDraft s).event 0).json.WF := by
  have hblock : (textBlock s).json.WF :=
    wf_literal ["type", "text"] rfl (by decide +kernel) ⟨trivial, trivial, trivial⟩
  have hresult : (Json.obj [prop "type" (text "tool-result"),
      prop "content" (.arr [(textBlock s).json])]).WF :=
    wf_literal ["type", "content"] rfl (by decide +kernel) ⟨trivial, ⟨hblock, trivial⟩, trivial⟩
  have hmessage : (Json.obj [prop "id" (text "m"), prop "content" (.arr [.obj [
      prop "type" (text "tool-result"), prop "content" (.arr [(textBlock s).json])]])]).WF :=
    wf_literal ["id", "content"] rfl (by decide +kernel) ⟨trivial, ⟨hresult, trivial⟩, trivial⟩
  have hpayload : (resultDraft s).payload.WF :=
    wf_literal ["turn", "step", "message"] rfl (by decide +kernel)
      ⟨trivial, trivial, hmessage, trivial⟩
  have hfields : definedFields ((resultDraft s).fields 0) = [
      prop "type" (text "tool/result"), prop "seq" (integer 0), prop "time" (integer 0),
      prop "data" (resultDraft s).payload, prop "surfaceOp" (text "append")] := by
    simp [EventDraft.fields, resultDraft, definedFields, EventData.type, text, prop, SafeNat.zero]
  change (Json.obj (definedFields ((resultDraft s).fields 0))).WF
  rw [hfields]
  exact wf_literal ["type", "seq", "time", "data", "surfaceOp"] rfl (by decide +kernel)
    ⟨trivial, trivial, trivial, hpayload, trivial, trivial⟩

theorem pruning_exact_narrow : ∃ pass state,
    pruneSession narrow (fun _ ↦ .zero) (resultSession (List.replicate 60 120)) = .ok pass ∧
      SessionPruned narrow (resultSession (List.replicate 60 120)) pass.session ⟨[0], 0⟩ state ∧
      ∀ clock, pruneSession narrow clock pass.session = .ok ⟨pass.session, [], 0⟩ := by
  have hfold : foldSurface (stored (resultSession (List.replicate 60 120)).events) =
      .ok ⟨[0], []⟩ := by rfl
  refine (pruning_exact narrow).2 _ _ _ hfold (by decide) (fun e he ↦ ?_) fun e he _ ↦ ?_
  · rw [List.mem_singleton.mp he]
    exact wf_resultEvent _
  · rw [List.mem_singleton.mp he]
    decide +kernel

/-- The halves of one character in two text blocks, over and over. -/
def halves : List ContentBlock :=
  (List.replicate 25 [textBlock [0xD83D], textBlock [0xDE00]]).flatten

/-- What is pruned may be within the threshold as one text. -/
theorem not_exact_halves :
    ¬ (pruneContent narrow.config halves = .ok none ↔
      codePointLength (contentText halves) ≤ narrow.config.thresholdChars) := by
  intro h
  have hwithin : codePointLength (contentText halves) ≤ narrow.config.thresholdChars := by
    decide +kernel
  have hover : ¬ (MiddleCut.pointsOf (contentTokens halves)).length ≤
      narrow.config.thresholdChars := by decide +kernel
  exact hover ((contentExact narrow.config halves).null_iff.mp (h.mpr hwithin))

end XxAgent.Pruning
