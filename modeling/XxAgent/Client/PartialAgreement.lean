import XxAgent.Ecma.SparseArray
import XxAgent.Llm.FaithfulTranslation

/-!
# The partial answer of a client

The client folds the chunks of a model response into the blocks that it shows while the response
streams. The blocks are kept in a sparse array by block index.
-/

namespace XxAgent.Client

open Ecma Llm

/-- A content block, sorted by what the client cares about. -/
inductive AssistantBlock where
  | text (text : JsString)
  | reasoning (text : JsString)
  | image (attachment : Json)
  | toolCall (callId name argsRaw : JsString)
  /-- The block itself, or `null` where it is not known yet. -/
  | other (block : Option Llm.ContentBlock)
deriving DecidableEq

/-- Classify one block. -/
def toAssistantBlock : Llm.ContentBlock → AssistantBlock
  | .text text => .text text
  | .reasoning text => .reasoning text
  | .image attachment => .image attachment
  | .toolCall id name arguments => .toolCall id name arguments
  | block => .other (some block)

/-- The empty projection of a streamed block. -/
def emptyAssistantBlock : ContentBlockType → AssistantBlock
  | .text => .text []
  | .reasoning => .reasoning []
  | .toolCall => .toolCall [] [] []
  | _ => .other none

structure PartialAssistant where
  turn : ℕ
  step : ℕ
  blocks : DenseArray AssistantBlock
deriving DecidableEq

structure PartialAccumulator where
  turn : ℕ
  step : ℕ
  blocks : SparseArray AssistantBlock
  changed : Bool
  snapshot : PartialAssistant

namespace PartialAccumulator

/-- Accumulation starts from the materialised prefix of a history. -/
def new (turn step : ℕ) (initialBlocks : DenseArray AssistantBlock) : PartialAccumulator :=
  ⟨turn, step, .ofDense initialBlocks, true, ⟨turn, step, initialBlocks⟩⟩

/-- The block of an index after more text. -/
def addText (prev : Option AssistantBlock) (text : JsString) : AssistantBlock :=
  .text ((match prev with | some (.text old) => old | _ => []) ++ text)

def addReasoning (prev : Option AssistantBlock) (text : JsString) : AssistantBlock :=
  .reasoning ((match prev with | some (.reasoning old) => old | _ => []) ++ text)

/-- The first id that is not empty stays; a name that is given replaces the one before. -/
def addToolCall (prev : Option AssistantBlock) (id : XxAgent.CallId) (name : Option JsString)
    (argumentsDelta : JsString) : AssistantBlock :=
  let (callId, oldName, argsRaw) := match prev with
    | some (.toolCall callId oldName argsRaw) => (callId, oldName, argsRaw)
    | _ => ([], [], [])
  .toolCall (if callId = [] then id else callId) (name.getD oldName) (argsRaw ++ argumentsDelta)

/-- `this.blocks[index] = block` -/
def put (a : PartialAccumulator) (index : ℤ) (block : AssistantBlock) :
    Bool × PartialAccumulator :=
  (true, { a with blocks := a.blocks.set index block, changed := true })

/-- Fold one chunk; whether it changes what is visible. -/
def push (a : PartialAccumulator) : StreamChunk → Bool × PartialAccumulator
  | .blockStart index blockType => a.put index (emptyAssistantBlock blockType)
  | .textDelta index text => a.put index (addText (a.blocks.get? index) text)
  | .reasoningDelta index text => a.put index (addReasoning (a.blocks.get? index) text)
  | .toolCallDelta index id name argumentsDelta =>
    a.put index (addToolCall (a.blocks.get? index) id name argumentsDelta)
  | .blockEnd index block => a.put index (toAssistantBlock block)
  | .usage _ => (false, a)
  | .finish .. => (false, a)

/-- The partial projection, which is made again only after a change. -/
def toPartial (a : PartialAccumulator) : PartialAssistant × PartialAccumulator :=
  if a.changed then
    let snapshot := ⟨a.turn, a.step, a.blocks.compact⟩
    (snapshot, { a with snapshot := snapshot, changed := false })
  else (a.snapshot, a)

/-! ## Runs -/

/-- What is done with an accumulator. -/
inductive PartialCall where
  | push (chunk : StreamChunk)
  | toPartial

/-- The chunks that are pushed. -/
def pushed (calls : List PartialCall) : List StreamChunk :=
  calls.filterMap fun
    | .push chunk => some chunk
    | .toPartial => none

def call (a : PartialAccumulator) : PartialCall → PartialAccumulator
  | .push chunk => (a.push chunk).2
  | .toPartial => a.toPartial.2

def run (a : PartialAccumulator) (calls : List PartialCall) : PartialAccumulator :=
  calls.foldl call a

/-- The blocks that are shown. -/
def shown (a : PartialAccumulator) : DenseArray AssistantBlock := a.toPartial.1.blocks

/-- A snapshot is what it would be if it were made again. -/
def Current (a : PartialAccumulator) : Prop :=
  a.changed = false → a.snapshot.blocks = a.blocks.compact

variable {a : PartialAccumulator}

theorem Current.shown_eq (hcurrent : a.Current) : a.shown = a.blocks.compact := by
  rw [shown, toPartial]
  by_cases hchanged : a.changed = true
  · rw [if_pos hchanged]
  · rw [if_neg hchanged]
    exact hcurrent (by simpa using hchanged)

theorem Current.call (hcurrent : a.Current) (call : PartialCall) : (a.call call).Current := by
  cases call with
  | push chunk =>
    cases chunk with
    | usage usage => exact hcurrent
    | finish reason replayState => exact hcurrent
    | blockStart | textDelta | reasoningDelta | toolCallDelta | blockEnd =>
      intro h
      cases h
  | toPartial =>
    rw [PartialAccumulator.call, PartialAccumulator.toPartial]
    by_cases hchanged : a.changed = true
    · rw [if_pos hchanged]
      exact fun _ ↦ rfl
    · rw [if_neg hchanged]
      exact hcurrent

/-- Looking at an accumulator leaves its blocks alone. -/
@[simp] theorem blocks_toPartial (a : PartialAccumulator) : a.toPartial.2.blocks = a.blocks := by
  rw [toPartial]
  split_ifs <;> rfl

theorem Current.run (hcurrent : a.Current) (calls : List PartialCall) : (a.run calls).Current := by
  induction calls generalizing a with
  | nil => exact hcurrent
  | cons call rest ih => exact ih (hcurrent.call call)

theorem current_new (turn step : ℕ) (initialBlocks : DenseArray AssistantBlock) :
    (new turn step initialBlocks).Current := by
  intro h
  cases h

end PartialAccumulator

/-!
## Host and client agree on a partial answer

The assembler keeps the blocks of a stream in the order in which they were opened; the client shows
them in the order of their indexes. Block by block, both have the same.
-/

/-! ## The image of a block -/

/-- The first id that is not empty. -/
def firstId (b : StreamBlock) : JsString := ((b.parts.map ToolCallPart.id).find? (· ≠ [])).getD []

/-- The last name that is given. -/
def lastName (b : StreamBlock) : JsString :=
  (b.parts.filterMap ToolCallPart.name).getLast?.getD []

/-- What a client shows of a block. -/
def image (b : StreamBlock) : AssistantBlock :=
  match b.content with
  | some block => toAssistantBlock block
  | none =>
    match b.blockType with
    | .text => .text b.texts.flatten
    | .reasoning => .reasoning b.texts.flatten
    | .toolCall => .toolCall (firstId b) (lastName b) (b.parts.flatMap ToolCallPart.argumentsDelta)
    | _ => .other none

/-- What is shown of a block, by what is held for it. -/
def Shows (b : StreamBlock) (held : ℤ × Except AssemblyError Llm.ContentBlock)
    (shown : AssistantBlock) : Prop :=
  held.1 = b.index ∧
    match b.content, b.blockType with
    | none, .toolCall => ∃ id name arguments, held.2 = .ok (.toolCall id name arguments) ∧
        shown = .toolCall (firstId b) (lastName b) arguments
    | none, .image => held.2 = .error (.incomplete b.blockType) ∧ shown = .other none
    | none, .toolResult => held.2 = .error (.incomplete b.blockType) ∧ shown = .other none
    | none, .other _ => held.2 = .error (.incomplete b.blockType) ∧ shown = .other none
    | _, _ => ∃ block, held.2 = .ok block ∧ shown = toAssistantBlock block

theorem shows_image (b : StreamBlock) :
    Shows b (b.index, BlockAssembler.assemble b.assembly b.index) (image b) := by
  refine ⟨rfl, ?_⟩
  rw [BlockAssembler.assemble, StreamBlock.assembly, image]
  cases b.content with
  | some block => exact ⟨block, rfl, rfl⟩
  | none =>
    cases b.blockType with
    | text => exact ⟨_, rfl, rfl⟩
    | reasoning => exact ⟨_, rfl, rfl⟩
    | toolCall => exact ⟨_, _, _, rfl, rfl⟩
    | image => exact ⟨rfl, rfl⟩
    | toolResult => exact ⟨rfl, rfl⟩
    | other name => exact ⟨rfl, rfl⟩

variable {b : StreamBlock}

theorem image_addText (hopen : b.content = none) (htype : b.blockType = .text) (text : JsString) :
    image { b with texts := b.texts ++ [text] }
      = PartialAccumulator.addText (some (image b)) text := by
  simp [image, hopen, htype, PartialAccumulator.addText]

theorem image_addReasoning (hopen : b.content = none) (htype : b.blockType = .reasoning)
    (text : JsString) : image { b with texts := b.texts ++ [text] }
      = PartialAccumulator.addReasoning (some (image b)) text := by
  simp [image, hopen, htype, PartialAccumulator.addReasoning]

theorem image_addToolCall (hopen : b.content = none) (htype : b.blockType = .toolCall)
    (part : ToolCallPart) : image { b with parts := b.parts ++ [part] }
      = PartialAccumulator.addToolCall (some (image b)) part.id part.name part.argumentsDelta := by
  simp only [image, hopen, htype, PartialAccumulator.addToolCall]
  congr 1
  · rw [firstId, firstId, List.map_append, List.find?_append]
    cases h : (b.parts.map ToolCallPart.id).find? (· ≠ []) with
    | none =>
      by_cases hid : part.id = []
      · simp [hid]
      · simp [hid]
    | some id =>
      have hid : id ≠ [] := by simpa using List.find?_some h
      simp [hid]
  · rw [lastName, lastName, List.filterMap_append]
    cases hname : part.name with
    | none => simp [hname]
    | some name => simp [hname]
  · simp

/-! ## Mirrors -/

/-- The array has the images of the blocks at their indexes, and nothing else. -/
structure Mirrors (xs : SparseArray AssistantBlock) (blocks : List StreamBlock) : Prop where
  shows : ∀ b ∈ blocks, IsArrayIndex b.index → xs.get? b.index = some (image b)
  holes : ∀ i, IsArrayIndex i → i ∉ blocks.map StreamBlock.index → xs.get? i = none

variable {xs : SparseArray AssistantBlock} {blocks : List StreamBlock} {g h : StreamGrammar}

theorem map_index_atOpen {index : ℤ} {f : StreamBlock → StreamBlock}
    (hindex : ∀ b, (f b).index = b.index) (blocks : List StreamBlock) :
    (atOpen index f blocks).map StreamBlock.index = blocks.map StreamBlock.index := by
  rw [atOpen, List.map_map]
  refine List.map_congr_left fun b _ ↦ ?_
  dsimp only [Function.comp_apply]
  split_ifs
  · exact hindex b
  · rfl

/-- A chunk for the open block of an index. -/
theorem Mirrors.put (hmirrors : Mirrors xs blocks) (hopen : OpenBlocks blocks g) {index : ℤ}
    {openType : ContentBlockType} (hget : g.opened.get? index = some openType)
    (f : StreamBlock → StreamBlock) (next : Option AssistantBlock → AssistantBlock)
    (hindex : ∀ b, (f b).index = b.index)
    (hf : ∀ b, b.content = none → b.blockType = openType → image (f b) = next (some (image b)))
    (hnodup : ((atOpen index f blocks).map StreamBlock.index).Nodup) :
    Mirrors (xs.set index (next (xs.get? index))) (atOpen index f blocks) := by
  obtain ⟨o, ho, rfl, hotype, hoopen⟩ := hopen.exists_open hget
  rw [map_index_atOpen hindex] at hnodup
  have honly : ∀ b ∈ blocks, b.index = o.index → b = o := fun b hb hbindex ↦
    List.inj_on_of_nodup_map hnodup hb ho hbindex
  refine ⟨fun b hb hbindex ↦ ?_, fun i hi hnew ↦ ?_⟩
  · obtain ⟨c, hc, rfl⟩ := List.mem_map.mp hb
    rw [SparseArray.get?_set]
    by_cases hco : c.index = o.index
    · obtain rfl := honly c hc hco
      have hopened : c.index = c.index ∧ c.content = none := ⟨rfl, hoopen⟩
      rw [if_pos hopened, hindex] at hbindex
      rw [if_pos hopened, hindex, if_pos rfl, hf c hoopen hotype, hmirrors.shows c hc hbindex]
    · rw [if_neg (mt And.left hco)] at hbindex ⊢
      rw [if_neg hco]
      exact hmirrors.shows c hc hbindex
  · rw [map_index_atOpen hindex] at hnew
    rw [SparseArray.get?_set, if_neg, hmirrors.holes i hi hnew]
    rintro rfl
    exact hnew (List.mem_map_of_mem ho)

theorem Mirrors.step (hmirrors : Mirrors xs blocks) (hopen : OpenBlocks blocks g)
    {chunk : StreamChunk} (haccepts : Accepts g chunk h)
    (hnodup : ((nextBlocks blocks chunk).map StreamBlock.index).Nodup) {a : PartialAccumulator}
    (ha : a.blocks = xs) : Mirrors (a.push chunk).2.blocks (nextBlocks blocks chunk) := by
  subst ha
  cases haccepts with
  | blockStart index blockType hindex hnew =>
    rw [nextBlocks, List.map_append, List.nodup_append] at hnodup
    refine ⟨fun b hb hbindex ↦ ?_, fun i hi hfree ↦ ?_⟩
    · rw [nextBlocks] at hb
      rw [PartialAccumulator.push, PartialAccumulator.put, SparseArray.get?_set]
      rcases List.mem_append.mp hb with hb | hb
      · have hne : b.index ≠ index := hnodup.2.2 _ (List.mem_map_of_mem hb) _ (by simp)
        rw [if_neg hne]
        exact hmirrors.shows b hb hbindex
      · obtain rfl := List.mem_singleton.mp hb
        rw [if_pos rfl]
        cases blockType <;> rfl
    · rw [nextBlocks, List.map_append, List.mem_append, not_or] at hfree
      have hne : i ≠ index := by simpa using hfree.2
      rw [PartialAccumulator.push, PartialAccumulator.put, SparseArray.get?_set, if_neg hne]
      exact hmirrors.holes i hi hfree.1
  | textDelta index text hget =>
    exact hmirrors.put hopen hget _ (PartialAccumulator.addText · text) (fun _ ↦ rfl)
      (fun b hb htype ↦ image_addText hb htype text) hnodup
  | reasoningDelta index text hget =>
    exact hmirrors.put hopen hget _ (PartialAccumulator.addReasoning · text) (fun _ ↦ rfl)
      (fun b hb htype ↦ image_addReasoning hb htype text) hnodup
  | toolCallDelta index id name argumentsDelta hget =>
    exact hmirrors.put hopen hget _ (PartialAccumulator.addToolCall · id name argumentsDelta)
      (fun _ ↦ rfl) (fun b hb htype ↦ image_addToolCall hb htype ⟨id, name, argumentsDelta⟩) hnodup
  | blockEnd index block hget =>
    exact hmirrors.put hopen hget _ (fun _ ↦ toAssistantBlock block) (fun _ ↦ rfl)
      (fun _ _ _ ↦ rfl) hnodup
  | usage usage => exact hmirrors
  | finish reason replayState hclosed => exact hmirrors

/-! ## Runs -/

open PartialAccumulator (pushed PartialCall)

theorem pushed_append (front back : List PartialCall) :
    pushed (front ++ back) = pushed front ++ pushed back := List.filterMap_append

theorem nodup_index_of_prefix {front chunks : List StreamChunk} (hfront : front <+: chunks)
    (hnodup : ((starts chunks).map Prod.fst).Nodup) :
    ((streamBlocks front).map StreamBlock.index).Nodup := by
  obtain ⟨back, rfl⟩ := hfront
  rw [starts, List.filterMap_append, List.map_append, List.nodup_append] at hnodup
  rw [map_index_streamBlocks]
  exact hnodup.1

/-- Accumulation goes on from what mirrors the blocks so far. -/
theorem Mirrors.run {before chunks : List StreamChunk} {a : PartialAccumulator}
    (hmirrors : Mirrors a.blocks (streamBlocks before)) (haccepted : validateStream chunks = .ok ())
    (hnodup : ((starts chunks).map Prod.fst).Nodup) {later : List PartialCall}
    (hbegin : before ++ pushed later <+: chunks) :
    Mirrors (a.run later).blocks (streamBlocks (before ++ pushed later)) := by
  induction later using List.reverseRecOn with
  | nil => simpa [PartialAccumulator.run, pushed] using hmirrors
  | append_singleton rest call ih =>
    rw [pushed_append, ← List.append_assoc] at hbegin ⊢
    have hrest := ih ((List.prefix_append _ _).trans hbegin)
    rw [PartialAccumulator.run, List.foldl_concat, ← PartialAccumulator.run]
    cases call with
    | toPartial =>
      rw [PartialAccumulator.call, PartialAccumulator.blocks_toPartial]
      simpa [pushed] using hrest
    | push chunk =>
      rw [show pushed [.push chunk] = [chunk] from rfl] at hbegin ⊢
      have hindexes := nodup_index_of_prefix hbegin hnodup
      obtain ⟨back, rfl⟩ := hbegin
      obtain ⟨g, hchunks, -⟩ := validateStream_eq_ok.mp haccepted
      obtain ⟨h, hnext, -⟩ := validateChunks_append_eq_ok.mp hchunks
      obtain ⟨m, hbefore, -, haccepts⟩ := exists_accepts hnext
      rw [streamBlocks_concat] at hindexes ⊢
      exact hrest.step (openBlocks_of_validateChunks hbefore) haccepts hindexes rfl

theorem mirrors_empty : Mirrors (.ofDense ⟨[], by decide⟩) [] where
  shows := by simp
  holes i hi _ := by rw [SparseArray.get?_ofDense _ hi.1]; rfl

/-! ## What is shown -/

theorem index_nonneg {chunks : List StreamChunk}
    (haccepted : validateChunks .initial chunks = .ok g) :
    ∀ b ∈ streamBlocks chunks, 0 ≤ b.index := by
  have hstarts : ∀ p ∈ starts chunks, 0 ≤ p.1 := by
    refine validateChunks_induction (motive := fun chunks _ ↦ ∀ p ∈ starts chunks, 0 ≤ p.1)
      (by simp [starts]) ?_ haccepted
    intro front g chunk h hfront _ haccepts
    rw [starts, List.filterMap_append, ← starts, List.forall_mem_append]
    refine ⟨hfront, ?_⟩
    cases haccepts with
    | blockStart index blockType hindex hnew => simpa using hindex
    | textDelta | reasoningDelta | toolCallDelta | blockEnd | usage | finish => simp
  intro b hb
  rw [← map_start_streamBlocks, List.forall_mem_map] at hstarts
  exact hstarts b hb

/-- The blocks that have array indexes, in the order of these. -/
theorem exists_sorted (hnodup : (blocks.map StreamBlock.index).Nodup) :
    ∃ sorted : List StreamBlock, sorted.Perm (blocks.filter fun b ↦ b.index < arrayLimit) ∧
      sorted.Pairwise fun b c ↦ b.index < c.index := by
  let le (b c : StreamBlock) : Bool := b.index ≤ c.index
  refine ⟨(blocks.filter fun b ↦ b.index < arrayLimit).mergeSort le, List.mergeSort_perm _ _, ?_⟩
  have hsorted := @List.pairwise_mergeSort _ le
    (fun b c d hbc hcd ↦ by simp only [le, decide_eq_true_eq] at *; omega)
    (fun b c ↦ by simp only [le, Bool.or_eq_true, decide_eq_true_eq]; omega)
    (blocks.filter fun b ↦ b.index < arrayLimit)
  have hne : ((blocks.filter fun b ↦ b.index < arrayLimit).mergeSort le).Pairwise
      fun b c ↦ b.index ≠ c.index := by
    rw [← List.pairwise_map]
    refine ((List.mergeSort_perm _ le).map StreamBlock.index).nodup_iff.mpr ?_
    exact hnodup.sublist (List.filter_sublist.map _)
  exact hsorted.imp₂ (fun b c hle hne ↦ by simp only [le, decide_eq_true_eq] at hle; omega) hne

/-- **A client shows the images of the blocks, in the order of their indexes.** -/
theorem Mirrors.compact_eq (hmirrors : Mirrors xs blocks)
    (hnonneg : ∀ b ∈ blocks, 0 ≤ b.index)
    {sorted : List StreamBlock} (hperm : sorted.Perm (blocks.filter fun b ↦ b.index < arrayLimit))
    (hsorted : sorted.Pairwise fun b c ↦ b.index < c.index) :
    xs.compact.1 = sorted.map image := by
  have hentries : (sorted.map fun b ↦ (b.index, image b)).Pairwise fun p q ↦ p.1 < q.1 :=
    List.pairwise_map.mpr hsorted
  rw [SparseArray.compact_eq_map hentries, List.map_map]
  · rfl
  rintro ⟨i, shown⟩
  rw [List.mem_map]
  constructor
  · rintro ⟨b, hb, heq⟩
    obtain ⟨rfl, rfl⟩ := Prod.mk.inj heq
    obtain ⟨hb, hlt⟩ := List.mem_filter.mp (hperm.mem_iff.mp hb)
    have hindex : IsArrayIndex b.index := ⟨hnonneg b hb, of_decide_eq_true hlt⟩
    exact ⟨hindex, hmirrors.shows b hb hindex⟩
  · rintro ⟨hindex, hget⟩
    by_cases hmem : i ∈ blocks.map StreamBlock.index
    · obtain ⟨b, hb, rfl⟩ := List.mem_map.mp hmem
      rw [hmirrors.shows b hb hindex, Option.some.injEq] at hget
      exact ⟨b, hperm.mem_iff.mpr (List.mem_filter.mpr ⟨hb, decide_eq_true hindex.2⟩),
        Prod.ext rfl hget⟩
    · rw [hmirrors.holes i hindex hmem] at hget
      cases hget

/-- Blocks at the indexes `0` to `n - 1` are mirrored by the array of what is shown. -/
theorem Mirrors.ofDense (hmirrors : Mirrors xs blocks)
    (hdense : (blocks.map StreamBlock.index).Perm ((List.range blocks.length).map Int.ofNat)) :
    Mirrors (.ofDense xs.compact) blocks := by
  have hmem (i : ℤ) : i ∈ blocks.map StreamBlock.index ↔ 0 ≤ i ∧ i < blocks.length := by
    rw [hdense.mem_iff, List.mem_map]
    constructor
    · rintro ⟨k, hk, rfl⟩
      have := List.mem_range.mp hk
      simp only [Int.ofNat_eq_natCast]
      omega
    · rintro ⟨hlow, hhigh⟩
      exact ⟨i.toNat, List.mem_range.mpr (by omega), Int.toNat_of_nonneg hlow⟩
  have hnodup : (blocks.map StreamBlock.index).Nodup :=
    hdense.nodup_iff.mpr (List.nodup_range.map fun _ _ ↦ Int.ofNat.inj)
  have hnonneg : ∀ b ∈ blocks, 0 ≤ b.index :=
    fun b hb ↦ ((hmem _).mp (List.mem_map_of_mem hb)).1
  obtain ⟨sorted, hperm, hsorted⟩ := exists_sorted hnodup
  have hshown := hmirrors.compact_eq hnonneg hperm hsorted
  -- The indexes of what is shown count up from zero.
  have hindexes : sorted.map StreamBlock.index
      = (List.range (min blocks.length arrayLimit.toNat)).map Int.ofNat := by
    refine (List.pairwise_map.mpr hsorted).eq_of_mem_iff (r := fun i j : ℤ ↦ i < j)
      (List.pairwise_map.mpr (List.pairwise_lt_range.imp fun h ↦ by
        simp only [Int.ofNat_eq_natCast]; omega)) fun i ↦ ?_
    have hfilter : i ∈ sorted.map StreamBlock.index ↔
        i ∈ blocks.map StreamBlock.index ∧ i < arrayLimit := by
      rw [(hperm.map StreamBlock.index).mem_iff, List.mem_map, List.mem_map]
      constructor
      · rintro ⟨b, hb, rfl⟩
        obtain ⟨hb, hlt⟩ := List.mem_filter.mp hb
        exact ⟨⟨b, hb, rfl⟩, of_decide_eq_true hlt⟩
      · rintro ⟨⟨b, hb, rfl⟩, hlt⟩
        exact ⟨b, List.mem_filter.mpr ⟨hb, decide_eq_true hlt⟩, rfl⟩
    rw [hfilter, hmem, List.mem_map]
    constructor
    · rintro ⟨⟨hlow, hhigh⟩, hlt⟩
      exact ⟨i.toNat, List.mem_range.mpr (by omega), Int.toNat_of_nonneg hlow⟩
    · rintro ⟨k, hk, rfl⟩
      have := List.mem_range.mp hk
      have hlimit : arrayLimit = 4294967295 := rfl
      simp only [Int.ofNat_eq_natCast]
      omega
  have hlength : xs.compact.1.length = min blocks.length arrayLimit.toNat := by
    have := congrArg List.length hindexes
    simp only [List.length_map, List.length_range] at this
    rw [hshown, List.length_map, this]
  refine ⟨fun b hb hindex ↦ ?_, fun i hi hfree ↦ ?_⟩
  · have hin : b ∈ sorted :=
      hperm.mem_iff.mpr (List.mem_filter.mpr ⟨hb, decide_eq_true hindex.2⟩)
    obtain ⟨k, hk⟩ := List.mem_iff_getElem?.mp hin
    have hkindex := congrArg (·[k]?) hindexes
    simp only [List.getElem?_map, hk, Option.map_some] at hkindex
    obtain ⟨m, hm, hmk⟩ := Option.map_eq_some_iff.mp hkindex.symm
    obtain ⟨hlt, rfl⟩ := List.getElem?_eq_some_iff.mp hm
    rw [List.getElem_range] at hmk
    rw [SparseArray.get?_ofDense _ hindex.1, hshown, List.getElem?_map, ← hmk, Int.ofNat_eq_natCast,
      Int.toNat_natCast, hk, Option.map_some]
  · rw [SparseArray.get?_ofDense _ hi.1, List.getElem?_eq_none_iff, hlength]
    rw [hmem] at hfree
    have hlow := hi.1
    have hhigh := hi.2
    omega

/-! ## Agreement -/

/-- What the host holds for the blocks that have array indexes. -/
def showable (chunks : List StreamChunk) :
    List (StreamBlock × ℤ × Except AssemblyError Llm.ContentBlock) :=
  ((streamBlocks chunks).zip (BlockAssembler.pushAll chunks).held).filter fun p ↦
    p.1.index < arrayLimit

/-- What the host holds, as a client classifies it. -/
def heldImages (chunks : List StreamChunk) : List (Except AssemblyError AssistantBlock) :=
  (BlockAssembler.pushAll chunks).held.map fun p ↦ p.2.map toAssistantBlock

/-- An open block that both read alike: its type has deltas, and the deltas of a tool call carry one
id and no empty name. -/
def ReadAlike (b : StreamBlock) : Prop :=
  b.content = none →
    match b.blockType with
    | .text => True
    | .reasoning => True
    | .toolCall => b.parts ≠ [] ∧ ∃ id, id ≠ [] ∧
        ∀ part ∈ b.parts, part.id = id ∧ part.name ≠ some []
    | _ => False

/-- What is shown agrees with what is held. -/
structure PartialAgrees (chunks : List StreamChunk) (shown : DenseArray AssistantBlock) : Prop where
  complete : (BlockAssembler.pushAll chunks).held.length = (streamBlocks chunks).length
  byIndex : ∃ sorted, sorted.Perm (showable chunks) ∧
    sorted.Pairwise (fun p q ↦ p.1.index < q.1.index) ∧
    List.Forall₂ (fun p block ↦ Shows p.1 p.2 block) sorted shown.1
  inOrder : (streamBlocks chunks).Pairwise (fun b c ↦ b.index < c.index) →
    (∀ b ∈ streamBlocks chunks, b.index < arrayLimit ∧ ReadAlike b) →
      heldImages chunks = shown.1.map .ok

/-- The last name given is the last one that is not empty, when none is. -/
theorem image_eq_of_readAlike (hread : ReadAlike b) :
    (BlockAssembler.assemble b.assembly b.index).map toAssistantBlock = .ok (image b) := by
  rw [BlockAssembler.assemble, StreamBlock.assembly, image]
  cases hcontent : b.content with
  | some block => rfl
  | none =>
    have hread := hread hcontent
    cases htype : b.blockType with
    | text => rfl
    | reasoning => rfl
    | toolCall =>
      rw [htype] at hread
      obtain ⟨hparts, id, hid, hall⟩ := hread
      have hnames : (b.parts.filterMap fun part ↦
          if part.name.getD [] = [] then none else part.name)
            = b.parts.filterMap ToolCallPart.name := by
        refine List.filterMap_congr fun part hpart ↦ ?_
        cases hname : part.name with
        | none => simp
        | some name =>
          have hne : name ≠ [] := fun h ↦ (hall part hpart).2 (by rw [hname, h])
          simp [hne]
      obtain ⟨front, last, hlast⟩ := (List.eq_nil_or_concat b.parts).resolve_left hparts
      have hfirst : firstId b = id := by
        obtain ⟨part, rest, hcons⟩ := List.exists_cons_of_ne_nil hparts
        have hpart := (hall part (by simp [hcons])).1
        simp [firstId, hcons, hpart, hid]
      have hlastId : b.parts.getLast?.map ToolCallPart.id = some id := by
        have hpart := (hall last (by simp [hlast])).1
        rw [hlast, List.concat_eq_append, List.getLast?_concat, Option.map_some, hpart]
      rw [hfirst, hlastId, hnames, lastName]
      rfl
    | image =>
      rw [htype] at hread
      exact hread.elim
    | toolResult =>
      rw [htype] at hread
      exact hread.elim
    | other name =>
      rw [htype] at hread
      exact hread.elim

theorem partialAgrees_of_mirrors {chunks : List StreamChunk}
    (hmirrors : Mirrors xs (streamBlocks chunks))
    (haccepted : validateChunks .initial chunks = .ok g)
    (hnodup : ((streamBlocks chunks).map StreamBlock.index).Nodup) :
    PartialAgrees chunks xs.compact := by
  have hheld := (holdsFirsts_pushAll haccepted).held_eq
  rw [firsts_eq_self hnodup] at hheld
  have hnonneg := index_nonneg haccepted
  refine ⟨by rw [hheld, List.length_map], ?_, fun hincreasing hread ↦ ?_⟩
  · obtain ⟨sorted, hperm, hsorted⟩ := exists_sorted hnodup
    refine ⟨sorted.map fun b ↦ (b, b.index, BlockAssembler.assemble b.assembly b.index), ?_,
      List.pairwise_map.mpr hsorted, ?_⟩
    · rw [showable, hheld, ← List.map_prod_left_eq_zip, List.filter_map]
      exact hperm.map _
    · rw [hmirrors.compact_eq hnonneg hperm hsorted, List.forall₂_map_left_iff,
        List.forall₂_map_right_iff, List.forall₂_same]
      exact fun b _ ↦ shows_image b
  · have hall : (streamBlocks chunks).filter (fun b ↦ b.index < arrayLimit) = streamBlocks chunks :=
      List.filter_eq_self.mpr fun b hb ↦ decide_eq_true (hread b hb).1
    rw [hmirrors.compact_eq hnonneg (.of_eq hall.symm) hincreasing, heldImages, hheld, List.map_map,
      List.map_map]
    exact List.map_congr_left fun b hb ↦ image_eq_of_readAlike (hread b hb).2

/-- **Host and client agree**, at every prefix of a stream that opens each index once. Accumulation
may start from what is shown after a prefix whose indexes are those of a dense array. -/
theorem partialAgrees_run {chunks : List StreamChunk} (haccepted : validateStream chunks = .ok ())
    (hnodup : ((starts chunks).map Prod.fst).Nodup) (turn step : ℕ) (calls later : List PartialCall)
    (hbegin : pushed (calls ++ later) <+: chunks) :
    let seen := (PartialAccumulator.new turn step ⟨[], by decide⟩).run calls
    PartialAgrees (pushed (calls ++ later)) (seen.run later).shown ∧
      (((starts (pushed calls)).map Prod.fst).Perm
          ((List.range (starts (pushed calls)).length).map Int.ofNat) →
        ((PartialAccumulator.new turn step seen.shown).run later).shown
          = (seen.run later).shown) := by
  intro seen
  rw [pushed_append] at hbegin ⊢
  have hcurrent : seen.Current := (PartialAccumulator.current_new _ _ _).run calls
  have hfront : pushed calls <+: chunks := (List.prefix_append _ _).trans hbegin
  have hstart : Mirrors (PartialAccumulator.new turn step ⟨[], by decide⟩).blocks
      (streamBlocks []) := mirrors_empty
  have hseen : Mirrors seen.blocks (streamBlocks (pushed calls)) :=
    hstart.run haccepted hnodup hfront
  have hwhole := hseen.run haccepted hnodup hbegin
  have hindexes := nodup_index_of_prefix hbegin hnodup
  obtain ⟨back, rfl⟩ := hbegin
  obtain ⟨g, hchunks, -⟩ := validateStream_eq_ok.mp haccepted
  obtain ⟨h, hnext, -⟩ := validateChunks_append_eq_ok.mp hchunks
  rw [(hcurrent.run later).shown_eq]
  refine ⟨partialAgrees_of_mirrors hwhole hnext hindexes, fun hdense ↦ ?_⟩
  have hlength : (starts (pushed calls)).length = (streamBlocks (pushed calls)).length := by
    rw [← map_start_streamBlocks, List.length_map]
  rw [← map_index_streamBlocks, hlength] at hdense
  have hagain := Mirrors.run (a := .new turn step seen.shown)
    (hcurrent.shown_eq ▸ hseen.ofDense hdense) haccepted hnodup (List.prefix_append _ back)
  rw [((PartialAccumulator.current_new _ _ _).run later).shown_eq]
  obtain ⟨sorted, hperm, hsorted⟩ := exists_sorted hindexes
  refine Subtype.ext ?_
  rw [hagain.compact_eq (index_nonneg hnext) hperm hsorted,
    hwhole.compact_eq (index_nonneg hnext) hperm hsorted]

/-- **What a provider streams is shown as it is held**, at every prefix of its translation, whenever
the partial is read: the blocks open in the order of their indexes. -/
theorem translated_partialAgrees (asWireChunk : Json → WireChunk)
    (toUpperCase : JsString → JsString) (payloads : List JsString) :
    match wireChunks asWireChunk payloads with
    | none => True
    | some chunks => (channels (fragmentsOf chunks)).length ≤ maxBlocks →
      ∀ (turn step : ℕ) (calls : List PartialCall),
        pushed calls <+: (translate asWireChunk toUpperCase payloads).chunks →
          (streamBlocks (pushed calls)).Pairwise (fun b c ↦ b.index < c.index) ∧
            PartialAgrees (pushed calls)
              ((PartialAccumulator.new turn step ⟨[], by decide⟩).run calls).shown := by
  cases hread : wireChunks asWireChunk payloads with
  | none => trivial
  | some chunks =>
    intro hmax turn step calls hbegin
    obtain ⟨s, yielded, h, hchunks, -⟩ :=
      @translateFrom_of_wireChunks asWireChunk toUpperCase _ _ _ _ _ translating_initial hread
    have haccepted := (faithful_of_wireChunks asWireChunk toUpperCase hread hmax).accepted
    change (translate asWireChunk toUpperCase payloads).chunks = _ at hchunks
    rw [hchunks] at hbegin haccepted
    have hincreasing : ((starts (yielded ++ s.done)).map Prod.fst).Pairwise (· < ·) := by
      rw [← map_index_streamBlocks, map_index_done (h.feeding.emits hmax) h.feeding.holds]
      exact List.pairwise_map.mpr (List.pairwise_lt_range.imp Int.ofNat_lt.mpr)
    have hnodup := hincreasing.imp ne_of_lt
    have hstart : Mirrors (PartialAccumulator.new turn step ⟨[], by decide⟩).blocks
        (streamBlocks []) := mirrors_empty
    have hmirrors := hstart.run haccepted hnodup hbegin
    have hdistinct := nodup_index_of_prefix hbegin hnodup
    obtain ⟨back, hback⟩ := hbegin
    obtain ⟨g, hwhole, -⟩ := validateStream_eq_ok.mp haccepted
    rw [← hback] at hwhole hincreasing
    obtain ⟨g', hfront, -⟩ := validateChunks_append_eq_ok.mp hwhole
    rw [((PartialAccumulator.current_new _ _ _).run calls).shown_eq]
    refine ⟨?_, partialAgrees_of_mirrors hmirrors hfront hdistinct⟩
    rw [starts, List.filterMap_append, List.map_append, List.pairwise_append] at hincreasing
    exact List.pairwise_map.mp (map_index_streamBlocks (pushed calls) ▸ hincreasing.1)

/-- The second block is opened under the smaller index, and the partial is read in between. -/
theorem partialAgrees_run_interleaved :
    let chunks : List StreamChunk := [.blockStart 0 .reasoning, .blockStart 2 .text,
      .textDelta 2 (js "a"), .blockStart 1 .toolCall, .reasoningDelta 0 (js "b"),
      .toolCallDelta 1 (js "c1") (some (js "read")) (js "[]"), .textDelta 2 (js "c"),
      .finish (.aborted .null) none]
    let calls : List PartialCall := [.push (.blockStart 0 .reasoning), .toPartial]
    let later : List PartialCall := [.push (.blockStart 2 .text), .push (.textDelta 2 (js "a")),
      .toPartial, .push (.blockStart 1 .toolCall), .push (.reasoningDelta 0 (js "b")),
      .push (.toolCallDelta 1 (js "c1") (some (js "read")) (js "[]")),
      .push (.textDelta 2 (js "c"))]
    let seen := (PartialAccumulator.new 0 0 ⟨[], by decide⟩).run calls
    pushed (calls ++ later) <+: chunks ∧
      PartialAgrees (pushed (calls ++ later)) (seen.run later).shown ∧
      ((PartialAccumulator.new 0 0 seen.shown).run later).shown = (seen.run later).shown := by
  intro chunks calls later seen
  have hbegin : pushed (calls ++ later) <+: chunks := by decide +kernel
  have hagrees := @partialAgrees_run chunks (by decide +kernel) (by decide) 0 0 calls later hbegin
  exact ⟨hbegin, hagrees.1, hagrees.2 (by decide)⟩

/-- The blocks that are shown before a stream finishes are not those that are held. -/
def Differs (chunks : List StreamChunk) : Prop :=
  let calls := chunks.dropLast.map PartialCall.push
  validateStream chunks = .ok () ∧ ((starts chunks).map Prod.fst).Nodup ∧
    heldImages chunks.dropLast
      ≠ ((PartialAccumulator.new 0 0 ⟨[], by decide⟩).run calls).shown.1.map .ok

instance (chunks : List StreamChunk) : Decidable (Differs chunks) :=
  inferInstanceAs (Decidable (_ ∧ _ ∧ _))

/-- Where they differ: blocks that open in another order than that of their indexes, a tool call
without deltas, with a second id or with an empty name, a block of a type without deltas, an index
that is no array index, and accumulation from a block at another place. -/
theorem exists_differs :
    Differs [.blockStart 1 .text, .blockStart 0 .reasoning, .finish (.aborted .null) none] ∧
    Differs [.blockStart 0 .toolCall, .finish (.aborted .null) none] ∧
    Differs [.blockStart 0 .toolCall, .toolCallDelta 0 (js "c1") (some (js "read")) (js "["),
      .toolCallDelta 0 (js "c2") none (js "]"), .finish (.aborted .null) none] ∧
    Differs [.blockStart 0 .toolCall, .toolCallDelta 0 (js "c1") (some (js "read")) (js "["),
      .toolCallDelta 0 (js "c1") (some []) (js "]"), .finish (.aborted .null) none] ∧
    Differs [.blockStart 0 .image, .finish (.aborted .null) none] ∧
    Differs [.blockStart 4294967295 .text, .finish (.aborted .null) none] ∧
    ∃ front chunk, validateStream [front, chunk, .finish (.aborted .null) none] = .ok () ∧
      heldImages [front, chunk]
        ≠ ((PartialAccumulator.new 0 0 ((PartialAccumulator.new 0 0 ⟨[], by decide⟩).run
          [.push front]).shown).run [.push chunk]).shown.1.map .ok := by
  refine ⟨by decide +kernel, by decide +kernel, by decide +kernel, by decide +kernel,
    by decide +kernel, by decide +kernel, .blockStart 1 .text, .textDelta 1 (js "a"),
    by decide +kernel, by decide +kernel⟩

end XxAgent.Client
