import XxAgent.Llm.AssembledBlocks

/-!
# No streamed block is lost

What it means that the assembler keeps a stream: the blocks are those of the stream, the deltas of
an open block show, and replay entries stay with their blocks. It holds of a stream that is accepted
and finishes normally exactly when no block index is started twice.
-/

namespace XxAgent.Llm

open Ecma

/-! ## Kept streams -/

/-- How a stream finishes. -/
def finishOf (chunks : List StreamChunk) : Option (FinishReason × Option ReplayEnvelope) :=
  match chunks.getLast? with
  | some (.finish reason replayState) => some (reason, replayState)
  | _ => none

/-- Only tool calls are dropped, and only by truncation. -/
def keeps (reason : FinishReason) (block : ContentBlock) : Bool :=
  reason ≠ .maxTokens || block.type ≠ .toolCall

/-- An open block of the stream shows its deltas; a block of another type has none. -/
def ShowsDeltas (b : StreamBlock) (held : Option (ℤ × Except AssemblyError ContentBlock)) : Prop :=
  match b.blockType with
  | .text => held = some (b.index, .ok (.text b.texts.flatten))
  | .reasoning => held = some (b.index, .ok (.reasoning b.texts.flatten))
  | .toolCall => ∃ id name, held = some (b.index, .ok (.toolCall id name
      (b.parts.flatMap ToolCallPart.argumentsDelta)))
  | _ => True

/-- The assembler keeps the stream. -/
structure StreamKept (chunks : List StreamChunk) (reason : FinishReason)
    (replay : Option ReplayEnvelope) : Prop where
  /-- A block for each start, with the content of its end. -/
  blocks : ∃ all : List ContentBlock, (streamBlocks chunks).map StreamBlock.content = all.map some ∧
    (BlockAssembler.pushAll chunks).blocks = .ok (all.filter (keeps reason)) ∧
    -- An entry for each block that is returned: the one that the finish has for it.
    ∀ envelope entries, (BlockAssembler.pushAll chunks).replayState = .ok (some envelope) →
      envelope.blocks = some entries → ∃ given finished, replay = some finished ∧
        finished.blocks = some given ∧ given.length = all.length ∧
        entries = ((all.zip given).filter fun p ↦ keeps reason p.1).map Prod.snd
  /-- At every prefix. -/
  deltas : ∀ front, front <+: chunks → ∀ (k : ℕ) (b : StreamBlock),
    (streamBlocks front)[k]? = some b → b.content = none →
      ShowsDeltas b (BlockAssembler.pushAll front).held[k]?

/-! ## The end of a stream -/

variable {chunks : List StreamChunk} {reason : FinishReason} {replay : Option ReplayEnvelope}

theorem finishOf_eq_some (h : finishOf chunks = some (reason, replay)) :
    ∃ front, chunks = front ++ [.finish reason replay] := by
  rcases List.eq_nil_or_concat chunks with rfl | ⟨front, last, rfl⟩
  · simp [finishOf] at h
  · rw [List.concat_eq_append] at h ⊢
    rw [finishOf, List.getLast?_concat] at h
    cases last with
    | finish reason' replay' =>
      obtain ⟨rfl, rfl⟩ := Prod.mk.inj (Option.some.inj h)
      exact ⟨front, rfl⟩
    | _ => simp at h

/-- The contents of closed blocks. -/
theorem exists_map_content {blocks : List StreamBlock}
    (hclosed : ∀ b ∈ blocks, b.content.isSome) :
    ∃ all : List ContentBlock, blocks.map StreamBlock.content = all.map some := by
  induction blocks with
  | nil => exact ⟨[], rfl⟩
  | cons b rest ih =>
    rw [List.forall_mem_cons] at hclosed
    obtain ⟨content, hcontent⟩ := Option.isSome_iff_exists.mp hclosed.1
    obtain ⟨all, hall⟩ := ih hclosed.2
    exact ⟨content :: all, by rw [List.map_cons, hcontent, hall, List.map_cons]⟩

/-- All blocks are closed at a normal finish. -/
theorem exists_contents (haccepted : validateStream chunks = .ok ())
    (hfinish : finishOf chunks = some (reason, replay)) (hnormal : reason.normal) :
    ∃ all : List ContentBlock, (streamBlocks chunks).map StreamBlock.content = all.map some := by
  obtain ⟨front, rfl⟩ := finishOf_eq_some hfinish
  obtain ⟨g, hchunks, -⟩ := validateStream_eq_ok.mp haccepted
  obtain ⟨m, hfront, hlast⟩ := validateChunks_append_eq_ok.mp hchunks
  have hopen := openBlocks_of_validateChunks hfront
  have hentries : m.opened.entries = [] := by
    rw [validateChunks] at hlast
    cases h : validateChunk m (.finish reason replay) with
    | error e => simp [h] at hlast
    | ok h' =>
      obtain ⟨-, haccepts⟩ := accepts_of_validateChunk h
      cases haccepts with
      | finish _ _ hclosed => exact hclosed hnormal
  rw [streamBlocks_concat, nextBlocks]
  refine exists_map_content fun b hb ↦ ?_
  by_contra hnone
  have hget := (hopen.types b.index b.blockType).mpr
    ⟨b, hb, rfl, rfl, Option.not_isSome_iff_eq_none.mp hnone⟩
  have := OrderedMap.mem_of_get? hget
  rw [hentries] at this
  cases this

/-! ## What is returned -/

/-- The contents of the first blocks. -/
theorem mapM_assembleAt {a : BlockAssembler} {blocks : List StreamBlock}
    (hholds : HoldsFirsts a blocks) {held : List ContentBlock}
    (hheld : (firsts blocks).map StreamBlock.content = held.map some) :
    a.order.mapM a.assembleAt = .ok held := by
  rw [hholds.order]
  have hpartials := hholds.partials
  generalize firsts blocks = first at hheld hpartials
  induction first generalizing held with
  | nil =>
    obtain rfl := List.map_eq_nil_iff.mp hheld.symm
    rfl
  | cons b rest ih =>
    cases held with
    | nil => simp at hheld
    | cons content held =>
      rw [List.map_cons, List.map_cons, List.cons_eq_cons] at hheld
      rw [List.forall_mem_cons] at hpartials
      have hb : a.assembleAt b.index = .ok content := by
        rw [BlockAssembler.assembleAt, hpartials.1]
        dsimp only
        rw [BlockAssembler.assemble, StreamBlock.assembly, hheld.1]
      rw [List.map_cons, List.mapM_cons, hb, ih hheld.2 hpartials.2]
      rfl

/-- The blocks that are kept, counted. -/
theorem countP_keeps {blocks : List StreamBlock} {held : List ContentBlock}
    (hheld : blocks.map StreamBlock.content = held.map some) :
    blocks.countP (fun b ↦ b.content.any (keeps reason)) = (held.filter (keeps reason)).length := by
  have hcount := congrArg (List.countP (Option.any (keeps reason))) hheld
  rw [List.countP_map, List.countP_map] at hcount
  rw [← List.countP_eq_length_filter]
  exact hcount

/-- The finish is the last thing that the assembler is fed. -/
theorem finish_pushAll (front : List StreamChunk) (reason : FinishReason)
    (replay : Option ReplayEnvelope) :
    (BlockAssembler.pushAll (front ++ [.finish reason replay])).finish = reason ∧
      (BlockAssembler.pushAll (front ++ [.finish reason replay])).replay? = replay := by
  rw [BlockAssembler.pushAll, List.foldl_concat]
  exact ⟨rfl, rfl⟩

theorem kept_eq_keeps {a : BlockAssembler} (h : a.finish = reason) : a.kept = keeps reason := by
  funext block
  rw [BlockAssembler.kept, keeps, h]

/-- The blocks that are returned, when the assembler holds these. -/
theorem blocks_of_held {a : BlockAssembler} {held : List ContentBlock}
    (hheld : a.order.mapM a.assembleAt = .ok held) : a.blocks = .ok (held.filter a.kept) := by
  rw [BlockAssembler.blocks, BlockAssembler.assembled, hheld]
  dsimp only
  cases a.replay? with
  | none => rfl
  | some envelope =>
    dsimp only
    cases envelope.blocks with
    | none => rfl
    | some entries =>
      dsimp only
      split_ifs <;> rfl

private theorem zip_filter_true {all : List ContentBlock} {given : List Json}
    {keep : ContentBlock → Bool} (hlength : given.length = all.length)
    (hkeep : ∀ block ∈ all, keep block = true) :
    ((all.zip given).filter fun p ↦ keep p.1).map Prod.snd = given := by
  rw [List.filter_eq_self.mpr fun p hp ↦ hkeep p.1 (List.of_mem_zip hp).1,
    List.map_snd_zip hlength.le]

/-- The replay entries that are returned, when the assembler holds these. -/
theorem entries_of_held {a : BlockAssembler} {held : List ContentBlock}
    (hheld : a.order.mapM a.assembleAt = .ok held) {envelope : ReplayEnvelope}
    {entries : List Json} (hreplay : a.replayState = .ok (some envelope))
    (hentries : envelope.blocks = some entries) :
    ∃ given finished, a.replay? = some finished ∧ finished.blocks = some given ∧
      given.length = held.length ∧
      entries = ((held.zip given).filter fun p ↦ a.kept p.1).map Prod.snd := by
  rw [BlockAssembler.replayState, BlockAssembler.assembled, hheld] at hreplay
  dsimp only at hreplay
  cases hfinished : a.replay? with
  | none =>
    simp only [hfinished] at hreplay
    cases Except.ok.inj hreplay
  | some finished =>
    simp only [hfinished] at hreplay
    cases hgiven : finished.blocks with
    | none =>
      simp only [hgiven] at hreplay
      obtain rfl := Option.some.inj (Except.ok.inj hreplay)
      rw [hgiven] at hentries
      cases hentries
    | some given =>
      simp only [hgiven] at hreplay
      by_cases hlength : given.length = held.length
      · rw [if_neg (not_not.mpr hlength)] at hreplay
        refine ⟨given, finished, rfl, hgiven, hlength, ?_⟩
        by_cases hall : a.finish ≠ .maxTokens ∨ (held.filter a.kept).length = held.length
        · rw [if_pos hall] at hreplay
          obtain rfl := Option.some.inj (Except.ok.inj hreplay)
          rw [hgiven] at hentries
          obtain rfl := Option.some.inj hentries
          have hkeep : ∀ block ∈ held, a.kept block = true := by
            rcases hall with hfinish | hsame
            · intro block _
              rw [BlockAssembler.kept, decide_eq_true hfinish, Bool.true_or]
            · exact List.filter_eq_self.mp (List.filter_sublist.eq_of_length hsame)
          exact (zip_filter_true hlength hkeep).symm
        · rw [if_neg hall] at hreplay
          obtain rfl := Option.some.inj (Except.ok.inj hreplay)
          exact (Option.some.inj hentries).symm
      · rw [if_pos hlength] at hreplay
        cases Except.ok.inj hreplay

/-! ## Streams without a second start -/

theorem showsDeltas_assemble {b : StreamBlock} (hopen : b.content = none) :
    ShowsDeltas b (some (b.index, BlockAssembler.assemble b.assembly b.index)) := by
  rw [ShowsDeltas, BlockAssembler.assemble, StreamBlock.assembly, hopen]
  cases b.blockType with
  | text => rfl
  | reasoning => rfl
  | toolCall => exact ⟨_, _, rfl⟩
  | image => trivial
  | toolResult => trivial
  | other name => trivial

theorem streamKept_of_nodup (haccepted : validateStream chunks = .ok ())
    (hfinish : finishOf chunks = some (reason, replay)) (hnormal : reason.normal)
    (hnodup : ((starts chunks).map Prod.fst).Nodup) : StreamKept chunks reason replay := by
  obtain ⟨all, hall⟩ := exists_contents haccepted hfinish hnormal
  obtain ⟨g, hchunks, -⟩ := validateStream_eq_ok.mp haccepted
  have hfirsts := firsts_eq_self ((map_index_streamBlocks chunks).symm ▸ hnodup)
  have hheld := mapM_assembleAt (holdsFirsts_pushAll hchunks) (hfirsts.symm ▸ hall)
  obtain ⟨hreason, hreplay⟩ : (BlockAssembler.pushAll chunks).finish = reason ∧
      (BlockAssembler.pushAll chunks).replay? = replay := by
    obtain ⟨front, rfl⟩ := finishOf_eq_some hfinish
    exact finish_pushAll front reason replay
  refine ⟨⟨all, hall, ?_, fun envelope entries henvelope hentries ↦ ?_⟩, ?_⟩
  · rw [blocks_of_held hheld, kept_eq_keeps hreason]
  · rw [← hreplay, ← kept_eq_keeps hreason]
    exact entries_of_held hheld henvelope hentries
  · rintro front ⟨back, rfl⟩ k b hb hopen
    obtain ⟨m, hfront, -⟩ := validateChunks_append_eq_ok.mp hchunks
    have hfrontnodup : ((streamBlocks front).map StreamBlock.index).Nodup := by
      rw [map_index_streamBlocks]
      rw [starts, List.filterMap_append, List.map_append, List.nodup_append] at hnodup
      exact hnodup.1
    rw [(holdsFirsts_pushAll hfront).held_eq, firsts_eq_self hfrontnodup, List.getElem?_map, hb]
    exact showsDeltas_assemble hopen

/-! ## A second start -/

/-- The first start of an index that has been started. -/
theorem exists_restart (hnodup : ¬ ((starts chunks).map Prod.fst).Nodup) :
    ∃ front index blockType back, chunks = front ++ .blockStart index blockType :: back ∧
      index ∈ (starts front).map Prod.fst := by
  induction chunks using List.reverseRecOn with
  | nil => exact absurd List.nodup_nil hnodup
  | append_singleton front chunk ih =>
    by_cases hfront : ((starts front).map Prod.fst).Nodup
    · rw [starts, List.filterMap_append, ← starts, List.map_append] at hnodup
      cases chunk with
      | blockStart index blockType =>
        refine ⟨front, index, blockType, [], rfl, ?_⟩
        by_contra hnew
        refine hnodup (List.nodup_append.mpr ⟨hfront, List.nodup_singleton _, ?_⟩)
        rintro a ha b hb rfl
        have ha' : a = index := by simpa using hb
        exact hnew (ha' ▸ ha)
      | textDelta => exact absurd hfront (by simpa using hnodup)
      | reasoningDelta => exact absurd hfront (by simpa using hnodup)
      | toolCallDelta => exact absurd hfront (by simpa using hnodup)
      | blockEnd => exact absurd hfront (by simpa using hnodup)
      | usage => exact absurd hfront (by simpa using hnodup)
      | finish => exact absurd hfront (by simpa using hnodup)
    · obtain ⟨before, index, blockType, back, rfl, hmem⟩ := ih hfront
      exact ⟨before, index, blockType, back ++ [chunk], by simp, hmem⟩

/-- A block without deltas that is started again is not among those that are returned. -/
theorem not_streamKept_of_restart {front back : List StreamChunk} {index : ℤ}
    {blockType : ContentBlockType}
    (haccepted : validateStream (front ++ .blockStart index blockType :: back) = .ok ())
    (hfinish : finishOf (front ++ .blockStart index blockType :: back) = some (reason, replay))
    (hmem : index ∈ (starts front).map Prod.fst) :
    ¬ StreamKept (front ++ .blockStart index blockType :: back) reason replay := by
  rintro ⟨⟨all, hall, hblocks, -⟩, hdeltas⟩
  obtain ⟨g, hchunks, -⟩ := validateStream_eq_ok.mp haccepted
  have hsplit : front ++ .blockStart index blockType :: back
      = (front ++ [.blockStart index blockType]) ++ back := by simp
  -- The new block is open right after its start, where nothing is held for it.
  obtain ⟨m, hstart, -⟩ := validateChunks_append_eq_ok.mp (hsplit ▸ hchunks)
  have hseen : index ∈ (streamBlocks front).map StreamBlock.index := by
    rw [map_index_streamBlocks]
    exact hmem
  have hshown := hdeltas _ ⟨back, hsplit.symm⟩ (streamBlocks front).length
    { index := index, blockType := blockType } (by simp [nextBlocks]) rfl
  have hnone : (BlockAssembler.pushAll (front ++ [.blockStart index blockType])).held[
      (streamBlocks front).length]? = none := by
    rw [(holdsFirsts_pushAll hstart).held_eq, streamBlocks_concat, nextBlocks, firsts_concat,
      if_pos hseen, List.getElem?_eq_none_iff, List.length_map]
    have hle (seen : List ℤ) (blocks : List StreamBlock) :
        (firstsFrom seen blocks).length ≤ blocks.length := by
      induction blocks generalizing seen with
      | nil => exact Nat.le_refl 0
      | cons a rest ih =>
        rw [firstsFrom_cons]
        split_ifs
        · exact (ih seen).trans (Nat.le_succ _)
        · exact Nat.succ_le_succ (ih _)
    exact hle [] _
  rw [hnone] at hshown
  have htype : blockType ≠ .toolCall := by
    rintro rfl
    obtain ⟨id, name, h⟩ := hshown
    cases h
  -- So it is of a type without deltas, and is missing from what is returned.
  obtain ⟨before, c, after, hsame, hbefore, hc⟩ : ∃ before c after,
      streamBlocks (front ++ .blockStart index blockType :: back) = before ++ c :: after ∧
        before.map StreamBlock.start = starts front ∧ c.start = (index, blockType) := by
    have hstarts := map_start_streamBlocks (front ++ .blockStart index blockType :: back)
    rw [starts, List.filterMap_append, ← starts, List.filterMap_cons, List.map_eq_append_iff]
      at hstarts
    obtain ⟨before, rest, hrest, hbefore, hafter⟩ := hstarts
    obtain ⟨c, after, rfl, hc, -⟩ := List.map_eq_cons_iff.mp hafter
    exact ⟨before, c, after, hrest, hbefore, hc⟩
  obtain ⟨hindex, htype'⟩ := Prod.mk.inj hc
  have hagain : c.index ∈ before.map StreamBlock.index := by
    rw [← hbefore, List.map_map] at hmem
    exact hindex ▸ hmem
  have hclosed : ∀ b ∈ before ++ c :: after, b.content.isSome := by
    intro b hb
    have hcontent := List.mem_map_of_mem (f := StreamBlock.content) hb
    rw [← hsame, hall] at hcontent
    obtain ⟨content, -, h⟩ := List.mem_map.mp hcontent
    rw [← h, Option.isSome_some]
  have hkeeps : c.content.any (keeps reason) := by
    obtain ⟨content, hcontent⟩ := Option.isSome_iff_exists.mp (hclosed c (by simp))
    have hsametype := (openBlocks_of_validateChunks hchunks).closes c (hsame ▸ by simp) content
      hcontent
    rw [hcontent, Option.any_some, keeps, hsametype, htype', decide_eq_true htype, Bool.or_true]
  have hlt : (firsts (before ++ c :: after)).countP (fun b ↦ b.content.any (keeps reason))
      < (before ++ c :: after).countP fun b ↦ b.content.any (keeps reason) :=
    countP_firsts_lt hagain hkeeps
  have hfirsts : ∀ b ∈ firsts (before ++ c :: after), b.content.isSome :=
    fun b hb ↦ hclosed b (firsts_subset _ hb)
  obtain ⟨held, hheld⟩ := exists_map_content hfirsts
  have hreturned := blocks_of_held (mapM_assembleAt (holdsFirsts_pushAll hchunks) (hsame ▸ hheld))
  obtain ⟨before', hbefore'⟩ := finishOf_eq_some hfinish
  rw [hblocks, kept_eq_keeps (hbefore' ▸ (finish_pushAll before' reason replay).1)] at hreturned
  rw [hsame] at hall
  rw [countP_keeps hheld, countP_keeps hall, ← Except.ok.inj hreturned] at hlt
  exact Nat.lt_irrefl _ hlt

/-- **A stream is kept exactly when no index is started twice.** -/
theorem streamKept_iff_nodup_starts (haccepted : validateStream chunks = .ok ())
    (hfinish : finishOf chunks = some (reason, replay)) (hnormal : reason.normal) :
    StreamKept chunks reason replay ↔ ((starts chunks).map Prod.fst).Nodup := by
  constructor
  · intro hkept
    by_contra hnodup
    obtain ⟨front, index, blockType, back, rfl, hmem⟩ := exists_restart hnodup
    exact not_streamKept_of_restart haccepted hfinish hmem hkept
  · exact streamKept_of_nodup haccepted hfinish hnormal

/-- Two blocks whose chunks interleave, the first one opened under the larger index. -/
def interleaved : List StreamChunk := [
  .blockStart 4 .text, .blockStart 1 .toolCall, .textDelta 4 (js "Se"),
  .toolCallDelta 1 (js "c1") (some (js "read")) (js "["), .textDelta 4 (js "e:"),
  .toolCallDelta 1 (js "c1") none (js "]"), .blockEnd 4 (.text (js "See:")),
  .blockEnd 1 (.toolCall (js "c1") (js "read") (js "[]")), .finish .maxTokens none]

theorem streamKept_interleaved : StreamKept interleaved .maxTokens none :=
  (streamKept_iff_nodup_starts (by decide +kernel) (by decide) (by decide)).mpr (by decide)

/-- A block that is opened under the index of a block that has been closed. -/
def reopened : List StreamChunk := [
  .blockStart 0 .text, .textDelta 0 (js "a"), .blockEnd 0 (.text (js "a")),
  .blockStart 0 .text, .textDelta 0 (js "b"), .blockEnd 0 (.text (js "b")),
  .finish .stop none]

/-- The checker accepts it, and its second block is lost. -/
theorem exists_stream_not_kept : ∃ chunks reason replay, validateStream chunks = .ok () ∧
    finishOf chunks = some (reason, replay) ∧ reason.normal ∧
    (streamBlocks chunks).map StreamBlock.content
      = [some (.text (js "a")), some (.text (js "b"))] ∧
    (BlockAssembler.pushAll chunks).blocks = .ok [.text (js "a")] ∧
    ¬ StreamKept chunks reason replay := by
  have hblocks : (BlockAssembler.pushAll reopened).blocks = .ok [.text (js "a")] := by
    decide +kernel
  have hcontents : (streamBlocks reopened).map StreamBlock.content
      = [some (.text (js "a")), some (.text (js "b"))] := by decide +kernel
  refine ⟨reopened, .stop, none, by decide +kernel, by decide, by decide, hcontents, hblocks, ?_⟩
  rintro ⟨⟨all, hall, hkept, -⟩, -⟩
  rw [hblocks] at hkept
  rw [hcontents] at hall
  have hlength := congrArg List.length hall
  have hall' : all.filter (keeps .stop) = all := List.filter_eq_self.mpr fun _ _ ↦ rfl
  rw [hall', Except.ok.injEq] at hkept
  rw [← hkept] at hlength
  simp at hlength

end XxAgent.Llm
