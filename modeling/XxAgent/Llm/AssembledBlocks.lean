import XxAgent.Llm.BlockAssembler

/-!
# The blocks of a stream

Every start of a block opens one, with the deltas and the end that follow it. In a stream that the
checker accepts, at most one block is open under an index at a time.
-/

namespace XxAgent.Llm

open Ecma

/-! ## Blocks -/

/-- A tool-call delta. -/
structure ToolCallPart where
  id : CallId
  name : Option JsString
  argumentsDelta : JsString
deriving DecidableEq

/-- A block of a stream. -/
structure StreamBlock where
  index : ℤ
  blockType : ContentBlockType
  /-- Its text or reasoning deltas. -/
  texts : List JsString := []
  /-- Its tool-call deltas. -/
  parts : List ToolCallPart := []
  /-- The content of its end. -/
  content : Option ContentBlock := none
deriving DecidableEq

/-- Change the block that is open under an index. -/
def atOpen (index : ℤ) (f : StreamBlock → StreamBlock) (blocks : List StreamBlock) :
    List StreamBlock :=
  blocks.map fun b ↦ if b.index = index ∧ b.content = none then f b else b

/-- What a chunk means for the blocks. -/
def nextBlocks (blocks : List StreamBlock) : StreamChunk → List StreamBlock
  | .blockStart index blockType => blocks ++ [{ index := index, blockType := blockType }]
  | .textDelta index text => atOpen index (fun b ↦ { b with texts := b.texts ++ [text] }) blocks
  | .reasoningDelta index text =>
    atOpen index (fun b ↦ { b with texts := b.texts ++ [text] }) blocks
  | .toolCallDelta index id name argumentsDelta =>
    atOpen index (fun b ↦ { b with parts := b.parts ++ [⟨id, name, argumentsDelta⟩] }) blocks
  | .blockEnd index block => atOpen index (fun b ↦ { b with content := some block }) blocks
  | .usage _ => blocks
  | .finish .. => blocks

/-- The blocks of a stream, in the order of their starts. -/
def streamBlocks (chunks : List StreamChunk) : List StreamBlock := chunks.foldl nextBlocks []

/-- The block starts of a stream. -/
def starts (chunks : List StreamChunk) : List (ℤ × ContentBlockType) :=
  chunks.filterMap fun
    | .blockStart index blockType => some (index, blockType)
    | _ => none

/-- What a block starts with. -/
def StreamBlock.start (b : StreamBlock) : ℤ × ContentBlockType := (b.index, b.blockType)

@[simp] theorem streamBlocks_concat (front : List StreamChunk) (chunk : StreamChunk) :
    streamBlocks (front ++ [chunk]) = nextBlocks (streamBlocks front) chunk := by
  rw [streamBlocks, List.foldl_concat, streamBlocks]

/-- A change that keeps the starts. -/
private theorem map_start_atOpen {index : ℤ} {f : StreamBlock → StreamBlock}
    (hf : ∀ b, (f b).start = b.start) (blocks : List StreamBlock) :
    (atOpen index f blocks).map StreamBlock.start = blocks.map StreamBlock.start := by
  rw [atOpen, List.map_map]
  refine List.map_congr_left fun b _ ↦ ?_
  dsimp only [Function.comp_apply]
  split_ifs
  · exact hf b
  · rfl

theorem map_start_streamBlocks (chunks : List StreamChunk) :
    (streamBlocks chunks).map StreamBlock.start = starts chunks := by
  induction chunks using List.reverseRecOn with
  | nil => rfl
  | append_singleton front chunk ih =>
    rw [streamBlocks_concat, starts, List.filterMap_append, ← starts, ← ih]
    have hsame {index : ℤ} {f : StreamBlock → StreamBlock} (hf : ∀ b, (f b).start = b.start) :
        (atOpen index f (streamBlocks front)).map StreamBlock.start
          = (streamBlocks front).map StreamBlock.start ++ [] :=
      (map_start_atOpen hf _).trans (List.append_nil _).symm
    cases chunk with
    | blockStart index blockType => simp [nextBlocks, StreamBlock.start]
    | textDelta index text => exact hsame fun _ ↦ rfl
    | reasoningDelta index text => exact hsame fun _ ↦ rfl
    | toolCallDelta index id name argumentsDelta => exact hsame fun _ ↦ rfl
    | blockEnd index block => exact hsame fun _ ↦ rfl
    | usage usage => simp [nextBlocks]
    | finish reason replayState => simp [nextBlocks]

theorem map_index_streamBlocks (chunks : List StreamChunk) :
    (streamBlocks chunks).map StreamBlock.index = (starts chunks).map Prod.fst := by
  rw [← map_start_streamBlocks, List.map_map]
  rfl

/-! ## Open blocks -/

/-- The blocks that are open are those that the checker has as open. -/
structure OpenBlocks (blocks : List StreamBlock) (g : StreamGrammar) : Prop where
  /-- At most one block of an index is open, and then it is the last one. -/
  unique : blocks.Pairwise fun b c ↦ b.index = c.index → b.content.isSome
  types : ∀ index blockType, g.opened.get? index = some blockType ↔
    ∃ b ∈ blocks, b.index = index ∧ b.blockType = blockType ∧ b.content = none
  closes : ∀ b ∈ blocks, ∀ c ∈ b.content, c.type = b.blockType

theorem openBlocks_initial : OpenBlocks [] .initial where
  unique := List.Pairwise.nil
  types := by simp [StreamGrammar.initial, OrderedMap.get?]
  closes := by simp

variable {blocks : List StreamBlock} {g h : StreamGrammar} {index : ℤ}

/-- A delta of the open block. -/
theorem OpenBlocks.delta (hopen : OpenBlocks blocks g) {f : StreamBlock → StreamBlock}
    (hindex : ∀ b, (f b).index = b.index) (htype : ∀ b, (f b).blockType = b.blockType)
    (hcontent : ∀ b, (f b).content = b.content) : OpenBlocks (atOpen index f blocks) g where
  unique := by
    rw [atOpen, List.pairwise_map]
    refine hopen.unique.imp fun {b c} hbc ↦ ?_
    split_ifs <;> simpa [hindex, hcontent] using hbc
  types i t := by
    rw [hopen.types, atOpen]
    simp only [List.mem_map, exists_exists_and_eq_and]
    refine exists_congr fun b ↦ and_congr_right fun _ ↦ ?_
    split_ifs <;> simp [hindex, htype, hcontent]
  closes b hb := by
    rw [atOpen, List.mem_map] at hb
    obtain ⟨a, ha, rfl⟩ := hb
    split_ifs
    · rw [hcontent, htype]
      exact hopen.closes a ha
    · exact hopen.closes a ha

/-- The open block of an index. -/
theorem OpenBlocks.exists_open (hopen : OpenBlocks blocks g) {blockType : ContentBlockType}
    (hget : g.opened.get? index = some blockType) :
    ∃ b ∈ blocks, b.index = index ∧ b.blockType = blockType ∧ b.content = none :=
  (hopen.types index blockType).mp hget

/-- It is the only one. -/
theorem OpenBlocks.eq_of_open (hopen : OpenBlocks blocks g) {b c : StreamBlock} (hb : b ∈ blocks)
    (hc : c ∈ blocks) (hsame : b.index = c.index) (hbopen : b.content = none)
    (hcopen : c.content = none) : b = c := by
  by_contra hne
  have hpair : blocks.Pairwise fun b c ↦
      (b.index = c.index → b.content.isSome) ∨ (c.index = b.index → c.content.isSome) :=
    hopen.unique.imp fun h ↦ .inl h
  have : Std.Symm fun b c : StreamBlock ↦
      (b.index = c.index → b.content.isSome) ∨ (c.index = b.index → c.content.isSome) :=
    ⟨fun _ _ h ↦ h.symm⟩
  rcases hpair.forall hb hc hne with h | h
  · simp [hbopen] at h
    exact h hsame
  · simp [hcopen] at h
    exact h hsame.symm

theorem OpenBlocks.step (hopen : OpenBlocks blocks g) {chunk : StreamChunk}
    (haccepts : Accepts g chunk h) : OpenBlocks (nextBlocks blocks chunk) h := by
  cases haccepts with
  | blockStart index blockType hindex hnew =>
    have hclosed : ∀ b ∈ blocks, b.index = index → b.content.isSome := by
      intro b hb hsame
      by_contra hnone
      rw [Option.not_isSome_iff_eq_none] at hnone
      have := (hopen.types index b.blockType).mpr ⟨b, hb, hsame, rfl, hnone⟩
      rw [hnew] at this
      cases this
    refine ⟨?_, fun i t ↦ ?_, ?_⟩
    · rw [nextBlocks, List.pairwise_append]
      exact ⟨hopen.unique, List.pairwise_singleton _ _, fun b hb c hc ↦
        List.mem_singleton.mp hc ▸ hclosed b hb⟩
    · rw [OrderedMap.get?_set, nextBlocks]
      simp only [List.mem_append, List.mem_singleton]
      split_ifs with hi
      · subst hi
        constructor
        · rintro ⟨⟩
          exact ⟨_, .inr rfl, rfl, rfl, rfl⟩
        · rintro ⟨b, hb | rfl, hsame, htype, hnone⟩
          · have := hclosed b hb hsame
            rw [hnone] at this
            cases this
          · exact congrArg some htype
      · rw [hopen.types]
        constructor
        · rintro ⟨b, hb, hrest⟩
          exact ⟨b, .inl hb, hrest⟩
        · rintro ⟨b, hb | rfl, hsame, hrest⟩
          · exact ⟨b, hb, hsame, hrest⟩
          · exact absurd hsame.symm hi
    · intro b hb
      rw [nextBlocks] at hb
      rcases List.mem_append.mp hb with hb | hb
      · exact hopen.closes b hb
      · rw [List.mem_singleton.mp hb]
        simp
  | textDelta index text hget => exact hopen.delta (fun _ ↦ rfl) (fun _ ↦ rfl) fun _ ↦ rfl
  | reasoningDelta index text hget => exact hopen.delta (fun _ ↦ rfl) (fun _ ↦ rfl) fun _ ↦ rfl
  | toolCallDelta index id name argumentsDelta hget =>
    exact hopen.delta (fun _ ↦ rfl) (fun _ ↦ rfl) fun _ ↦ rfl
  | blockEnd index block hget =>
    obtain ⟨o, ho, hoindex, hotype, hoopen⟩ := hopen.exists_open hget
    refine ⟨?_, fun i t ↦ ?_, ?_⟩
    · rw [nextBlocks, atOpen, List.pairwise_map]
      refine hopen.unique.imp fun {b c} hbc ↦ ?_
      split_ifs
      · exact fun _ ↦ rfl
      · exact fun _ ↦ rfl
      · exact hbc
      · exact hbc
    · rw [OrderedMap.get?_delete, nextBlocks, atOpen]
      simp only [List.mem_map, exists_exists_and_eq_and]
      split_ifs with hi
      · subst hi
        refine iff_of_false (by simp) ?_
        rintro ⟨b, hb, hrest⟩
        split_ifs at hrest with hbopen
        · exact absurd hrest.2.2 (by simp)
        · exact hbopen ⟨hrest.1, hrest.2.2⟩
      · rw [hopen.types]
        refine exists_congr fun b ↦ and_congr_right fun _ ↦ ?_
        split_ifs with hbopen
        · simp [hbopen.1, Ne.symm hi]
        · rfl
    · intro b hb
      rw [nextBlocks, atOpen, List.mem_map] at hb
      obtain ⟨a, ha, rfl⟩ := hb
      split_ifs with haopen
      · intro c hc
        obtain rfl := Option.some.inj hc
        rw [hopen.eq_of_open ha ho (haopen.1.trans hoindex.symm) haopen.2 hoopen]
        exact hotype.symm
      · exact hopen.closes a ha
  | usage usage => exact ⟨hopen.unique, hopen.types, hopen.closes⟩
  | finish reason replayState hclosed => exact ⟨hopen.unique, hopen.types, hopen.closes⟩

theorem openBlocks_of_validateChunks {chunks : List StreamChunk}
    (haccepted : validateChunks .initial chunks = .ok g) : OpenBlocks (streamBlocks chunks) g := by
  refine validateChunks_induction (motive := fun chunks g ↦ OpenBlocks (streamBlocks chunks) g)
    openBlocks_initial ?_ haccepted
  intro front g chunk h hfront _ haccepts
  rw [streamBlocks_concat]
  exact hfront.step haccepts

/-!
## What the assembler holds

The assembler holds, for each index, the first block that was opened under it. It keeps the whole
stream exactly when no index is opened twice; the checker forgets an index when its block is closed.
-/

/-! ## First blocks -/

/-- The blocks whose index has not been seen. -/
def firstsFrom (seen : List ℤ) : List StreamBlock → List StreamBlock
  | [] => []
  | b :: rest =>
    if b.index ∈ seen then firstsFrom seen rest else b :: firstsFrom (b.index :: seen) rest

@[simp] theorem firstsFrom_nil (seen : List ℤ) : firstsFrom seen [] = [] := rfl

theorem firstsFrom_cons (seen : List ℤ) (b : StreamBlock) (rest : List StreamBlock) :
    firstsFrom seen (b :: rest) =
      if b.index ∈ seen then firstsFrom seen rest else b :: firstsFrom (b.index :: seen) rest := rfl

/-- The first block of each index. -/
def firsts (blocks : List StreamBlock) : List StreamBlock := firstsFrom [] blocks

theorem firstsFrom_congr {seen seen' : List ℤ} (h : ∀ i, i ∈ seen ↔ i ∈ seen')
    (blocks : List StreamBlock) : firstsFrom seen blocks = firstsFrom seen' blocks := by
  induction blocks generalizing seen seen' with
  | nil => rfl
  | cons b rest ih =>
    have hcons : firstsFrom (b.index :: seen) rest = firstsFrom (b.index :: seen') rest :=
      ih fun i ↦ by rw [List.mem_cons, List.mem_cons, h]
    rw [firstsFrom_cons, firstsFrom_cons, ih h, hcons]
    exact if_congr (h _) rfl rfl

theorem firstsFrom_append (seen : List ℤ) (front back : List StreamBlock) :
    firstsFrom seen (front ++ back)
      = firstsFrom seen front ++ firstsFrom (front.map StreamBlock.index ++ seen) back := by
  induction front generalizing seen with
  | nil => rfl
  | cons b rest ih =>
    rw [List.cons_append, firstsFrom_cons, firstsFrom_cons, List.map_cons]
    split_ifs with hseen
    · rw [ih]
      congr 1
      refine firstsFrom_congr (fun i ↦ ?_) back
      simp only [List.mem_append, List.mem_cons, List.cons_append]
      constructor
      · exact fun h ↦ .inr h
      · rintro (rfl | h)
        · exact .inr hseen
        · exact h
    · rw [ih, List.cons_append]
      congr 2
      refine firstsFrom_congr (fun i ↦ ?_) back
      rw [List.cons_append, List.mem_append, List.mem_cons, List.mem_cons, List.mem_append]
      exact or_left_comm

theorem firsts_concat (blocks : List StreamBlock) (b : StreamBlock) :
    firsts (blocks ++ [b]) =
      if b.index ∈ blocks.map StreamBlock.index then firsts blocks else firsts blocks ++ [b] := by
  rw [firsts, firstsFrom_append, ← firsts, List.append_nil, firstsFrom_cons, firstsFrom_nil,
    firstsFrom_nil]
  split_ifs
  · exact List.append_nil _
  · rfl

theorem firsts_map {f : StreamBlock → StreamBlock} (hf : ∀ b, (f b).index = b.index)
    (blocks : List StreamBlock) : firsts (blocks.map f) = (firsts blocks).map f := by
  have hfrom (seen : List ℤ) : firstsFrom seen (blocks.map f) = (firstsFrom seen blocks).map f := by
    induction blocks generalizing seen with
    | nil => rfl
    | cons b rest ih =>
      rw [List.map_cons, firstsFrom_cons, firstsFrom_cons, hf, ih, ih]
      split_ifs <;> rfl
  exact hfrom []

theorem firsts_subset (blocks : List StreamBlock) : firsts blocks ⊆ blocks := by
  have hfrom (seen : List ℤ) : firstsFrom seen blocks ⊆ blocks := by
    induction blocks generalizing seen with
    | nil => exact fun _ h ↦ h
    | cons b rest ih =>
      rw [firstsFrom_cons]
      split_ifs
      · exact List.subset_cons_of_subset b (ih seen)
      · exact List.cons_subset_cons b (ih _)
  exact hfrom []

/-- Every index has a first block. -/
theorem exists_mem_firsts {blocks : List StreamBlock} {b : StreamBlock} (hb : b ∈ blocks) :
    ∃ c ∈ firsts blocks, c.index = b.index := by
  have hfrom (seen : List ℤ) (hseen : b.index ∉ seen) :
      ∃ c ∈ firstsFrom seen blocks, c.index = b.index := by
    induction blocks generalizing seen with
    | nil => simp at hb
    | cons a rest ih =>
      rw [firstsFrom_cons]
      by_cases ha : a.index = b.index
      · rw [if_neg (ha ▸ hseen)]
        exact ⟨a, List.mem_cons_self, ha⟩
      · have hrest : b ∈ rest := (List.mem_cons.mp hb).resolve_left fun h ↦ ha (by rw [h])
        split_ifs
        · exact ih hrest seen hseen
        · obtain ⟨c, hc, hindex⟩ := ih hrest (a.index :: seen) (by simp [hseen, Ne.symm ha])
          exact ⟨c, List.mem_cons_of_mem a hc, hindex⟩
  exact hfrom [] List.not_mem_nil

theorem nodup_map_index_firsts (blocks : List StreamBlock) :
    ((firsts blocks).map StreamBlock.index).Nodup := by
  have hfrom (seen : List ℤ) : ((firstsFrom seen blocks).map StreamBlock.index).Nodup ∧
      ∀ b ∈ firstsFrom seen blocks, b.index ∉ seen := by
    induction blocks generalizing seen with
    | nil => simp [firstsFrom]
    | cons b rest ih =>
      rw [firstsFrom_cons]
      split_ifs with hb
      · exact ih seen
      · obtain ⟨hnodup, hnew⟩ := ih (b.index :: seen)
        refine ⟨?_, ?_⟩
        · rw [List.map_cons, List.nodup_cons]
          refine ⟨fun hmem ↦ ?_, hnodup⟩
          obtain ⟨c, hc, hindex⟩ := List.mem_map.mp hmem
          exact hnew c hc (hindex ▸ List.mem_cons_self)
        · intro c hc
          rcases List.mem_cons.mp hc with rfl | hc
          · exact hb
          · exact fun h ↦ hnew c hc (List.mem_cons_of_mem _ h)
  exact (hfrom []).1

/-- Without a second block under an index, all blocks are first. -/
theorem firsts_eq_self {blocks : List StreamBlock} (h : (blocks.map StreamBlock.index).Nodup) :
    firsts blocks = blocks := by
  induction blocks using List.reverseRecOn with
  | nil => rfl
  | append_singleton front b ih =>
    rw [List.map_append, List.map_singleton, List.nodup_append] at h
    have hnew : b.index ∉ front.map StreamBlock.index :=
      fun hmem ↦ h.2.2 _ hmem _ List.mem_cons_self rfl
    rw [firsts_concat, if_neg hnew, ih h.1]

/-- A second block under an index is not counted. -/
theorem countP_firsts_lt {p : StreamBlock → Bool} {front back : List StreamBlock} {b : StreamBlock}
    (hb : b.index ∈ front.map StreamBlock.index) (hp : p b) :
    (firsts (front ++ b :: back)).countP p < (front ++ b :: back).countP p := by
  have hle (seen : List ℤ) (blocks : List StreamBlock) :
      (firstsFrom seen blocks).countP p ≤ blocks.countP p := by
    induction blocks generalizing seen with
    | nil => exact Nat.le_refl 0
    | cons a rest ih =>
      rw [firstsFrom_cons]
      split_ifs
      · exact (ih seen).trans (by rw [List.countP_cons]; omega)
      · rw [List.countP_cons, List.countP_cons]
        exact Nat.add_le_add_right (ih _) _
  rw [firsts, firstsFrom_append, firstsFrom_cons, if_pos (List.mem_append_left _ hb), List.countP_append,
    List.countP_append, List.countP_cons, if_pos hp]
  have hfront := hle [] front
  have hback := hle (front.map StreamBlock.index ++ []) back
  omega

/-! ## The partial of a block -/

/-- What the assembler makes of a block of the stream. -/
def StreamBlock.assembly (b : StreamBlock) : PartialBlock where
  blockType := b.blockType
  text := b.texts.flatten
  toolCallId := b.parts.getLast?.map ToolCallPart.id
  toolCallName := (b.parts.filterMap fun part ↦
    if part.name.getD [] = [] then none else part.name).getLast?
  toolCallArguments := b.parts.flatMap ToolCallPart.argumentsDelta
  block := b.content

theorem assembly_addText (b : StreamBlock) (text : JsString) :
    StreamBlock.assembly { b with texts := b.texts ++ [text] }
      = { b.assembly with text := b.assembly.text ++ text } := by
  simp [StreamBlock.assembly]

theorem assembly_addPart (b : StreamBlock) (id : CallId) (name : Option JsString)
    (argumentsDelta : JsString) :
    StreamBlock.assembly { b with parts := b.parts ++ [⟨id, name, argumentsDelta⟩] }
      = BlockAssembler.addToolCallDelta id name argumentsDelta b.assembly := by
  rw [BlockAssembler.addToolCallDelta, StreamBlock.assembly, StreamBlock.assembly]
  congr 1
  · simp
  · rw [List.filterMap_append]
    by_cases hname : name.getD [] = []
    · simp [hname]
    · cases name with
      | none => simp at hname
      | some text =>
        rw [Option.getD_some] at hname
        simp [hname]
  · simp

/-! ## What is held -/

/-- The assembler holds the first block of each index. -/
structure HoldsFirsts (a : BlockAssembler) (blocks : List StreamBlock) : Prop where
  order : a.order = (firsts blocks).map StreamBlock.index
  partials : ∀ b ∈ firsts blocks, a.partials.get? b.index = some b.assembly
  unseen : ∀ index, index ∉ a.order → a.partials.get? index = none

variable {a : BlockAssembler}

theorem BlockAssembler.extend_of_get? {index : ℤ} {p : PartialBlock}
    (hget : a.partials.get? index = some p) (blockType : ContentBlockType)
    (f : PartialBlock → PartialBlock) : a.extend index blockType f =
      if p.block.isSome then a else { a with partials := a.partials.set index (f p) } := by
  rw [extend, ensure, hget]

/-- A chunk for the open block of an index. -/
theorem HoldsFirsts.extend (hholds : HoldsFirsts a blocks) (hopen : OpenBlocks blocks g)
    {index : ℤ} {openType : ContentBlockType} (hget : g.opened.get? index = some openType)
    (f : StreamBlock → StreamBlock) (f' : PartialBlock → PartialBlock)
    (hindex : ∀ b, (f b).index = b.index) (hf : ∀ b, (f b).assembly = f' b.assembly)
    (blockType : ContentBlockType) :
    HoldsFirsts (a.extend index blockType f') (atOpen index f blocks) := by
  obtain ⟨o, ho, hoindex, -, hoopen⟩ := hopen.exists_open hget
  obtain ⟨b, hb, hbindex⟩ := exists_mem_firsts ho
  rw [hoindex] at hbindex
  have hmap : firsts (atOpen index f blocks) = (firsts blocks).map fun b ↦
      if b.index = index ∧ b.content = none then f b else b := by
    refine firsts_map (fun b ↦ ?_) blocks
    split_ifs
    · exact hindex b
    · rfl
  have horder : (firsts (atOpen index f blocks)).map StreamBlock.index
      = (firsts blocks).map StreamBlock.index := by
    rw [hmap, List.map_map]
    refine List.map_congr_left fun c _ ↦ ?_
    dsimp only [Function.comp_apply]
    split_ifs
    · exact hindex c
    · rfl
  -- The first block of the index is the open one, or it has been closed.
  have honly : ∀ c ∈ firsts blocks, c.index = index → c = b := fun c hc hcindex ↦
    List.inj_on_of_nodup_map (nodup_map_index_firsts blocks) hc hb (hcindex.trans hbindex.symm)
  rw [BlockAssembler.extend_of_get? (hbindex ▸ hholds.partials b hb)]
  by_cases hclosed : b.content = none
  · rw [if_neg (by simp [StreamBlock.assembly, hclosed])]
    refine ⟨hholds.order.trans horder.symm, ?_, fun i hi ↦ ?_⟩
    · rw [hmap, List.forall_mem_map]
      intro c hc
      by_cases hcindex : c.index = index
      · obtain rfl := honly c hc hcindex
        rw [if_pos (And.intro hcindex hclosed), hindex, OrderedMap.get?_set, if_pos hcindex, hf]
      · rw [if_neg (mt And.left hcindex), OrderedMap.get?_set, if_neg hcindex]
        exact hholds.partials c hc
    · rw [OrderedMap.get?_set, if_neg, hholds.unseen i hi]
      rintro rfl
      exact hi (hholds.order ▸ hbindex ▸ List.mem_map_of_mem hb)
  · rw [if_pos (by simpa [StreamBlock.assembly, Option.isSome_iff_ne_none] using hclosed)]
    refine ⟨hholds.order.trans horder.symm, ?_, hholds.unseen⟩
    rw [hmap, List.forall_mem_map]
    intro c hc
    have hskip : ¬ (c.index = index ∧ c.content = none) := by
      rintro ⟨hcindex, hcopen⟩
      exact hclosed (honly c hc hcindex ▸ hcopen)
    rw [if_neg hskip]
    exact hholds.partials c hc

theorem HoldsFirsts.step (hholds : HoldsFirsts a blocks) (hopen : OpenBlocks blocks g)
    {chunk : StreamChunk} (haccepts : Accepts g chunk h) :
    HoldsFirsts (a.push chunk) (nextBlocks blocks chunk) := by
  cases haccepts with
  | blockStart index blockType hindex hnew =>
    rw [BlockAssembler.push, nextBlocks]
    by_cases hseen : index ∈ blocks.map StreamBlock.index
    · obtain ⟨c, hc, hcindex⟩ := List.mem_map.mp hseen
      obtain ⟨b, hb, hbindex⟩ := exists_mem_firsts hc
      have hget := hholds.partials b hb
      rw [hbindex, hcindex] at hget
      rw [if_pos (by rw [hget]; rfl)]
      have hfirsts : firsts (blocks ++ [{ index := index, blockType := blockType }])
          = firsts blocks := by rw [firsts_concat, if_pos hseen]
      exact ⟨hfirsts ▸ hholds.order, hfirsts ▸ hholds.partials, hholds.unseen⟩
    · have hnotin : index ∉ a.order := by
        rw [hholds.order]
        intro hmem
        obtain ⟨b, hb, hbindex⟩ := List.mem_map.mp hmem
        exact hseen (List.mem_map.mpr ⟨b, firsts_subset blocks hb, hbindex⟩)
      rw [if_neg (by rw [hholds.unseen index hnotin]; simp)]
      have hfirsts : firsts (blocks ++ [{ index := index, blockType := blockType }])
          = firsts blocks ++ [{ index := index, blockType := blockType }] := by
        rw [firsts_concat, if_neg hseen]
      refine ⟨?_, ?_, fun i hi ↦ ?_⟩
      · rw [hfirsts, hholds.order, List.map_append, List.map_singleton]
      · rw [hfirsts, List.forall_mem_append]
        refine ⟨fun b hb ↦ ?_, ?_⟩
        · have hne : b.index ≠ index := fun heq ↦ hseen
            (List.mem_map.mpr ⟨b, firsts_subset blocks hb, heq⟩)
          rw [OrderedMap.get?_set, if_neg hne]
          exact hholds.partials b hb
        · rw [List.forall_mem_singleton, OrderedMap.get?_set, if_pos rfl]
          rfl
      · rw [List.mem_append, List.mem_singleton, not_or] at hi
        rw [OrderedMap.get?_set, if_neg hi.2, hholds.unseen i hi.1]
  | textDelta index text hget =>
    exact hholds.extend hopen hget (fun b ↦ { b with texts := b.texts ++ [text] })
      (fun p ↦ { p with text := p.text ++ text }) (fun _ ↦ rfl) (assembly_addText · text) _
  | reasoningDelta index text hget =>
    exact hholds.extend hopen hget (fun b ↦ { b with texts := b.texts ++ [text] })
      (fun p ↦ { p with text := p.text ++ text }) (fun _ ↦ rfl) (assembly_addText · text) _
  | toolCallDelta index id name argumentsDelta hget =>
    exact hholds.extend hopen hget
      (fun b ↦ { b with parts := b.parts ++ [⟨id, name, argumentsDelta⟩] })
      (BlockAssembler.addToolCallDelta id name argumentsDelta) (fun _ ↦ rfl)
      (assembly_addPart · id name argumentsDelta) _
  | blockEnd index block hget =>
    exact hholds.extend hopen hget (fun b ↦ { b with content := some block })
      (fun p ↦ { p with block := some block }) (fun _ ↦ rfl) (fun _ ↦ rfl) _
  | usage usage => exact ⟨hholds.order, hholds.partials, hholds.unseen⟩
  | finish reason replayState hclosed => exact ⟨hholds.order, hholds.partials, hholds.unseen⟩

/-- **The assembler holds the first block of each index**, of every stream that is accepted. -/
theorem holdsFirsts_pushAll {chunks : List StreamChunk}
    (haccepted : validateChunks .initial chunks = .ok g) :
    HoldsFirsts (.pushAll chunks) (streamBlocks chunks) := by
  refine (validateChunks_induction (motive := fun chunks g ↦ OpenBlocks (streamBlocks chunks) g ∧
    HoldsFirsts (.pushAll chunks) (streamBlocks chunks)) ⟨openBlocks_initial, ?_⟩ ?_ haccepted).2
  · exact ⟨rfl, by simp [streamBlocks, firsts, firstsFrom], fun _ _ ↦ rfl⟩
  · rintro front g chunk h ⟨hopen, hholds⟩ - haccepts
    rw [streamBlocks_concat, BlockAssembler.pushAll, List.foldl_concat, ← BlockAssembler.pushAll]
    exact ⟨hopen.step haccepts, hholds.step hopen haccepts⟩

/-- The blocks held, in order. -/
theorem HoldsFirsts.held_eq (hholds : HoldsFirsts a blocks) :
    a.held = (firsts blocks).map fun b ↦ (b.index, BlockAssembler.assemble b.assembly b.index) := by
  rw [BlockAssembler.held, hholds.order, List.map_map]
  refine List.map_congr_left fun b hb ↦ ?_
  rw [Function.comp_apply, BlockAssembler.assembleAt, hholds.partials b hb]

end XxAgent.Llm
