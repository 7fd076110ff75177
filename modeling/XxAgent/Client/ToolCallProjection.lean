import XxAgent.Client.ToolCallTree

/-!
# Projected calls

A projection with its caches reads, object by object, what attaching the children recursively reads
without them. Whatever is created meanwhile, what was there stays as it was, so that a reference
that is equal still stands for the same calls.
-/

namespace XxAgent.Client

open Ecma

/-! ## What a reference stands for -/

inductive CallTree where
  | node (callId : CallId) (data : CallData) (subCalls : List CallTree)

namespace Heap

/-- The call with the children that it is given, so many levels of them at most. -/
def read (heap : Heap) (childrenOf : ToolCallBlock → Ref) : ℕ → Ref → Option CallTree
  | 0, _ => none
  | depth + 1, ref =>
    (heap.block? ref).bind fun block ↦
      (heap.elements? (childrenOf block)).bind fun refs ↦
        (refs.mapM (read heap childrenOf depth)).map fun subCalls ↦
          .node block.callId block.data subCalls

/-- The call as it is. -/
def callTree (heap : Heap) : ℕ → Ref → Option CallTree := heap.read ToolCallBlock.subCalls

/-- What is there stays as it is. -/
structure Extends (heap heap' : Heap) : Prop where
  objects : ∀ (ref : Ref) (object : HeapObject), heap.objects[ref]? = some object →
    heap'.objects[ref]? = some object
  arrays : ∀ (array : Ref) (refs : List Ref), heap.elements? array = some refs →
    heap'.elements? array = some refs

variable {heap heap' heap'' : Heap}

namespace Extends

theorem refl (heap : Heap) : heap.Extends heap := ⟨fun _ _ ↦ id, fun _ _ ↦ id⟩

theorem trans (h : heap.Extends heap') (h' : heap'.Extends heap'') : heap.Extends heap'' :=
  ⟨fun ref object hobject ↦ h'.objects ref object (h.objects ref object hobject),
    fun array refs hrefs ↦ h'.arrays array refs (h.arrays array refs hrefs)⟩

theorem block? (h : heap.Extends heap') {ref : Ref} {block : ToolCallBlock}
    (hblock : heap.block? ref = some block) : heap'.block? ref = some block := by
  rw [Heap.block?] at hblock ⊢
  split at hblock
  · next hobject =>
    rw [h.objects ref _ hobject]
    exact hblock
  · cases hblock

end Extends

theorem extends_newObject (heap : Heap) (object : HeapObject) :
    heap.Extends (heap.newObject object).2 :=
  ⟨fun ref object' h ↦ by
    rw [newObject, List.getElem?_append_left (List.getElem?_eq_some_iff.mp h).1]
    exact h, fun _ _ ↦ id⟩

theorem extends_newArray (heap : Heap) (refs : List Ref) :
    heap.Extends (heap.newArray refs).2 :=
  ⟨fun _ _ ↦ id, fun array refs' h ↦ by
    rw [elements?, newArray, List.getElem?_append_left (List.getElem?_eq_some_iff.mp h).1]
    exact h⟩

@[simp] theorem block?_newObject (heap : Heap) (block : ToolCallBlock) :
    (heap.newObject (.block block)).2.block? (heap.newObject (.block block)).1 = some block := by
  simp [newObject, block?]

@[simp] theorem elements?_newArray (heap : Heap) (refs : List Ref) :
    (heap.newArray refs).2.elements? (heap.newArray refs).1 = some refs := by
  simp [newArray, elements?]

/-- A block without children of its own. -/
def Bare (heap : Heap) (ref : Ref) : Prop :=
  ∃ block, heap.block? ref = some block ∧ heap.elements? block.subCalls = some []

theorem Bare.mono {ref : Ref} (h : heap.Bare ref) (hext : heap.Extends heap') :
    heap'.Bare ref := by
  obtain ⟨block, hblock, hnone⟩ := h
  exact ⟨block, hext.block? hblock, hext.arrays _ _ hnone⟩

end Heap

theorem mapM_eq_some {α β : Type} {f : α → Option β} {xs : List α} {ys : List β} :
    xs.mapM f = some ys ↔ List.Forall₂ (fun x y ↦ f x = some y) xs ys := by
  induction xs generalizing ys with
  | nil => cases ys <;> simp
  | cons x xs ih =>
    rw [List.mapM_cons]
    cases hx : f x with
    | none => cases ys <;> simp [hx]
    | some z =>
      cases hrest : xs.mapM f with
      | none => cases ys <;> simp [← ih, hx, hrest]
      | some zs => cases ys <;> simp [← ih, hx, hrest]

/-- What was read is read again. -/
theorem Heap.read_mono {heap heap' : Heap} (hext : heap.Extends heap')
    {childrenOf : ToolCallBlock → Ref} {depth : ℕ} {ref : Ref} {call : CallTree}
    (h : heap.read childrenOf depth ref = some call) :
    heap'.read childrenOf depth ref = some call := by
  induction depth generalizing ref call with
  | zero => cases h
  | succ depth ih =>
    rw [Heap.read] at h ⊢
    obtain ⟨block, hblock, h⟩ := Option.bind_eq_some_iff.mp h
    obtain ⟨refs, hrefs, h⟩ := Option.bind_eq_some_iff.mp h
    obtain ⟨subCalls, hsub, rfl⟩ := Option.map_eq_some_iff.mp h
    have hsub' : refs.mapM (heap'.read childrenOf depth) = some subCalls :=
      mapM_eq_some.mpr ((mapM_eq_some.mp hsub).imp fun _ _ ↦ ih)
    rw [hext.block? hblock, Option.bind_some, hext.arrays _ _ hrefs, Option.bind_some, hsub']
    rfl

namespace ToolCallTree

/-- The children are attached recursively, without a cache. -/
def attached (tree : ToolCallTree) : ℕ → Ref → Option CallTree := tree.heap.read tree.childrenOf

/-- A projection is the call with its children attached. -/
def Projects (tree : ToolCallTree) (depth : ℕ) (ref value : Ref) : Prop :=
  ∃ call, tree.attached depth ref = some call ∧ tree.heap.callTree depth value = some call

/-! ## Growing -/

/-- Objects and cached projections come along, and nothing else. -/
structure Grows (tree tree' : ToolCallTree) : Prop where
  heap : tree.heap.Extends tree'.heap
  same : tree' =
    { tree with heap := tree'.heap, projectedByCall := tree'.projectedByCall }

variable {tree tree' tree'' : ToolCallTree}

namespace Grows

theorem refl (tree : ToolCallTree) : tree.Grows tree := ⟨.refl _, rfl⟩

theorem trans (h : tree.Grows tree') (h' : tree'.Grows tree'') : tree.Grows tree'' := by
  refine ⟨h.heap.trans h'.heap, ?_⟩
  rw [h'.same, h.same]

theorem childrenByParent (h : tree.Grows tree') :
    tree'.childrenByParent = tree.childrenByParent := by rw [h.same]

theorem depthByCall (h : tree.Grows tree') : tree'.depthByCall = tree.depthByCall := by
  rw [h.same]

theorem revision (h : tree.Grows tree') : tree'.revision = tree.revision := by rw [h.same]

theorem nodesCache (h : tree.Grows tree') : tree'.nodesCache = tree.nodesCache := by rw [h.same]

theorem runningCache (h : tree.Grows tree') : tree'.runningCache = tree.runningCache := by
  rw [h.same]

theorem depthOf (h : tree.Grows tree') : tree'.depthOf = tree.depthOf := by
  funext x
  rw [ToolCallTree.depthOf, ToolCallTree.depthOf, h.depthByCall]

theorem childrenOf (h : tree.Grows tree') : tree'.childrenOf = tree.childrenOf := by
  funext block
  rw [ToolCallTree.childrenOf, ToolCallTree.childrenOf, h.childrenByParent]

theorem projects (h : tree.Grows tree') {depth : ℕ} {ref value : Ref}
    (hprojects : tree.Projects depth ref value) : tree'.Projects depth ref value := by
  obtain ⟨call, hattached, hcall⟩ := hprojects
  refine ⟨call, ?_, Heap.read_mono h.heap hcall⟩
  rw [attached, h.childrenOf]
  exact Heap.read_mono h.heap hattached

end Grows

/-! ## Well-formed trees -/

/-- A cached value is its source with the children. -/
def Attached (heap : Heap) (cached : ProjectedBlock) : Prop :=
  ∃ block value refs, heap.block? cached.source = some block ∧
    heap.block? cached.value = some value ∧ value.callId = block.callId ∧
    value.data = block.data ∧ heap.elements? cached.children = some refs ∧
    heap.elements? value.subCalls = some refs

theorem Attached.mono {heap heap' : Heap} {cached : ProjectedBlock} (h : Attached heap cached)
    (hext : heap.Extends heap') : Attached heap' cached := by
  obtain ⟨block, value, refs, hblock, hvalue, hid, hdata, hchildren, hsub⟩ := h
  exact ⟨block, value, refs, hext.block? hblock, hext.block? hvalue, hid, hdata,
    hext.arrays _ _ hchildren, hext.arrays _ _ hsub⟩

/-- Children are bare blocks, and cached values what they should be. -/
structure Wellformed (tree : ToolCallTree) : Prop where
  siblings : ∀ callId array, tree.childrenByParent.get? callId = some array →
    ∃ refs, tree.heap.elements? array = some refs ∧ ∀ ref ∈ refs, tree.heap.Bare ref
  cached : ∀ callId cached, tree.projectedByCall.get? callId = some cached →
    Attached tree.heap cached

theorem Wellformed.siblings_eq (h : tree.Wellformed) {callId : CallId} {array : Ref}
    (harray : tree.childrenByParent.get? callId = some array) :
    tree.heap.elements? array = some (tree.siblings callId) := by
  obtain ⟨refs, hrefs, -⟩ := h.siblings callId array harray
  rw [ToolCallTree.siblings, harray, Option.bind_some, hrefs]
  rfl

theorem Wellformed.bare (h : tree.Wellformed) {callId : CallId} {ref : Ref}
    (href : ref ∈ tree.siblings callId) : tree.heap.Bare ref := by
  cases harray : tree.childrenByParent.get? callId with
  | none =>
    rw [ToolCallTree.siblings, harray] at href
    cases href
  | some array =>
    obtain ⟨refs, hrefs, hbare⟩ := h.siblings callId array harray
    rw [h.siblings_eq harray] at hrefs
    exact hbare ref (Option.some.inj hrefs ▸ href)

/-- The ids of blocks that are there are those they were. -/
theorem filterMap_callIds {heap heap' : Heap} (hext : heap.Extends heap') {refs : List Ref}
    (hbare : ∀ ref ∈ refs, heap.Bare ref) :
    (refs.filterMap fun ref ↦ (heap'.block? ref).map ToolCallBlock.callId) =
      refs.filterMap fun ref ↦ (heap.block? ref).map ToolCallBlock.callId := by
  refine List.filterMap_congr fun ref href ↦ ?_
  obtain ⟨block, hblock, -⟩ := hbare ref href
  rw [hext.block? hblock, hblock]

theorem Grows.siblings (h : tree.Grows tree') (hwell : tree.Wellformed) :
    tree'.siblings = tree.siblings := by
  funext callId
  rw [ToolCallTree.siblings, h.childrenByParent]
  cases harray : tree.childrenByParent.get? callId with
  | none => rw [ToolCallTree.siblings, harray]; rfl
  | some array =>
    rw [Option.bind_some, h.heap.arrays _ _ (hwell.siblings_eq harray)]
    rfl

theorem Grows.edge (h : tree.Grows tree') (hwell : tree.Wellformed) : tree'.Edge = tree.Edge := by
  funext a b
  rw [Edge, Edge, childIds, childIds, h.siblings hwell,
    filterMap_callIds h.heap fun ref href ↦ hwell.bare href]

theorem Deep.grows (h : tree.Deep) (hwell : tree.Wellformed) (hgrows : tree.Grows tree') :
    tree'.Deep := by
  refine ⟨?_, ?_⟩
  · rw [hgrows.edge hwell, hgrows.depthOf]
    exact h.depth
  · rw [hgrows.depthOf]
    exact h.bound

/-- Siblings stay bare. -/
theorem Wellformed.grows (h : tree.Wellformed) (hgrows : tree.Grows tree')
    (hcached : ∀ callId cached, tree'.projectedByCall.get? callId = some cached →
      Attached tree'.heap cached) : tree'.Wellformed := by
  refine ⟨fun callId array harray ↦ ?_, hcached⟩
  rw [hgrows.childrenByParent] at harray
  obtain ⟨refs, hrefs, hbare⟩ := h.siblings callId array harray
  exact ⟨refs, hgrows.heap.arrays _ _ hrefs, fun ref href ↦ (hbare ref href).mono hgrows.heap⟩

/-- The heap alone grows. -/
theorem grows_heap {heap : Heap} (h : tree.heap.Extends heap) : tree.Grows { tree with heap } :=
  ⟨h, rfl⟩

theorem Wellformed.heap (h : tree.Wellformed) {heap : Heap} (hext : tree.heap.Extends heap) :
    ({ tree with heap } : ToolCallTree).Wellformed :=
  h.grows (grows_heap hext) fun callId cached hcached ↦ (h.cached callId cached hcached).mono hext

/-! ## Projecting -/

/-- A projection that answers each good reference with a related one, in a well-formed tree that has
only grown. -/
def Serves (project : ToolCallTree → Ref → Option (Ref × ToolCallTree))
    (Good : ToolCallTree → Ref → Prop) (Related : ToolCallTree → Ref → Ref → Prop) : Prop :=
  ∀ tree ref, tree.Deep → tree.Wellformed → Good tree ref → ∃ value tree',
    project tree ref = some (value, tree') ∧ tree.Grows tree' ∧ tree'.Wellformed ∧
      Related tree' ref value

section Rules

variable {project : ToolCallTree → Ref → Option (Ref × ToolCallTree)}
  {Good : ToolCallTree → Ref → Prop} {Related : ToolCallTree → Ref → Ref → Prop}

/-- The rule for lists. -/
theorem Serves.mapRefs (h : Serves project Good Related)
    (hgood : ∀ {tree tree' : ToolCallTree} {ref}, tree.Grows tree' → Good tree ref → Good tree' ref)
    (hrelated : ∀ {tree tree' : ToolCallTree} {ref value}, tree.Grows tree' →
      Related tree ref value → Related tree' ref value)
    (hdeep : tree.Deep) (hwell : tree.Wellformed) {refs : List Ref}
    (hrefs : ∀ ref ∈ refs, Good tree ref) :
    ∃ values tree', mapRefs project tree refs = some (values, tree') ∧ tree.Grows tree' ∧
      tree'.Wellformed ∧ List.Forall₂ (Related tree') refs values := by
  induction refs generalizing tree with
  | nil => exact ⟨[], tree, rfl, .refl tree, hwell, .nil⟩
  | cons ref refs ih =>
    obtain ⟨value, tree', hvalue, hgrows, hwell', hfirst⟩ :=
      h tree ref hdeep hwell (hrefs ref List.mem_cons_self)
    obtain ⟨values, tree'', hvalues, hgrows', hwell'', hrest⟩ :=
      ih (hdeep.grows hwell hgrows) hwell' fun r hr ↦
        hgood hgrows (hrefs r (List.mem_cons_of_mem _ hr))
    refine ⟨value :: values, tree'', ?_, hgrows.trans hgrows', hwell'',
      .cons (hrelated hgrows' hfirst) hrest⟩
    rw [ToolCallTree.mapRefs, hvalue, Option.bind_some]
    dsimp only
    rw [hvalues]
    rfl

/-- The rule for arrays. -/
theorem Serves.mapArray (h : Serves project Good Related)
    (hgood : ∀ {tree tree' : ToolCallTree} {ref}, tree.Grows tree' → Good tree ref → Good tree' ref)
    (hrelated : ∀ {tree tree' : ToolCallTree} {ref value}, tree.Grows tree' →
      Related tree ref value → Related tree' ref value)
    (hdeep : tree.Deep) (hwell : tree.Wellformed) {source : Ref} {elements : List Ref}
    (hsource : tree.heap.elements? source = some elements)
    (helements : ∀ ref ∈ elements, Good tree ref) :
    ∃ value tree' values, mapArray project tree source = some (value, tree') ∧ tree.Grows tree' ∧
      tree'.Wellformed ∧ tree'.heap.elements? source = some elements ∧
      tree'.heap.elements? value = some values ∧
      List.Forall₂ (Related tree') elements values := by
  obtain ⟨values, tree', hvalues, hgrows, hwell', hall⟩ :=
    h.mapRefs hgood hrelated hdeep hwell helements
  have hext := tree'.heap.extends_newArray values
  have hgrows' := grows_heap hext
  have hsource' : (tree'.heap.newArray values).2.elements? source = some elements :=
    hext.arrays _ _ (hgrows.heap.arrays _ _ hsource)
  refine ⟨if elements = values then source else (tree'.heap.newArray values).1,
    { tree' with heap := (tree'.heap.newArray values).2 }, values, ?_, hgrows.trans hgrows',
    hwell'.heap hext, hsource', ?_, hall.imp fun _ _ ↦ hrelated hgrows'⟩
  · rw [ToolCallTree.mapArray, hsource, Option.bind_some, hvalues]
    rfl
  · split_ifs with hsame
    · rw [hsource', hsame]
    · exact Heap.elements?_newArray _ _

end Rules

/-- A bare block whose children are attached within so many levels. -/
def Reaches (depth : ℕ) (tree : ToolCallTree) (ref : Ref) : Prop :=
  ∃ block, tree.heap.block? ref = some block ∧ tree.heap.elements? block.subCalls = some [] ∧
    maxToolCallTreeDepth < tree.depthOf block.callId + depth

theorem Reaches.grows {depth : ℕ} {ref : Ref} (hgrows : tree.Grows tree')
    (h : Reaches depth tree ref) : Reaches depth tree' ref := by
  obtain ⟨block, hblock, hnone, hdepth⟩ := h
  exact ⟨block, hgrows.heap.block? hblock, hgrows.heap.arrays _ _ hnone, by rwa [hgrows.depthOf]⟩

/-- The children of a block are deeper than it. -/
theorem reaches_of_mem_elements (hdeep : tree.Deep) (hwell : tree.Wellformed) {depth : ℕ}
    {block : ToolCallBlock} (hnone : tree.heap.elements? block.subCalls = some [])
    (hdepth : maxToolCallTreeDepth < tree.depthOf block.callId + (depth + 1)) :
    ∃ elements, tree.heap.elements? (tree.childrenOf block) = some elements ∧
      ∀ child ∈ elements, Reaches depth tree child := by
  cases harray : tree.childrenByParent.get? block.callId with
  | none =>
    have hown : tree.childrenOf block = block.subCalls := by
      rw [ToolCallTree.childrenOf, harray]
      rfl
    exact ⟨[], hown ▸ hnone, fun child hchild ↦ absurd hchild (by simp)⟩
  | some array =>
    have hgiven : tree.childrenOf block = array := by
      rw [ToolCallTree.childrenOf, harray]
      rfl
    refine ⟨tree.siblings block.callId, hgiven ▸ hwell.siblings_eq harray, fun child hchild ↦ ?_⟩
    obtain ⟨sub, hsub, hnone'⟩ := hwell.bare hchild
    have hedge : tree.Edge block.callId sub.callId :=
      List.mem_filterMap.mpr ⟨child, hchild, by rw [hsub]; rfl⟩
    have := hdeep.depth.lt _ _ hedge
    exact ⟨sub, hsub, hnone', by omega⟩

/-- Projections of a list read the same calls. -/
theorem exists_calls {depth : ℕ} {refs values : List Ref}
    (h : List.Forall₂ (tree.Projects depth) refs values) :
    ∃ calls, refs.mapM (tree.attached depth) = some calls ∧
      values.mapM (tree.heap.callTree depth) = some calls := by
  simp only [mapM_eq_some]
  induction h with
  | nil => exact ⟨[], .nil, .nil⟩
  | cons hfirst _ ih =>
    obtain ⟨call, hattached, hcall⟩ := hfirst
    obtain ⟨calls, hattacheds, hcalls⟩ := ih
    exact ⟨call :: calls, .cons hattached hattacheds, .cons hcall hcalls⟩

/-- A value that is its block with projected children is a projection. -/
theorem projects_of_attached {depth : ℕ} {ref value children : Ref} {block : ToolCallBlock}
    {elements values : List Ref} (hblock : tree.heap.block? ref = some block)
    (helements : tree.heap.elements? (tree.childrenOf block) = some elements)
    (hchildren : tree.heap.elements? children = some values)
    (hall : List.Forall₂ (tree.Projects depth) elements values)
    (h : Attached tree.heap ⟨ref, children, value⟩) : tree.Projects (depth + 1) ref value := by
  obtain ⟨block', after, refs, hblock', hvalue, hid, hdata, hrefs, hsub⟩ := h
  obtain rfl : block = block' := Option.some.inj (hblock.symm.trans hblock')
  obtain rfl : refs = values := Option.some.inj (hrefs.symm.trans hchildren)
  obtain ⟨calls, hattached, hcalls⟩ := exists_calls hall
  refine ⟨.node block.callId block.data calls, ?_, ?_⟩
  · rw [attached, Heap.read, hblock, Option.bind_some, helements, Option.bind_some]
    rw [attached] at hattached
    rw [hattached]
    rfl
  · rw [Heap.callTree, Heap.read, hvalue, Option.bind_some, hsub, Option.bind_some]
    rw [Heap.callTree] at hcalls
    rw [hcalls, hid, hdata]
    rfl

/-- The block with its children is recorded. -/
theorem withChildren_spec (hwell : tree.Wellformed) {ref children : Ref} {block : ToolCallBlock}
    {values : List Ref} (hblock : tree.heap.block? ref = some block)
    (hchildren : tree.heap.elements? children = some values) :
    tree.Grows (tree.withChildren ref block children).2 ∧
      (tree.withChildren ref block children).2.Wellformed ∧
      Attached (tree.withChildren ref block children).2.heap
        ⟨ref, children, (tree.withChildren ref block children).1⟩ := by
  have hspec : tree.heap.Extends (tree.withChildren ref block children).2.heap ∧
      Attached (tree.withChildren ref block children).2.heap
        ⟨ref, children, (tree.withChildren ref block children).1⟩ := by
    rw [withChildren]
    split_ifs with hown
    · exact ⟨.refl _, block, block, values, hblock, hblock, rfl, rfl, hchildren, hown ▸ hchildren⟩
    · have hext := tree.heap.extends_newObject (.block { block with subCalls := children })
      exact ⟨hext, block, { block with subCalls := children }, values, hext.block? hblock,
        Heap.block?_newObject _ _, rfl, rfl, hext.arrays _ _ hchildren,
        hext.arrays _ _ hchildren⟩
  obtain ⟨hext, hattached⟩ := hspec
  have hgrows : tree.Grows (tree.withChildren ref block children).2 := ⟨hext, rfl⟩
  refine ⟨hgrows, hwell.grows hgrows fun callId cached hcached ↦ ?_, hattached⟩
  change (tree.projectedByCall.set block.callId _).get? callId = some cached at hcached
  rw [OrderedMap.get?_set] at hcached
  split_ifs at hcached with hid
  · exact Option.some.inj hcached ▸ hattached
  · exact (hwell.cached callId cached hcached).mono hext

/-- **A projection attaches the children**, whatever is cached, within the levels that are left. -/
theorem serves_projectBlock (depth : ℕ) :
    Serves (projectBlock depth) (Reaches depth) fun tree ↦ tree.Projects depth := by
  induction depth with
  | zero =>
    rintro tree ref hdeep - ⟨block, -, -, hdepth⟩
    have := hdeep.bound block.callId
    omega
  | succ depth ih =>
    rintro tree ref hdeep hwell ⟨block, hblock, hnone, hdepth⟩
    obtain ⟨elements, helements, hreaches⟩ := reaches_of_mem_elements hdeep hwell hnone hdepth
    obtain ⟨children, tree', values, hmap, hgrows, hwell', hsource, hchildren, hall⟩ :=
      ih.mapArray (fun h ↦ Reaches.grows h) (fun h ↦ h.projects) hdeep hwell helements hreaches
    have hblock' := hgrows.heap.block? hblock
    have hsource' : tree'.heap.elements? (tree'.childrenOf block) = some elements := by
      rw [hgrows.childrenOf]
      exact hsource
    have hanew : ∃ value tree'', tree'.withChildren ref block children = (value, tree'') ∧
        tree.Grows tree'' ∧ tree''.Wellformed ∧ tree''.Projects (depth + 1) ref value := by
      have hspec := withChildren_spec hwell' hblock' hchildren
      generalize tree'.withChildren ref block children = result at hspec ⊢
      obtain ⟨hgrows', hwell'', hattached⟩ := hspec
      refine ⟨result.1, result.2, rfl, hgrows.trans hgrows', hwell'', ?_⟩
      have hsource'' : result.2.heap.elements? (result.2.childrenOf block) = some elements := by
        rw [hgrows'.childrenOf]
        exact hgrows'.heap.arrays _ _ hsource'
      exact projects_of_attached (hgrows'.heap.block? hblock') hsource''
        (hgrows'.heap.arrays _ _ hchildren) (hall.imp fun _ _ ↦ hgrows'.projects) hattached
    rw [projectBlock, hblock, Option.bind_some, hmap, Option.map_some]
    dsimp only
    cases hcached : tree'.projectedByCall.get? block.callId with
    | none =>
      obtain ⟨value, tree'', heq, hrest⟩ := hanew
      exact ⟨value, tree'', congrArg some heq, hrest⟩
    | some cached =>
      dsimp only
      split_ifs with hhit
      · -- The cached value has the same source, and children that are the same objects.
        obtain ⟨hsame, hrefs⟩ := hhit
        rw [sameReferences, decide_eq_true_iff] at hrefs
        obtain ⟨source, value, refs, hsrc, hvalue, hid, hdata, hold, hsub⟩ :=
          hwell'.cached _ cached hcached
        refine ⟨cached.value, tree', rfl, hgrows, hwell', ?_⟩
        exact projects_of_attached hblock' hsource' hchildren hall
          ⟨source, value, refs, hsame ▸ hsrc, hvalue, hid, hdata, hrefs ▸ hold, hsub⟩
      · obtain ⟨value, tree'', heq, hrest⟩ := hanew
        exact ⟨value, tree'', congrArg some heq, hrest⟩

end ToolCallTree

end XxAgent.Client
