import XxAgent.Client.ToolCallProjection

/-!
# Tool calls stay a bounded forest

Over any sequence of events, projections and resets, whatever the ids: the edges that are accepted
make no cycle and no chain that is too long, and projections are what they would be without caches.
-/

namespace XxAgent.Client

open Ecma LongestPath Relation

/-- The edge of an event, from the parent to the child. -/
def ToolEvent.edge? : ToolEvent → Option (CallId × CallId)
  | .dispatchStart _ parentCallId subCallId _ _ => some (parentCallId, subCallId)
  | .dispatch _ _ parentCallId subCallId _ _ _ _ => some (parentCallId, subCallId)
  | .other => none

namespace ToolCallTree

variable {tree tree' : ToolCallTree}

/-! ## Projected lists -/

/-- A node of a conversation: a block is bare. -/
def Root (tree : ToolCallTree) (ref : Ref) : Prop :=
  tree.heap.objects[ref]? = some .node ∨ tree.heap.Bare ref

/-- A settled block is projected, another node is itself. -/
inductive NodeProjects (tree : ToolCallTree) (ref : Ref) : Ref → Prop
  | settled {value : Ref} {block : ToolCallBlock} {node : SettledCall}
      (hblock : tree.heap.block? ref = some block) (hdata : block.data = .settled node)
      (h : tree.Projects maxToolCallTreeDepth ref value) : NodeProjects tree ref value
  | running {block : ToolCallBlock} {call : RunningCall}
      (hblock : tree.heap.block? ref = some block) (hdata : block.data = .running call) :
      NodeProjects tree ref ref
  | node (hnode : tree.heap.objects[ref]? = some .node) : NodeProjects tree ref ref

theorem Root.grows {ref : Ref} (hgrows : tree.Grows tree') (h : tree.Root ref) : tree'.Root ref :=
  h.imp (hgrows.heap.objects ref _) fun hbare ↦ hbare.mono hgrows.heap

theorem NodeProjects.grows {ref value : Ref} (hgrows : tree.Grows tree')
    (h : tree.NodeProjects ref value) : tree'.NodeProjects ref value := by
  cases h with
  | settled hblock hdata h => exact .settled (hgrows.heap.block? hblock) hdata (hgrows.projects h)
  | running hblock hdata => exact .running (hgrows.heap.block? hblock) hdata
  | node hnode => exact .node (hgrows.heap.objects ref _ hnode)

/-- Only the heap and the children count. -/
theorem nodesProject_congr {refs values : List Ref}
    (h : List.Forall₂ (NodeProjects tree) refs values) (hheap : tree'.heap = tree.heap)
    (hchildren : tree'.childrenOf = tree.childrenOf) :
    List.Forall₂ (NodeProjects tree') refs values := by
  refine h.imp fun ref value h ↦ ?_
  cases h with
  | settled hblock hdata h =>
    refine .settled (hheap ▸ hblock) hdata ?_
    rwa [Projects, attached, hheap, hchildren]
  | running hblock hdata => exact .running (hheap ▸ hblock) hdata
  | node hnode => exact .node (hheap ▸ hnode)

theorem reaches_of_bare (hdeep : tree.Deep) {ref : Ref} (h : tree.heap.Bare ref) :
    Reaches maxToolCallTreeDepth tree ref := by
  obtain ⟨block, hblock, hnone⟩ := h
  have := hdeep.depth.pos block.callId
  exact ⟨block, hblock, hnone, by omega⟩

theorem serves_projectNode : Serves projectNode Root NodeProjects := by
  intro tree ref hdeep hwell hroot
  rcases hroot with hnode | hbare
  · have hnone : tree.heap.block? ref = none := by rw [Heap.block?, hnode]
    refine ⟨ref, tree, ?_, .refl tree, hwell, .node hnode⟩
    rw [projectNode, hnone]
    rfl
  · have hreaches := reaches_of_bare hdeep hbare
    obtain ⟨block, hblock, -⟩ := hbare
    cases hdata : block.data with
    | running call =>
      refine ⟨ref, tree, ?_, .refl tree, hwell, .running hblock hdata⟩
      rw [projectNode, hblock, Option.map_some, hdata]
    | settled node =>
      obtain ⟨value, after, hvalue, hgrows, hwell', hprojects⟩ :=
        serves_projectBlock maxToolCallTreeDepth tree ref hdeep hwell hreaches
      refine ⟨value, after, ?_, hgrows, hwell',
        .settled (hgrows.heap.block? hblock) hdata hprojects⟩
      rw [projectNode, hblock, Option.map_some, hdata]
      exact hvalue

/-- A list that was projected at this revision is what it should be. -/
def ListCached (tree : ToolCallTree) (Related : ToolCallTree → Ref → Ref → Prop)
    (cache : Option ProjectedList) : Prop :=
  ∀ cached, cache = some cached → cached.revision ≤ tree.revision ∧
    (cached.revision = tree.revision → ∃ elements values,
      tree.heap.elements? cached.source = some elements ∧
      tree.heap.elements? cached.value = some values ∧
      List.Forall₂ (Related tree) elements values)

theorem ListCached.grows {Related : ToolCallTree → Ref → Ref → Prop}
    {cache : Option ProjectedList} (h : tree.ListCached Related cache) (hgrows : tree.Grows tree')
    (hrelated : ∀ ref value, Related tree ref value → Related tree' ref value) :
    tree'.ListCached Related cache := by
  intro cached hcached
  obtain ⟨hle, hsame⟩ := h cached hcached
  refine ⟨hgrows.revision ▸ hle, fun hrevision ↦ ?_⟩
  obtain ⟨elements, values, hsource, hvalue, hall⟩ := hsame (hgrows.revision ▸ hrevision)
  exact ⟨elements, values, hgrows.heap.arrays _ _ hsource, hgrows.heap.arrays _ _ hvalue,
    hall.imp hrelated⟩

/-- At a later revision nothing is said of what was projected. -/
theorem ListCached.later {Related : ToolCallTree → Ref → Ref → Prop}
    {cache : Option ProjectedList} (h : tree.ListCached Related cache)
    (hlater : tree.revision < tree'.revision) : tree'.ListCached Related cache := by
  intro cached hcached
  have hle := (h cached hcached).1
  exact ⟨by omega, fun hsame ↦ by omega⟩

/-! ## Sound trees -/

structure Sound (tree : ToolCallTree) : Prop where
  deep : tree.Deep
  well : tree.Wellformed
  nodes : tree.ListCached NodeProjects tree.nodesCache
  running : tree.ListCached (fun tree ↦ tree.Projects maxToolCallTreeDepth) tree.runningCache

theorem Sound.grows (h : tree.Sound) (hgrows : tree.Grows tree') (hwell : tree'.Wellformed) :
    tree'.Sound := by
  refine ⟨h.deep.grows h.well hgrows, hwell, ?_, ?_⟩
  · rw [hgrows.nodesCache]
    exact h.nodes.grows hgrows fun _ _ ↦ NodeProjects.grows hgrows
  · rw [hgrows.runningCache]
    exact h.running.grows hgrows fun _ _ ↦ hgrows.projects

theorem Sound.heap (h : tree.Sound) {heap : Heap} (hext : tree.heap.Extends heap) :
    ({ tree with heap } : ToolCallTree).Sound :=
  h.grows (grows_heap hext) (h.well.heap hext)

/-- Without edges every call has the depth one. -/
theorem deep_of_no_children (hnone : tree.childrenByParent = OrderedMap.empty)
    (hdepths : tree.depthByCall = OrderedMap.empty) : tree.Deep := by
  have hone (x : CallId) : tree.depthOf x = 1 := by rw [depthOf, hdepths]; rfl
  refine ⟨⟨fun a b hedge ↦ ?_, fun b ↦ ⟨0, b, .nil b, hone b⟩⟩, fun x ↦ ?_⟩
  · have hnil : tree.childIds a = [] := by rw [childIds, siblings, hnone]; rfl
    rw [Edge, hnil] at hedge
    cases hedge
  · rw [hone, maxToolCallTreeDepth]
    decide

theorem wellformed_of_nothing (hnone : tree.childrenByParent = OrderedMap.empty)
    (hprojected : tree.projectedByCall = OrderedMap.empty) : tree.Wellformed where
  siblings callId array h := by
    rw [hnone] at h
    cases h
  cached callId cached h := by
    rw [hprojected] at h
    cases h

theorem sound_empty : Sound empty where
  deep := deep_of_no_children rfl rfl
  well := wellformed_of_nothing rfl rfl
  nodes _ h := by cases h
  running _ h := by cases h

theorem Sound.reset (h : tree.Sound) : tree.reset.Sound where
  deep := deep_of_no_children rfl rfl
  well := wellformed_of_nothing rfl rfl
  nodes := h.nodes.later (Nat.lt_succ_self _)
  running := h.running.later (Nat.lt_succ_self _)

/-! ## New siblings -/

theorem childIds_setSiblings (hwell : tree.Wellformed) {parentCallId : CallId} {refs : List Ref}
    (hbare : ∀ ref ∈ refs, tree.heap.Bare ref) (x : CallId) :
    (tree.setSiblings parentCallId refs).childIds x =
      if x = parentCallId then
        refs.filterMap fun ref ↦ (tree.heap.block? ref).map ToolCallBlock.callId
      else tree.childIds x := by
  have hext := tree.heap.extends_newArray refs
  have hsiblings : (tree.setSiblings parentCallId refs).siblings x =
      if x = parentCallId then refs else tree.siblings x := by
    rw [siblings, setSiblings]
    dsimp only
    rw [OrderedMap.get?_set]
    split_ifs with hx
    · rw [Option.bind_some, Heap.elements?_newArray]
      rfl
    · cases harray : tree.childrenByParent.get? x with
      | none => rw [siblings, harray]; rfl
      | some array =>
        rw [Option.bind_some, hext.arrays _ _ (hwell.siblings_eq harray)]
        rfl
  rw [childIds, hsiblings]
  split_ifs with hx
  · exact filterMap_callIds hext hbare
  · exact filterMap_callIds hext fun ref href ↦ hwell.bare href

theorem wellformed_setSiblings (hwell : tree.Wellformed) {parentCallId : CallId} {refs : List Ref}
    (hbare : ∀ ref ∈ refs, tree.heap.Bare ref) :
    (tree.setSiblings parentCallId refs).Wellformed := by
  have hext := tree.heap.extends_newArray refs
  refine ⟨fun callId array harray ↦ ?_,
    fun callId cached hcached ↦ (hwell.cached callId cached hcached).mono hext⟩
  change (tree.childrenByParent.set parentCallId _).get? callId = some array at harray
  rw [OrderedMap.get?_set] at harray
  split_ifs at harray with hid
  · obtain rfl := Option.some.inj harray
    exact ⟨refs, Heap.elements?_newArray _ _, fun ref href ↦ (hbare ref href).mono hext⟩
  · obtain ⟨old, hold, hbare'⟩ := hwell.siblings callId array harray
    exact ⟨old, hext.arrays _ _ hold, fun ref href ↦ (hbare' ref href).mono hext⟩

/-- A new child is bare, and what was there stays. -/
theorem newChild_spec (heap : Heap) (callId : CallId) (data : CallData) :
    heap.Extends (newChild heap callId data).2 ∧ (newChild heap callId data).2.Bare
        (newChild heap callId data).1 ∧
      ((newChild heap callId data).2.block? (newChild heap callId data).1).map
        ToolCallBlock.callId = some callId := by
  rw [newChild]
  have harray := heap.extends_newArray []
  have hobject := (heap.newArray []).2.extends_newObject
    (.block ⟨callId, data, (heap.newArray []).1⟩)
  refine ⟨harray.trans hobject, ⟨_, Heap.block?_newObject _ _, ?_⟩, ?_⟩
  · exact hobject.arrays _ _ (Heap.elements?_newArray _ _)
  · dsimp only
    rw [Heap.block?_newObject]
    rfl

/-! ## Events -/

/-- An edge is folded in, unless it is unsafe. -/
structure Folds (tree after : ToolCallTree) (parentCallId subCallId : CallId) : Prop where
  refused : Unsafe (AddEdge tree.Edge parentCallId subCallId) → after.Edge = tree.Edge
  accepted : ¬ Unsafe (AddEdge tree.Edge parentCallId subCallId) →
    after.Edge = AddEdge tree.Edge parentCallId subCallId

variable {parentCallId subCallId : CallId}

/-- One more child. -/
theorem edge_append (hwell : tree.Wellformed) {child : Ref} (hchild : tree.heap.Bare child)
    (hid : (tree.heap.block? child).map ToolCallBlock.callId = some subCallId) :
    (tree.setSiblings parentCallId (tree.siblings parentCallId ++ [child])).Edge =
      AddEdge tree.Edge parentCallId subCallId := by
  funext x y
  have hbare : ∀ ref ∈ tree.siblings parentCallId ++ [child], tree.heap.Bare ref := by
    intro ref href
    rcases List.mem_append.mp href with href | href
    · exact hwell.bare href
    · exact List.mem_singleton.mp href ▸ hchild
  rw [Edge, childIds_setSiblings hwell hbare, AddEdge, Edge]
  split_ifs with hx
  · subst hx
    have hone : [child].filterMap (fun ref ↦ (tree.heap.block? ref).map ToolCallBlock.callId) =
        [subCallId] := by
      rw [List.filterMap_cons, hid]
      rfl
    rw [List.filterMap_append, List.mem_append, hone]
    simp [childIds]
  · simp [hx]

/-- A sound tree with an edge that was accepted. -/
theorem Sound.append (h : tree.Sound) {depths : OrderedMap CallId ℕ} {child : Ref}
    (hchild : tree.heap.Bare child)
    (hid : (tree.heap.block? child).map ToolCallBlock.callId = some subCallId)
    (hdepth : IsDepth (AddEdge tree.Edge parentCallId subCallId) fun x ↦ (depths.get? x).getD 1)
    (hbound : ∀ x, (depths.get? x).getD 1 ≤ maxToolCallTreeDepth) :
    (setSiblings { tree with depthByCall := depths } parentCallId
      (tree.siblings parentCallId ++ [child])).Sound := by
  have hwell : ({ tree with depthByCall := depths } : ToolCallTree).Wellformed :=
    ⟨h.well.siblings, h.well.cached⟩
  have hedge : (setSiblings { tree with depthByCall := depths } parentCallId
      (tree.siblings parentCallId ++ [child])).Edge = AddEdge tree.Edge parentCallId subCallId :=
    edge_append hwell hchild hid
  refine ⟨⟨hedge ▸ hdepth, hbound⟩, wellformed_setSiblings hwell fun ref href ↦ ?_,
    h.nodes.later (Nat.lt_succ_self _), h.running.later (Nat.lt_succ_self _)⟩
  rcases List.mem_append.mp href with href | href
  · exact h.well.bare href
  · exact List.mem_singleton.mp href ▸ hchild

/-- What is put in the place of an element that counts as it does. -/
theorem filterMap_set {α β : Type} {f : α → Option β} {xs : List α} {index : ℕ} {x old : α}
    (hold : xs[index]? = some old) (hsame : f x = f old) :
    (xs.set index x).filterMap f = xs.filterMap f := by
  induction xs generalizing index with
  | nil => cases hold
  | cons y ys ih =>
    cases index with
    | zero =>
      obtain rfl := Option.some.inj hold
      rw [List.set_cons_zero, List.filterMap_cons, List.filterMap_cons, hsame]
    | succ index =>
      rw [List.set_cons_succ, List.filterMap_cons, List.filterMap_cons, ih hold]

/-- A child is put in the place of one with its id. -/
theorem edge_set (hwell : tree.Wellformed) {child old : Ref} {index : ℕ}
    (hchild : tree.heap.Bare child) (hold : (tree.siblings parentCallId)[index]? = some old)
    (hid : (tree.heap.block? child).map ToolCallBlock.callId =
      (tree.heap.block? old).map ToolCallBlock.callId) :
    (tree.setSiblings parentCallId ((tree.siblings parentCallId).set index child)).Edge =
      tree.Edge := by
  funext x y
  have hbare : ∀ ref ∈ (tree.siblings parentCallId).set index child, tree.heap.Bare ref := by
    intro ref href
    rcases List.mem_or_eq_of_mem_set href with href | rfl
    · exact hwell.bare href
    · exact hchild
  rw [Edge, childIds_setSiblings hwell hbare, Edge]
  split_ifs with hx
  · subst hx
    rw [filterMap_set hold hid]
    rfl
  · rfl

theorem Sound.replace (h : tree.Sound) {child old : Ref} {index : ℕ}
    (hchild : tree.heap.Bare child) (hold : (tree.siblings parentCallId)[index]? = some old)
    (hid : (tree.heap.block? child).map ToolCallBlock.callId =
      (tree.heap.block? old).map ToolCallBlock.callId) :
    (tree.setSiblings parentCallId ((tree.siblings parentCallId).set index child)).Sound := by
  refine ⟨⟨edge_set h.well hchild hold hid ▸ h.deep.depth, h.deep.bound⟩,
    wellformed_setSiblings h.well fun ref href ↦ ?_,
    h.nodes.later (Nat.lt_succ_self _), h.running.later (Nat.lt_succ_self _)⟩
  rcases List.mem_or_eq_of_mem_set href with href | rfl
  · exact h.well.bare href
  · exact hchild

/-- A new child whose edge is accepted. -/
theorem Sound.accept (h : tree.Sound) {child : Ref} {heap : Heap} (hext : tree.heap.Extends heap)
    (hchild : heap.Bare child)
    (hid : (heap.block? child).map ToolCallBlock.callId = some subCallId)
    {depths : OrderedMap CallId ℕ}
    (hdepth : IsDepth (AddEdge tree.Edge parentCallId subCallId) fun x ↦ (depths.get? x).getD 1)
    (hbound : ∀ x, (depths.get? x).getD 1 ≤ maxToolCallTreeDepth) :
    (setSiblings { tree with heap, depthByCall := depths } parentCallId
        (tree.siblings parentCallId ++ [child])).Sound ∧
      Folds tree (setSiblings { tree with heap, depthByCall := depths } parentCallId
        (tree.siblings parentCallId ++ [child])) parentCallId subCallId := by
  have hgrows : tree.Grows { tree with heap } := grows_heap hext
  have hsound : ({ tree with heap } : ToolCallTree).Sound := h.heap hext
  have hedge : ({ tree with heap } : ToolCallTree).Edge = tree.Edge := hgrows.edge h.well
  have hsiblings : ({ tree with heap } : ToolCallTree).siblings = tree.siblings :=
    hgrows.siblings h.well
  have happend :=
    @edge_append { tree with heap } parentCallId subCallId hsound.well child hchild hid
  rw [hsiblings, hedge] at happend
  refine ⟨?_, fun hbad ↦ absurd hbad (not_unsafe_of_isDepth hdepth hbound), fun _ ↦ happend⟩
  rw [← hsiblings]
  rw [← hedge] at hdepth
  exact hsound.append hchild hid hdepth hbound

/-- An edge that is refused leaves at most an object behind. -/
theorem Sound.refuse (h : tree.Sound) {heap : Heap} (hext : tree.heap.Extends heap)
    (hbad : Unsafe (AddEdge tree.Edge parentCallId subCallId)) :
    ({ tree with heap } : ToolCallTree).Sound ∧
      Folds tree { tree with heap } parentCallId subCallId :=
  ⟨h.heap hext, fun _ ↦ (grows_heap hext).edge h.well, fun hsafe ↦ absurd hbad hsafe⟩

/-- A child that is settled in its place. -/
theorem Sound.settle (h : tree.Sound) {child old : Ref} {heap : Heap} {index : ℕ}
    (hext : tree.heap.Extends heap) (hchild : heap.Bare child)
    (hid : (heap.block? child).map ToolCallBlock.callId = some subCallId)
    (hold : (tree.siblings parentCallId)[index]? = some old)
    (hsub : (tree.heap.block? old).map ToolCallBlock.callId = some subCallId) :
    (setSiblings { tree with heap } parentCallId
        ((tree.siblings parentCallId).set index child)).Sound ∧
      Folds tree (setSiblings { tree with heap } parentCallId
        ((tree.siblings parentCallId).set index child)) parentCallId subCallId := by
  have hgrows : tree.Grows { tree with heap } := grows_heap hext
  have hsound : ({ tree with heap } : ToolCallTree).Sound := h.heap hext
  have hsiblings : ({ tree with heap } : ToolCallTree).siblings = tree.siblings :=
    hgrows.siblings h.well
  have hsame : (heap.block? child).map ToolCallBlock.callId =
      (heap.block? old).map ToolCallBlock.callId := by
    obtain ⟨block, hblock, hcallId⟩ := Option.map_eq_some_iff.mp hsub
    rw [hid, hext.block? hblock, Option.map_some, hcallId]
  rw [← hsiblings] at hold ⊢
  have hedge := edge_set hsound.well hchild hold hsame
  rw [hgrows.edge h.well] at hedge
  refine ⟨hsound.replace hchild hold hsame, fun _ ↦ hedge, fun _ ↦ ?_⟩
  -- The edge is there already, so nothing is added.
  have hthere : tree.Edge parentCallId subCallId := by
    rw [hsiblings] at hold
    exact List.mem_filterMap.mpr ⟨old, List.mem_of_getElem? hold, hsub⟩
  rw [hedge]
  funext x y
  refine propext ⟨.inl, ?_⟩
  rintro (h | ⟨rfl, rfl⟩)
  · exact h
  · exact hthere

theorem Folds.of_edge? {after : ToolCallTree} (h : Folds tree after parentCallId subCallId) :
    ∀ a b, some (parentCallId, subCallId) = some (a, b) → Folds tree after a b := by
  rintro _ _ ⟨⟩
  exact h

/-- **Every event is folded**: its edge, unless it is unsafe. -/
theorem apply_spec (h : tree.Sound) (event : ToolEvent) :
    ∃ consumed after, tree.apply event = some (consumed, after) ∧ after.Sound ∧
      (event.edge? = none → after = tree) ∧
      ∀ parentCallId subCallId, event.edge? = some (parentCallId, subCallId) →
        Folds tree after parentCallId subCallId := by
  cases event with
  | other => exact ⟨false, tree, rfl, h, fun _ ↦ rfl, by simp [ToolEvent.edge?]⟩
  | dispatchStart time parentCallId subCallId name arguments =>
    obtain ⟨hext, hchild, hid⟩ :=
      newChild_spec tree.heap subCallId (.running ⟨name, stringify arguments, 0, 0, time, none⟩)
    rw [ToolCallTree.apply]
    dsimp only
    generalize newChild tree.heap subCallId
      (.running ⟨name, stringify arguments, 0, 0, time, none⟩) = child at hext hchild hid ⊢
    have hedge : ({ tree with heap := child.2 } : ToolCallTree).Edge = tree.Edge :=
      (grows_heap hext).edge h.well
    obtain ⟨accepted, depths, heq, hiff, hkept, hdepth⟩ :=
      acceptEdge_spec (h.heap hext).deep parentCallId subCallId
    rw [hedge] at hiff hdepth
    rw [heq, Option.map_some]
    dsimp only
    refine ⟨true, _, rfl, ?_⟩
    cases accepted with
    | true =>
      obtain ⟨hright, hbound⟩ := hdepth rfl
      obtain ⟨hsound, hfolds⟩ := h.accept hext hchild hid hright hbound
      exact ⟨hsound, by simp [ToolEvent.edge?], hfolds.of_edge?⟩
    | false =>
      obtain rfl := hkept rfl
      obtain ⟨hsound, hfolds⟩ := h.refuse hext (hiff.mp rfl)
      exact ⟨hsound, by simp [ToolEvent.edge?], hfolds.of_edge?⟩
  | dispatch seq time parentCallId subCallId name arguments content isError =>
    rw [ToolCallTree.apply]
    dsimp only
    cases hplace : (tree.siblings parentCallId).findIdx? fun ref ↦
        (tree.heap.block? ref).any fun sub ↦ sub.callId = subCallId with
    | none =>
      obtain ⟨accepted, depths, heq, hiff, hkept, hdepth⟩ :=
        acceptEdge_spec h.deep parentCallId subCallId
      dsimp only
      rw [heq, Option.map_some]
      dsimp only
      refine ⟨true, _, rfl, ?_⟩
      cases accepted with
      | true =>
        obtain ⟨hext, hchild, hid⟩ := newChild_spec tree.heap subCallId _
        obtain ⟨hright, hbound⟩ := hdepth rfl
        obtain ⟨hsound, hfolds⟩ := h.accept hext hchild hid hright hbound
        exact ⟨hsound, by simp [ToolEvent.edge?], hfolds.of_edge?⟩
      | false =>
        obtain rfl := hkept rfl
        obtain ⟨hsound, hfolds⟩ := h.refuse (.refl _) (hiff.mp rfl)
        exact ⟨hsound, by simp [ToolEvent.edge?], hfolds.of_edge?⟩
    | some index =>
      dsimp only
      obtain ⟨hlt, hfound, -⟩ := List.findIdx?_eq_some_iff_getElem.mp hplace
      obtain ⟨sub, hsub, hsame⟩ := Option.any_eq_true _ _ |>.mp hfound
      rw [decide_eq_true_iff] at hsame
      have hid : (tree.heap.block? (tree.siblings parentCallId)[index]).map ToolCallBlock.callId =
          some subCallId := by rw [hsub, Option.map_some, hsame]
      have hspec (data : CallData) := newChild_spec tree.heap subCallId data
      have hsettle (data : CallData) := h.settle (hspec data).1 (hspec data).2.1 (hspec data).2.2
        (List.getElem?_eq_getElem hlt) hid
      exact ⟨true, _, rfl, (hsettle _).1, by simp [ToolEvent.edge?], (hsettle _).2.of_edge?⟩

/-! ## Projections of sound trees -/

theorem projectBlock_spec (h : tree.Sound) {ref : Ref} (hbare : tree.heap.Bare ref) :
    ∃ value after, projectBlock maxToolCallTreeDepth tree ref = some (value, after) ∧
      after.Projects maxToolCallTreeDepth ref value := by
  obtain ⟨value, after, heq, -, -, hprojects⟩ := serves_projectBlock maxToolCallTreeDepth tree ref
    h.deep h.well (reaches_of_bare h.deep hbare)
  exact ⟨value, after, heq, hprojects⟩

/-- What a projection of a list comes to. -/
structure ListProjected (tree after : ToolCallTree) (Related : ToolCallTree → Ref → Ref → Prop)
    (source value : Ref) : Prop where
  sound : after.Sound
  heap : tree.heap.Extends after.heap
  edges : after.Edge = tree.Edge
  children : after.childrenOf = tree.childrenOf
  elements : ∃ elements values, after.heap.elements? source = some elements ∧
    after.heap.elements? value = some values ∧ List.Forall₂ (Related after) elements values

/-- Nodes that are projected anew are recorded for this revision. -/
theorem projectNodes_anew (h : tree.Sound) {nodes : Ref} {elements : List Ref}
    (hnodes : tree.heap.elements? nodes = some elements)
    (hroots : ∀ ref ∈ elements, tree.Root ref) :
    ∃ value after, mapArray projectNode tree nodes = some (value, after) ∧
      tree.ListProjected { after with nodesCache := some ⟨nodes, after.revision, value⟩ }
        NodeProjects nodes value := by
  obtain ⟨value, after, values, heq, hgrows, hwell, hsource, hvalue, hall⟩ :=
    serves_projectNode.mapArray (fun h ↦ Root.grows h) (fun h ↦ NodeProjects.grows h) h.deep
      h.well hnodes hroots
  have hsound := h.grows hgrows hwell
  have hcached : List.Forall₂ (NodeProjects
      { after with nodesCache := some ⟨nodes, after.revision, value⟩ }) elements values :=
    nodesProject_congr hall rfl rfl
  refine ⟨value, after, heq, ⟨⟨hsound.deep.depth, hsound.deep.bound⟩,
    ⟨hsound.well.siblings, hsound.well.cached⟩, ?_, hsound.running⟩, hgrows.heap,
    hgrows.edge h.well, hgrows.childrenOf, elements, values, hsource, hvalue, hcached⟩
  rintro cached ⟨⟩
  exact ⟨le_rfl, fun _ ↦ ⟨elements, values, hsource, hvalue, hcached⟩⟩

theorem projectNodes_spec (h : tree.Sound) {nodes : Ref} {elements : List Ref}
    (hnodes : tree.heap.elements? nodes = some elements)
    (hroots : ∀ ref ∈ elements, tree.Root ref) :
    ∃ value after, tree.projectNodes nodes = some (value, after) ∧
      tree.ListProjected after NodeProjects nodes value := by
  obtain ⟨value, after, heq, hprojected⟩ := projectNodes_anew h hnodes hroots
  rw [projectNodes]
  dsimp only
  rw [heq, Option.map_some]
  cases hcache : tree.nodesCache with
  | none => exact ⟨value, _, rfl, hprojected⟩
  | some cached =>
    dsimp only
    split_ifs with hhit
    · obtain ⟨rfl, hrevision⟩ := hhit
      exact ⟨cached.value, tree, rfl, h, .refl _, rfl, rfl, (h.nodes cached hcache).2 hrevision⟩
    · exact ⟨value, _, rfl, hprojected⟩

/-- Running calls that are projected anew are recorded for this revision. -/
theorem projectRunningCalls_anew (h : tree.Sound) {calls : Ref} {elements : List Ref}
    (hcalls : tree.heap.elements? calls = some elements)
    (hbare : ∀ ref ∈ elements, tree.heap.Bare ref) :
    ∃ value after,
      mapArray (projectBlock maxToolCallTreeDepth) tree calls = some (value, after) ∧
      tree.ListProjected { after with runningCache := some ⟨calls, after.revision, value⟩ }
        (fun tree ↦ tree.Projects maxToolCallTreeDepth) calls value := by
  obtain ⟨value, after, values, heq, hgrows, hwell, hsource, hvalue, hall⟩ :=
    (serves_projectBlock maxToolCallTreeDepth).mapArray (fun h ↦ Reaches.grows h)
      (fun h ↦ h.projects) h.deep h.well hcalls
      fun ref href ↦ reaches_of_bare h.deep (hbare ref href)
  have hsound := h.grows hgrows hwell
  refine ⟨value, after, heq, ⟨⟨hsound.deep.depth, hsound.deep.bound⟩,
    ⟨hsound.well.siblings, hsound.well.cached⟩, fun cached hcached ↦ ?_, ?_⟩, hgrows.heap,
    hgrows.edge h.well, hgrows.childrenOf, elements, values, hsource, hvalue, hall⟩
  · obtain ⟨hle, hsame⟩ := hsound.nodes cached hcached
    refine ⟨hle, fun hrevision ↦ ?_⟩
    obtain ⟨elements, values, hsource, hvalue, hall⟩ := hsame hrevision
    exact ⟨elements, values, hsource, hvalue, nodesProject_congr hall rfl rfl⟩
  · rintro cached ⟨⟩
    exact ⟨le_rfl, fun _ ↦ ⟨elements, values, hsource, hvalue, hall⟩⟩

theorem projectRunningCalls_spec (h : tree.Sound) {calls : Ref} {elements : List Ref}
    (hcalls : tree.heap.elements? calls = some elements)
    (hbare : ∀ ref ∈ elements, tree.heap.Bare ref) :
    ∃ value after, tree.projectRunningCalls calls = some (value, after) ∧
      tree.ListProjected after (fun tree ↦ tree.Projects maxToolCallTreeDepth) calls value := by
  obtain ⟨value, after, heq, hprojected⟩ := projectRunningCalls_anew h hcalls hbare
  rw [projectRunningCalls]
  dsimp only
  rw [heq, Option.map_some]
  cases hcache : tree.runningCache with
  | none => exact ⟨value, _, rfl, hprojected⟩
  | some cached =>
    dsimp only
    split_ifs with hhit
    · obtain ⟨rfl, hrevision⟩ := hhit
      exact ⟨cached.value, tree, rfl, h, .refl _, rfl, rfl, (h.running cached hcache).2 hrevision⟩
    · exact ⟨value, _, rfl, hprojected⟩

/-! ## Runs -/

/-- What a session does with its tree. -/
inductive Op where
  | reset
  | apply (event : ToolEvent)
  | projectNodes (nodes : Ref)
  | projectRunningCalls (calls : Ref)
  /-- A root call or another node is created, or a list of what is there. -/
  | newCall (callId : CallId) (data : CallData)
  | newNode
  | newArray (elements : List Ref)

/-- Lists are projected whose elements are nodes, or calls. -/
def Admits (tree : ToolCallTree) : Op → Prop
  | .projectNodes nodes => ∃ elements, tree.heap.elements? nodes = some elements ∧
      ∀ ref ∈ elements, tree.Root ref
  | .projectRunningCalls calls => ∃ elements, tree.heap.elements? calls = some elements ∧
      ∀ ref ∈ elements, tree.heap.Bare ref
  | _ => True

def step (tree : ToolCallTree) : Op → Option ToolCallTree
  | .reset => some tree.reset
  | .apply event => (tree.apply event).map Prod.snd
  | .projectNodes nodes => (tree.projectNodes nodes).map Prod.snd
  | .projectRunningCalls calls => (tree.projectRunningCalls calls).map Prod.snd
  | .newCall callId data => some { tree with heap := (newChild tree.heap callId data).2 }
  | .newNode => some { tree with heap := (tree.heap.newObject .node).2 }
  | .newArray elements => some { tree with heap := (tree.heap.newArray elements).2 }

/-- A run from nothing. -/
inductive Reachable : ToolCallTree → Prop
  | start : Reachable empty
  | step {tree after : ToolCallTree} (h : Reachable tree) (op : Op) (hadmits : tree.Admits op)
      (hstep : tree.step op = some after) : Reachable after

/-- Every step is taken, and keeps a tree sound. -/
theorem Sound.step (h : tree.Sound) (op : Op) (hadmits : tree.Admits op) :
    ∃ after, tree.step op = some after ∧ after.Sound := by
  cases op with
  | reset => exact ⟨tree.reset, rfl, h.reset⟩
  | apply event =>
    obtain ⟨consumed, after, heq, hsound, -⟩ := apply_spec h event
    exact ⟨after, by rw [ToolCallTree.step, heq]; rfl, hsound⟩
  | projectNodes nodes =>
    obtain ⟨elements, hnodes, hroots⟩ := hadmits
    obtain ⟨value, after, heq, hprojected⟩ := projectNodes_spec h hnodes hroots
    exact ⟨after, by rw [ToolCallTree.step, heq]; rfl, hprojected.sound⟩
  | projectRunningCalls calls =>
    obtain ⟨elements, hcalls, hbare⟩ := hadmits
    obtain ⟨value, after, heq, hprojected⟩ := projectRunningCalls_spec h hcalls hbare
    exact ⟨after, by rw [ToolCallTree.step, heq]; rfl, hprojected.sound⟩
  | newCall callId data => exact ⟨_, rfl, h.heap (newChild_spec tree.heap callId data).1⟩
  | newNode => exact ⟨_, rfl, h.heap (tree.heap.extends_newObject .node)⟩
  | newArray elements => exact ⟨_, rfl, h.heap (tree.heap.extends_newArray elements)⟩

theorem Reachable.sound (h : Reachable tree) : tree.Sound := by
  induction h with
  | start => exact sound_empty
  | step _ op hadmits hstep ih =>
    obtain ⟨after, heq, hsound⟩ := ih.step op hadmits
    rw [hstep] at heq
    exact Option.some.inj heq ▸ hsound

/-- A bounded forest: no cycle, no long chain, each event folded unless it would make one, and
projections that attach the children as if nothing were cached. -/
structure BoundedForest (tree : ToolCallTree) : Prop where
  acyclic : ∀ a, ¬ TransGen tree.Edge a a
  bounded : ∀ n a b, Path tree.Edge n a b → n ≤ maxToolCallTreeDepth - 1
  edges : ∀ parentCallId subCallId, ∃ accepted after,
    tree.acceptEdge parentCallId subCallId = some (accepted, after) ∧
      (accepted = false ↔ Unsafe (AddEdge tree.Edge parentCallId subCallId)) ∧
      (accepted = false → after = tree)
  events : ∀ event, ∃ consumed after, tree.apply event = some (consumed, after) ∧
    (event.edge? = none → after = tree) ∧
    ∀ parentCallId subCallId, event.edge? = some (parentCallId, subCallId) →
      Folds tree after parentCallId subCallId
  blocks : ∀ ref, tree.heap.Bare ref → ∃ value after,
    projectBlock maxToolCallTreeDepth tree ref = some (value, after) ∧
      after.Projects maxToolCallTreeDepth ref value
  nodes : ∀ nodes, tree.Admits (.projectNodes nodes) → ∃ value after,
    tree.projectNodes nodes = some (value, after) ∧
      tree.ListProjected after NodeProjects nodes value
  running : ∀ calls, tree.Admits (.projectRunningCalls calls) → ∃ value after,
    tree.projectRunningCalls calls = some (value, after) ∧
      tree.ListProjected after (fun tree ↦ tree.Projects maxToolCallTreeDepth) calls value

/-- **Tool calls stay a bounded forest**, in any run. -/
theorem boundedForest_of_reachable (h : Reachable tree) : tree.BoundedForest where
  acyclic := h.sound.deep.depth.acyclic
  bounded n a b hpath := by
    have := h.sound.deep.depth.length_lt hpath
    have := h.sound.deep.bound b
    omega
  edges parentCallId subCallId := by
    obtain ⟨accepted, depths, heq, hiff, hkept, -⟩ :=
      acceptEdge_spec h.sound.deep parentCallId subCallId
    exact ⟨accepted, _, heq, hiff, fun hrefused ↦ by rw [hkept hrefused]⟩
  events event := by
    obtain ⟨consumed, after, heq, -, hnone, hfolds⟩ := apply_spec h.sound event
    exact ⟨consumed, after, heq, hnone, hfolds⟩
  blocks ref hbare := projectBlock_spec h.sound hbare
  nodes nodes hadmits := by
    obtain ⟨elements, hnodes, hroots⟩ := hadmits
    exact projectNodes_spec h.sound hnodes hroots
  running calls hadmits := by
    obtain ⟨elements, hcalls, hbare⟩ := hadmits
    exact projectRunningCalls_spec h.sound hcalls hbare

/-- Events one after the other. -/
def applyAll (tree : ToolCallTree) (events : List ToolEvent) : Option ToolCallTree :=
  events.foldlM (fun tree event ↦ (tree.apply event).map Prod.snd) tree

theorem Reachable.applyAll (h : Reachable tree) (events : List ToolEvent) :
    ∃ after, tree.applyAll events = some after ∧ Reachable after := by
  induction events generalizing tree with
  | nil => exact ⟨tree, rfl, h⟩
  | cons event events ih =>
    obtain ⟨next, hstep, -⟩ := h.sound.step (.apply event) trivial
    obtain ⟨after, hrest, hafter⟩ := ih (h.step (.apply event) trivial hstep)
    refine ⟨after, ?_, hafter⟩
    rw [ToolCallTree.applyAll, List.foldlM_cons]
    change ((tree.apply event).map Prod.snd).bind _ = _
    rw [show (tree.apply event).map Prod.snd = some next from hstep]
    exact hrest

/-- A call under two parents, which are linked under a root afterwards; the root is refused as a
child of it. -/
def sharedDescendant : ToolCallTree :=
  let start (parent child : String) : ToolEvent :=
    .dispatchStart 0 (js parent) (js child) (js "run_code") (.obj [])
  (empty.applyAll [start "a" "b", start "a" "c", start "b" "d", start "c" "d", start "root" "a",
    start "d" "root"]).getD empty

theorem boundedForest_sharedDescendant : sharedDescendant.BoundedForest ∧
    sharedDescendant.childIds (js "c") = [js "d"] ∧ sharedDescendant.childIds (js "d") = [] ∧
      sharedDescendant.depthOf (js "d") = 4 := by
  refine ⟨boundedForest_of_reachable ?_, by decide +kernel, by decide +kernel, by decide +kernel⟩
  obtain ⟨after, heq, hreachable⟩ := Reachable.start.applyAll _
  rw [sharedDescendant, heq]
  exact hreachable

end ToolCallTree

end XxAgent.Client
