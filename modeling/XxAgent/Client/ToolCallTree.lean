import XxAgent.Ecma.JsonText
import XxAgent.Ecma.OrderedMap
import XxAgent.Graph.Traversal

/-!
# Tool call trees

Child calls arrive as events that name their parent. The edges are indexed by the parent, and the
calls of a conversation are projected with their children attached, recursively. Objects and arrays
are compared by reference, so they live in a heap; what is there is never changed.
-/

namespace XxAgent.Client

open Ecma

abbrev CallId := JsString

/-- `MAX_TOOL_CALL_TREE_DEPTH` -/
def maxToolCallTreeDepth : ℕ := 256

/-! ## Objects -/

/-- An object or an array, by its identity. -/
abbrev Ref := ℕ

/-- In-flight tool card material. -/
structure RunningCall where
  name : JsString
  argsRaw : JsString
  turn : ℕ
  step : ℕ
  time : ℤ
  callView : Option Json

/-- A call with its result. -/
structure SettledCall where
  seq : ℕ
  time : ℤ
  /-- Name and arguments. -/
  call : Option (JsString × JsString)
  callTime : Option ℤ
  content : Json
  isError : Bool
  error : Option (JsString × JsString) := none
  details : Option Json := none
  callView : Option Json
  resultView : Option Json

inductive CallData where
  | running (call : RunningCall)
  | settled (node : SettledCall)

def CallData.time : CallData → ℤ
  | .running call => call.time
  | .settled node => node.time

/-- `RunningToolCall | ToolResultNode` -/
structure ToolCallBlock where
  callId : CallId
  data : CallData
  /-- An array of blocks. -/
  subCalls : Ref

inductive HeapObject where
  | block (block : ToolCallBlock)
  /-- A conversation node of another kind. -/
  | node

structure Heap where
  objects : List HeapObject
  arrays : List (List Ref)

namespace Heap

def block? (heap : Heap) (ref : Ref) : Option ToolCallBlock :=
  match heap.objects[ref]? with
  | some (.block block) => some block
  | _ => none

def elements? (heap : Heap) (array : Ref) : Option (List Ref) := heap.arrays[array]?

/-- The object that is created next. -/
def newObject (heap : Heap) (object : HeapObject) : Ref × Heap :=
  (heap.objects.length, { heap with objects := heap.objects ++ [object] })

/-- The array that is created next. -/
def newArray (heap : Heap) (elements : List Ref) : Ref × Heap :=
  (heap.arrays.length, { heap with arrays := heap.arrays ++ [elements] })

end Heap

/-! ## The tree -/

structure ProjectedBlock where
  source : Ref
  children : Ref
  value : Ref

/-- `nodesCache`, `runningCache` -/
structure ProjectedList where
  source : Ref
  revision : ℕ
  value : Ref

structure ToolCallTree where
  heap : Heap
  childrenByParent : OrderedMap CallId Ref
  depthByCall : OrderedMap CallId ℕ
  projectedByCall : OrderedMap CallId ProjectedBlock
  revision : ℕ
  nodesCache : Option ProjectedList
  runningCache : Option ProjectedList

/-- The events that a tree is told of. -/
inductive ToolEvent where
  /-- `tool/code-dispatch-start` -/
  | dispatchStart (time : ℤ) (parentCallId subCallId : CallId) (name : JsString) (arguments : Json)
  /-- `tool/code-dispatch` -/
  | dispatch (seq : ℕ) (time : ℤ) (parentCallId subCallId : CallId) (name : JsString)
      (arguments : Json) (content : Json) (isError : Bool)
  | other

namespace ToolCallTree

/-- Nothing exists yet. -/
def empty : ToolCallTree where
  heap := ⟨[], []⟩
  childrenByParent := OrderedMap.empty
  depthByCall := OrderedMap.empty
  projectedByCall := OrderedMap.empty
  revision := 0
  nodesCache := none
  runningCache := none

/-- `this.childrenByParent.get(callId) ?? []` -/
def siblings (tree : ToolCallTree) (callId : CallId) : List Ref :=
  ((tree.childrenByParent.get? callId).bind tree.heap.elements?).getD []

/-- The ids of the children of a call. -/
def childIds (tree : ToolCallTree) (callId : CallId) : List CallId :=
  (tree.siblings callId).filterMap fun ref ↦ (tree.heap.block? ref).map ToolCallBlock.callId

/-- Every id that is a child, as often as it is. -/
def allChildIds (tree : ToolCallTree) : List CallId :=
  tree.childrenByParent.entries.flatMap fun entry ↦ tree.childIds entry.1

/-- `this.depthByCall.get(callId) ?? 1` -/
def depthOf (tree : ToolCallTree) (callId : CallId) : ℕ := (tree.depthByCall.get? callId).getD 1

/-- Forget all event-derived child calls. -/
def reset (tree : ToolCallTree) : ToolCallTree :=
  { tree with
    childrenByParent := OrderedMap.empty
    depthByCall := OrderedMap.empty
    projectedByCall := OrderedMap.empty
    revision := tree.revision + 1 }

/-! ## Edges -/

/-- The children of one call: those not visited are pushed, and the parent ends the search. -/
def visitChildren (parentCallId : CallId) (visited : List CallId) :
    List CallId → Except Unit (List CallId × List CallId)
  | [] => .ok (visited, [])
  | child :: children =>
    if child = parentCallId then .error ()
    else if visited.contains child then visitChildren parentCallId visited children
    else (visitChildren parentCallId (visited ++ [child]) children).map
      fun (visited, pushed) ↦ (visited, child :: pushed)

/-- As many items as the search for a cycle can have. -/
def cycleFuel (tree : ToolCallTree) : ℕ := tree.allChildIds.length + 1

/-- The parent is reached from the child. -/
def wouldCreateCycle (tree : ToolCallTree) (parentCallId subCallId : CallId) : Option Bool :=
  if parentCallId = subCallId then some true
  else
    (Worklist.run
        (fun visited callId ↦ visitChildren parentCallId visited (tree.childIds callId))
        tree.cycleFuel [subCallId] [subCallId]).map
      fun
        | .ok _ => false
        | .error _ => true

/-- One candidate: a greater depth is recorded and passed on, too great a depth ends it all. -/
def deepen (tree : ToolCallTree) (updates : OrderedMap CallId ℕ) (candidate : CallId × ℕ) :
    Except Unit (OrderedMap CallId ℕ × List (CallId × ℕ)) :=
  if candidate.2 ≤ (updates.get? candidate.1).getD (tree.depthOf candidate.1) then .ok (updates, [])
  else if maxToolCallTreeDepth < candidate.2 then .error ()
  else .ok (updates.set candidate.1 candidate.2,
    (tree.childIds candidate.1).map fun child ↦ (child, candidate.2 + 1))

/-- As many candidates as depths can be recorded and passed on to children. -/
def depthFuel (tree : ToolCallTree) : ℕ :=
  (tree.allChildIds.length + 1) * maxToolCallTreeDepth * tree.allChildIds.length + 1

/-- Accept an edge only when every recursive consumer can traverse it safely. -/
def acceptEdge (tree : ToolCallTree) (parentCallId subCallId : CallId) :
    Option (Bool × ToolCallTree) :=
  (tree.wouldCreateCycle parentCallId subCallId).bind fun cycle ↦
    if cycle then some (false, tree)
    else
      (Worklist.run tree.deepen tree.depthFuel OrderedMap.empty
          [(subCallId, tree.depthOf parentCallId + 1)]).map
        fun
          | .error _ => (false, tree)
          | .ok updates => (true,
            { tree with
              depthByCall := updates.entries.foldl (fun depths entry ↦ depths.set entry.1 entry.2)
                tree.depthByCall })

/-! ## Events -/

/-- A child block, with an array of its own for what would be its children. -/
def newChild (heap : Heap) (callId : CallId) (data : CallData) : Ref × Heap :=
  let (subCalls, heap) := heap.newArray []
  heap.newObject (.block ⟨callId, data, subCalls⟩)

/-- `this.childrenByParent.set(parentCallId, siblings); this.revision++` -/
def setSiblings (tree : ToolCallTree) (parentCallId : CallId) (siblings : List Ref) :
    ToolCallTree :=
  let (array, heap) := tree.heap.newArray siblings
  { tree with
    heap
    childrenByParent := tree.childrenByParent.set parentCallId array
    revision := tree.revision + 1 }

/-- Fold one event; whether it belongs to the life of a child call. -/
def apply (tree : ToolCallTree) : ToolEvent → Option (Bool × ToolCallTree)
  | .dispatchStart time parentCallId subCallId name arguments =>
    let running : CallData := .running ⟨name, stringify arguments, 0, 0, time, none⟩
    let (child, heap) := newChild tree.heap subCallId running
    let siblings := tree.siblings parentCallId
    (acceptEdge { tree with heap } parentCallId subCallId).map fun (accepted, tree) ↦
      (true, if accepted then tree.setSiblings parentCallId (siblings ++ [child]) else tree)
  | .dispatch seq time parentCallId subCallId name arguments content isError =>
    let siblings := tree.siblings parentCallId
    let place := siblings.findIdx? fun ref ↦
      (tree.heap.block? ref).any fun sub ↦ sub.callId = subCallId
    let started := (place.bind fun index ↦ siblings[index]?).bind tree.heap.block?
    let settled : CallData := .settled
      { seq, time, call := some (name, stringify arguments),
        callTime := started.map fun sub ↦ sub.data.time, content, isError, callView := none,
        resultView := none }
    match place with
    | none =>
      (tree.acceptEdge parentCallId subCallId).map fun (accepted, tree) ↦
        (true,
          if accepted then
            let (child, heap) := newChild tree.heap subCallId settled
            { tree with heap }.setSiblings parentCallId (siblings ++ [child])
          else tree)
    | some index =>
      let (child, heap) := newChild tree.heap subCallId settled
      some (true, { tree with heap }.setSiblings parentCallId (siblings.set index child))
  | .other => some (false, tree)

/-! ## Projections -/

/-- `refs.map(project)`, from the left. -/
def mapRefs (project : ToolCallTree → Ref → Option (Ref × ToolCallTree)) :
    ToolCallTree → List Ref → Option (List Ref × ToolCallTree)
  | tree, [] => some ([], tree)
  | tree, ref :: refs =>
    (project tree ref).bind fun (value, tree) ↦
      (mapRefs project tree refs).map fun (values, tree) ↦ (value :: values, tree)

/-- `this.childrenByParent.get(block.callId) ?? block.subCalls` -/
def childrenOf (tree : ToolCallTree) (block : ToolCallBlock) : Ref :=
  (tree.childrenByParent.get? block.callId).getD block.subCalls

/-- `refs.map(project)` as an array, or the array that it was if nothing is another. -/
def mapArray (project : ToolCallTree → Ref → Option (Ref × ToolCallTree)) (tree : ToolCallTree)
    (source : Ref) : Option (Ref × ToolCallTree) :=
  (tree.heap.elements? source).bind fun elements ↦
    (mapRefs project tree elements).map fun (projected, tree) ↦
      let (array, heap) := tree.heap.newArray projected
      (if elements = projected then source else array, { tree with heap })

/-- `sameReferences(left, right)` -/
def sameReferences (heap : Heap) (left right : Ref) : Bool :=
  heap.elements? left = heap.elements? right

/-- The block with these children, which is the block itself if it has them. -/
def withChildren (tree : ToolCallTree) (ref : Ref) (block : ToolCallBlock) (children : Ref) :
    Ref × ToolCallTree :=
  let (value, heap) :=
    if block.subCalls = children then (ref, tree.heap)
    else tree.heap.newObject (.block { block with subCalls := children })
  (value,
    { tree with
      heap
      projectedByCall := tree.projectedByCall.set block.callId ⟨ref, children, value⟩ })

/-- Attach recursively projected children, so many levels of them at most. -/
def projectBlock : ℕ → ToolCallTree → Ref → Option (Ref × ToolCallTree)
  | 0, _, _ => none
  | depth + 1, tree, ref =>
    (tree.heap.block? ref).bind fun block ↦
      (mapArray (projectBlock depth) tree (tree.childrenOf block)).map fun (children, tree) ↦
        match tree.projectedByCall.get? block.callId with
        | some cached =>
          if cached.source = ref ∧ sameReferences tree.heap cached.children children then
            (cached.value, tree)
          else tree.withChildren ref block children
        | none => tree.withChildren ref block children

/-- A settled root is projected, another node is itself. -/
def projectNode (tree : ToolCallTree) (ref : Ref) : Option (Ref × ToolCallTree) :=
  match (tree.heap.block? ref).map ToolCallBlock.data with
  | some (.settled _) => projectBlock maxToolCallTreeDepth tree ref
  | _ => some (ref, tree)

/-- Attach children to all settled roots in a node list. -/
def projectNodes (tree : ToolCallTree) (nodes : Ref) : Option (Ref × ToolCallTree) :=
  let anew := (mapArray projectNode tree nodes).map fun (value, after) ↦
    (value, { after with nodesCache := some ⟨nodes, after.revision, value⟩ })
  match tree.nodesCache with
  | some cached =>
    if cached.source = nodes ∧ cached.revision = tree.revision then some (cached.value, tree)
    else anew
  | none => anew

/-- Attach children to all running root calls. -/
def projectRunningCalls (tree : ToolCallTree) (calls : Ref) : Option (Ref × ToolCallTree) :=
  let anew := (mapArray (projectBlock maxToolCallTreeDepth) tree calls).map fun (value, after) ↦
    (value, { after with runningCache := some ⟨calls, after.revision, value⟩ })
  match tree.runningCache with
  | some cached =>
    if cached.source = calls ∧ cached.revision = tree.revision then some (cached.value, tree)
    else anew
  | none => anew

end ToolCallTree

/-!
## Accepted edges

The recorded depths are those of the longest chains. An edge is refused exactly if it would close a
cycle or make a chain too long, and a refusal leaves the depths as they are.
-/

open LongestPath Relation

namespace ToolCallTree

variable {tree : ToolCallTree} {parentCallId subCallId : CallId}

/-- An accepted edge. -/
def Edge (tree : ToolCallTree) (a b : CallId) : Prop := b ∈ tree.childIds a

theorem mem_allChildIds {a b : CallId} (h : tree.Edge a b) : b ∈ tree.allChildIds := by
  have hparent : tree.childrenByParent.get? a ≠ none := by
    intro hnone
    have hnil : tree.childIds a = [] := by rw [childIds, siblings, hnone]; rfl
    rw [Edge, hnil] at h
    cases h
  obtain ⟨array, harray⟩ := Option.ne_none_iff_exists'.mp hparent
  exact List.mem_flatMap.mpr ⟨(a, array), OrderedMap.mem_of_get? harray, h⟩

theorem length_childIds_le (a : CallId) :
    (tree.childIds a).length ≤ tree.allChildIds.length := by
  cases harray : tree.childrenByParent.get? a with
  | none =>
    have hnil : tree.childIds a = [] := by rw [childIds, siblings, harray]; rfl
    rw [hnil]
    exact Nat.zero_le _
  | some array =>
    have hmem := @List.mem_map_of_mem _ _ _ _ (fun entry ↦ tree.childIds entry.1)
      (OrderedMap.mem_of_get? harray)
    rw [allChildIds, List.flatMap_def]
    exact (List.sublist_flatten_of_mem hmem).length_le

/-! ## Cycles -/

/-- What is pushed was not visited, and is now. -/
theorem visitChildren_eq_ok {visited children visited' pushed : List CallId}
    (h : visitChildren parentCallId visited children = .ok (visited', pushed)) :
    visited' = visited ++ pushed ∧ pushed.Nodup ∧ (∀ x ∈ pushed, x ∈ children ∧ x ∉ visited) ∧
      ∀ x ∈ children, x ≠ parentCallId ∧ x ∈ visited' := by
  induction children generalizing visited visited' pushed with
  | nil =>
    obtain ⟨rfl, rfl⟩ := Prod.mk.inj (Except.ok.inj h)
    simp
  | cons child children ih =>
    rw [visitChildren] at h
    split_ifs at h with hparent hvisited
    · obtain ⟨rfl, hnodup, hpushed, hall⟩ := ih h
      refine ⟨rfl, hnodup, fun x hx ↦ ?_, fun x hx ↦ ?_⟩
      · exact (hpushed x hx).imp_left (List.mem_cons_of_mem _)
      · rcases List.mem_cons.mp hx with rfl | hx
        · exact ⟨hparent, List.mem_append_left _ (List.contains_iff_mem.mp hvisited)⟩
        · exact hall x hx
    · cases hrest : visitChildren parentCallId (visited ++ [child]) children with
      | error e =>
        rw [hrest] at h
        cases h
      | ok next =>
        obtain ⟨visited'', pushed'⟩ := next
        rw [hrest] at h
        obtain ⟨rfl, rfl⟩ := Prod.mk.inj (Except.ok.inj h)
        obtain ⟨rfl, hnodup, hpushed, hall⟩ := ih hrest
        rw [List.contains_iff_mem] at hvisited
        refine ⟨by simp, ?_, fun x hx ↦ ?_, fun x hx ↦ ?_⟩
        · refine List.nodup_cons.mpr ⟨fun hin ↦ ?_, hnodup⟩
          exact (hpushed child hin).2 (by simp)
        · rcases List.mem_cons.mp hx with rfl | hx
          · exact ⟨List.mem_cons_self, hvisited⟩
          · obtain ⟨hmem, hnot⟩ := hpushed x hx
            exact ⟨List.mem_cons_of_mem _ hmem, fun hin ↦ hnot (List.mem_append_left _ hin)⟩
        · rcases List.mem_cons.mp hx with rfl | hx
          · exact ⟨hparent, by simp⟩
          · exact hall x hx

/-- The search stops at the parent only. -/
theorem visitChildren_eq_error {visited children : List CallId} {e : Unit}
    (h : visitChildren parentCallId visited children = .error e) : parentCallId ∈ children := by
  induction children generalizing visited with
  | nil => cases h
  | cons child children ih =>
    rw [visitChildren] at h
    split_ifs at h with hparent hvisited
    · exact hparent ▸ List.mem_cons_self
    · exact List.mem_cons_of_mem _ (ih h)
    · cases hrest : visitChildren parentCallId (visited ++ [child]) children with
      | error e => exact List.mem_cons_of_mem _ (ih hrest)
      | ok next =>
        rw [hrest] at h
        cases h

/-- The search for a parent: what is visited is reached, and is worked off or still to do. -/
structure Searching (tree : ToolCallTree) (parentCallId subCallId : CallId)
    (visited pending : List CallId) : Prop where
  reached : ∀ x ∈ visited, ReflTransGen tree.Edge subCallId x
  queued : ∀ x ∈ pending, x ∈ visited
  sub : subCallId ∈ visited
  parent : parentCallId ∉ visited
  closed : ∀ x ∈ visited, x ∈ pending ∨ ∀ y ∈ tree.childIds x, y ∈ visited

/-- **A cycle is found exactly if there is one.** -/
theorem wouldCreateCycle_spec (tree : ToolCallTree) (parentCallId subCallId : CallId) :
    ∃ cycle, tree.wouldCreateCycle parentCallId subCallId = some cycle ∧
      (cycle = true ↔ ReflTransGen tree.Edge subCallId parentCallId) := by
  rw [wouldCreateCycle]
  split_ifs with hself
  · exact ⟨true, rfl, by simp [hself, ReflTransGen.refl]⟩
  have houtcome := @Worklist.outcome_run (List CallId) CallId Unit
    (fun visited callId ↦ visitChildren parentCallId visited (tree.childIds callId))
    (tree.Searching parentCallId subCallId)
    (fun visited ↦ (tree.allChildIds.filter fun x ↦ x ∉ visited).length)
    (fun _ ↦ ReflTransGen tree.Edge subCallId parentCallId) ?_ ?_ tree.cycleFuel [subCallId]
    [subCallId] ?_ ?_
  · cases hrun : Worklist.run
        (fun visited callId ↦ visitChildren parentCallId visited (tree.childIds callId))
        tree.cycleFuel [subCallId] [subCallId] with
    | none =>
      rw [hrun] at houtcome
      cases houtcome
    | some result =>
      rw [hrun] at houtcome
      cases houtcome with
      | stopped hreach => exact ⟨true, rfl, by simp [hreach]⟩
      | @done visited hdone =>
        refine ⟨false, rfl, ?_⟩
        -- What is visited is closed under edges, and the parent is not among it.
        have hclosed : ∀ x, ReflTransGen tree.Edge subCallId x → x ∈ visited := by
          intro x hreach
          induction hreach with
          | refl => exact hdone.sub
          | tail _ hedge ih => exact (hdone.closed _ ih).resolve_left (by simp) _ hedge
        simp only [Bool.false_eq_true, false_iff]
        exact fun hreach ↦ hdone.parent (hclosed _ hreach)
  · intro visited callId rest visited' pushed hinv hstep
    obtain ⟨rfl, hnodup, hpushed, hall⟩ := visitChildren_eq_ok hstep
    have hfront := hinv.reached callId (hinv.queued callId List.mem_cons_self)
    refine ⟨⟨fun x hx ↦ ?_, fun x hx ↦ ?_, List.mem_append_left _ hinv.sub, ?_, ?_⟩, ?_⟩
    · rcases List.mem_append.mp hx with hx | hx
      · exact hinv.reached x hx
      · exact hfront.tail (hpushed x hx).1
    · rcases List.mem_append.mp hx with hx | hx
      · exact List.mem_append_left _ (hinv.queued x (List.mem_cons_of_mem _ hx))
      · exact List.mem_append_right _ hx
    · rw [List.mem_append, not_or]
      exact ⟨hinv.parent, fun hin ↦ (hall _ (hpushed _ hin).1).1 rfl⟩
    · intro x hx
      rcases List.mem_append.mp hx with hx | hx
      · rcases hinv.closed x hx with hpending | hdone
        · rcases List.mem_cons.mp hpending with rfl | hpending
          · exact .inr fun y hy ↦ (hall y hy).2
          · exact .inl (List.mem_append_left _ hpending)
        · exact .inr fun y hy ↦ List.mem_append_left _ (hdone y hy)
      · exact .inl (List.mem_append_right _ hx)
    · -- What is pushed is no longer to be visited.
      have hsubset : pushed ⊆ (tree.allChildIds.filter fun x ↦ x ∉ visited).filter
          fun x ↦ x ∈ pushed := by
        intro x hx
        obtain ⟨hchild, hnot⟩ := hpushed x hx
        simp [hx, hnot, mem_allChildIds hchild]
      have hfewer : (tree.allChildIds.filter fun x ↦ x ∉ visited ++ pushed) =
          (tree.allChildIds.filter fun x ↦ x ∉ visited).filter fun x ↦ ¬ x ∈ pushed := by
        rw [List.filter_filter]
        congr 1
        funext x
        simp [Bool.and_comm]
      have hsplit := List.length_eq_length_filter_add
        (l := tree.allChildIds.filter fun x ↦ x ∉ visited) fun x ↦ x ∈ pushed
      have hle := (List.subperm_of_subset hnodup hsubset).length_le
      rw [hfewer]
      simp only [decide_not] at hsplit hle ⊢
      omega
  · intro visited callId rest e hinv hstep
    exact (hinv.reached callId (hinv.queued callId List.mem_cons_self)).tail
      (visitChildren_eq_error hstep)
  · refine ⟨fun x hx ↦ ?_, fun x hx ↦ hx, List.mem_singleton_self _, ?_, fun x hx ↦ .inl hx⟩
    · rw [List.mem_singleton.mp hx]
    · simpa using hself
  · rw [cycleFuel]
    exact Nat.add_le_add_right (List.length_filter_le _ _) 1

/-! ## Depths -/

/-- The edges with one more. -/
def AddEdge (E : CallId → CallId → Prop) (a b : CallId) : CallId → CallId → Prop :=
  fun x y ↦ E x y ∨ x = a ∧ y = b

/-- The depth of a call with what is to be updated. -/
def depthWith (tree : ToolCallTree) (updates : OrderedMap CallId ℕ) (x : CallId) : ℕ :=
  (updates.get? x).getD (tree.depthOf x)

theorem depthWith_set (updates : OrderedMap CallId ℕ) (x y : CallId) (depth : ℕ) :
    tree.depthWith (updates.set x depth) y = if y = x then depth else tree.depthWith updates y := by
  rw [depthWith, OrderedMap.get?_set]
  split_ifs <;> rfl

/-- A depth that a path through the new edge accounts for. -/
def Accounted (tree : ToolCallTree) (parentCallId subCallId x : CallId) (depth : ℕ) : Prop :=
  ReflTransGen tree.Edge subCallId x ∧
    ∃ n a, Path (AddEdge tree.Edge parentCallId subCallId) n a x ∧ depth = n + 1

/-- The recorded depths are right, and bounded. -/
structure Deep (tree : ToolCallTree) : Prop where
  depth : IsDepth tree.Edge tree.depthOf
  bound : ∀ x, tree.depthOf x ≤ maxToolCallTreeDepth

/-- Depths on their way: each edge is satisfied, or waits for its candidate. -/
structure Deepening (tree : ToolCallTree) (parentCallId subCallId : CallId)
    (updates : OrderedMap CallId ℕ) (pending : List (CallId × ℕ)) : Prop where
  queued : ∀ candidate ∈ pending,
    tree.Accounted parentCallId subCallId candidate.1 candidate.2
  updated : ∀ x depth, updates.get? x = some depth →
    tree.Accounted parentCallId subCallId x depth ∧ depth ≤ maxToolCallTreeDepth
  edges : ∀ x y, tree.Edge x y →
    tree.depthWith updates x < tree.depthWith updates y ∨
      (y, tree.depthWith updates x + 1) ∈ pending
  edge : tree.depthOf parentCallId < tree.depthWith updates subCallId ∨
    (subCallId, tree.depthOf parentCallId + 1) ∈ pending

theorem Accounted.child {x y : CallId} {depth : ℕ}
    (h : tree.Accounted parentCallId subCallId x depth) (hedge : tree.Edge x y) :
    tree.Accounted parentCallId subCallId y (depth + 1) := by
  obtain ⟨hreach, n, a, hpath, rfl⟩ := h
  exact ⟨hreach.tail hedge, n + 1, a, hpath.snoc (.inl hedge), rfl⟩

namespace Deepening

variable {updates : OrderedMap CallId ℕ} {candidate : CallId × ℕ} {rest : List (CallId × ℕ)}

/-- A candidate that is no deeper is dropped. -/
theorem drop (h : tree.Deepening parentCallId subCallId updates (candidate :: rest))
    (hle : candidate.2 ≤ tree.depthWith updates candidate.1) :
    tree.Deepening parentCallId subCallId updates rest where
  queued c hc := h.queued c (List.mem_cons_of_mem _ hc)
  updated := h.updated
  edges x y hedge := by
    rcases h.edges x y hedge with hlt | hmem
    · exact .inl hlt
    · rcases List.mem_cons.mp hmem with rfl | hmem
      · exact .inl hle
      · exact .inr hmem
  edge := by
    rcases h.edge with hlt | hmem
    · exact .inl hlt
    · rcases List.mem_cons.mp hmem with rfl | hmem
      · exact .inl hle
      · exact .inr hmem

/-- A candidate that is deeper is recorded, and its children become candidates. -/
theorem record (h : tree.Deepening parentCallId subCallId updates (candidate :: rest))
    (hlt : tree.depthWith updates candidate.1 < candidate.2)
    (hbound : candidate.2 ≤ maxToolCallTreeDepth) :
    tree.Deepening parentCallId subCallId (updates.set candidate.1 candidate.2)
      (rest ++ (tree.childIds candidate.1).map fun child ↦ (child, candidate.2 + 1)) := by
  have hfront := h.queued candidate List.mem_cons_self
  have hle (x : CallId) :
      tree.depthWith updates x ≤ tree.depthWith (updates.set candidate.1 candidate.2) x := by
    rw [depthWith_set]
    split_ifs with hx
    · exact hx ▸ hlt.le
    · exact le_rfl
  have hset : tree.depthWith (updates.set candidate.1 candidate.2) candidate.1 = candidate.2 := by
    rw [depthWith_set, if_pos rfl]
  -- What waited for this candidate is satisfied by it.
  have hwaits {y : CallId} {d : ℕ}
      (h : d < tree.depthWith updates y ∨ (y, d + 1) ∈ candidate :: rest) :
      d < tree.depthWith (updates.set candidate.1 candidate.2) y ∨
        (y, d + 1) ∈ rest ++ (tree.childIds candidate.1).map
          fun child ↦ (child, candidate.2 + 1) := by
    rcases h with hlt | hmem
    · exact .inl (hlt.trans_le (hle y))
    · rcases List.mem_cons.mp hmem with rfl | hmem
      · exact .inl (hset.symm ▸ Nat.lt_succ_self d)
      · exact .inr (List.mem_append_left _ hmem)
  refine ⟨fun c hc ↦ ?_, fun x depth hget ↦ ?_, fun x y hedge ↦ ?_, hwaits h.edge⟩
  · rcases List.mem_append.mp hc with hc | hc
    · exact h.queued c (List.mem_cons_of_mem _ hc)
    · obtain ⟨child, hchild, rfl⟩ := List.mem_map.mp hc
      exact hfront.child hchild
  · rw [OrderedMap.get?_set] at hget
    split_ifs at hget with hx
    · obtain rfl := Option.some.inj hget
      exact ⟨hx ▸ hfront, hbound⟩
    · exact h.updated x depth hget
  · by_cases hx : x = candidate.1
    · subst hx
      rw [hset]
      exact .inr (List.mem_append_right _ (List.mem_map_of_mem hedge))
    · have hsame : tree.depthWith (updates.set candidate.1 candidate.2) x =
          tree.depthWith updates x := by rw [depthWith_set, if_neg hx]
      rw [hsame]
      exact hwaits (h.edges x y hedge)

/-- When nothing is left, the depths are those with the new edge. -/
theorem isDepth (hdeep : tree.Deep) (hacyclic : ¬ ReflTransGen tree.Edge subCallId parentCallId)
    (h : tree.Deepening parentCallId subCallId updates []) :
    IsDepth (AddEdge tree.Edge parentCallId subCallId) (tree.depthWith updates) where
  lt x y hedge := by
    rcases hedge with hedge | ⟨rfl, rfl⟩
    · exact (h.edges x y hedge).resolve_right (by simp)
    · -- The parent is not reached from the child, so its depth is what it was.
      have hnone : updates.get? x = none := by
        by_contra hsome
        obtain ⟨depth, hget⟩ := Option.ne_none_iff_exists'.mp hsome
        exact hacyclic (h.updated x depth hget).1.1
      have hold : tree.depthWith updates x = tree.depthOf x := by rw [depthWith, hnone]; rfl
      rw [hold]
      exact h.edge.resolve_right (by simp)
  attained x := by
    cases hget : updates.get? x with
    | some depth =>
      obtain ⟨-, n, a, hpath, heq⟩ := (h.updated x depth hget).1
      exact ⟨n, a, hpath, by rw [depthWith, hget]; exact heq⟩
    | none =>
      obtain ⟨n, a, hpath, heq⟩ := hdeep.depth.attained x
      exact ⟨n, a, hpath.mono fun _ _ ↦ .inl, by rw [depthWith, hget]; exact heq⟩

end Deepening

/-- What is still to come of the depths: how far each call is from the bound. -/
def slack (tree : ToolCallTree) (subCallId : CallId) (updates : OrderedMap CallId ℕ) : ℕ :=
  ((subCallId :: tree.allChildIds).map fun x ↦
    maxToolCallTreeDepth - tree.depthWith updates x).sum

theorem slack_set {updates : OrderedMap CallId ℕ} {x : CallId} {depth : ℕ}
    (hmem : x ∈ subCallId :: tree.allChildIds) (hlt : tree.depthWith updates x < depth)
    (hbound : depth ≤ maxToolCallTreeDepth) :
    tree.slack subCallId (updates.set x depth) < tree.slack subCallId updates := by
  refine List.sum_lt_sum _ _ (fun y _ ↦ ?_) ⟨x, hmem, ?_⟩
  · rw [depthWith_set]
    split_ifs with hy
    · subst hy
      omega
    · exact le_rfl
  · rw [depthWith_set, if_pos rfl]
    omega

theorem slack_le (tree : ToolCallTree) (subCallId : CallId) (updates : OrderedMap CallId ℕ) :
    tree.slack subCallId updates ≤ (tree.allChildIds.length + 1) * maxToolCallTreeDepth := by
  have h := List.sum_le_card_nsmul ((subCallId :: tree.allChildIds).map fun x ↦
    maxToolCallTreeDepth - tree.depthWith updates x) maxToolCallTreeDepth (by
      intro n hn
      obtain ⟨x, -, rfl⟩ := List.mem_map.mp hn
      exact Nat.sub_le _ _)
  simpa [slack] using h

theorem mem_of_reach {x : CallId} (h : ReflTransGen tree.Edge subCallId x) :
    x ∈ subCallId :: tree.allChildIds := by
  cases h with
  | refl => exact List.mem_cons_self
  | tail _ hedge => exact List.mem_cons_of_mem _ (mem_allChildIds hedge)

/-- **The depths are worked off**: they are those with the new edge, or a chain is too long. -/
theorem outcome_deepen (hdeep : tree.Deep) :
    Worklist.Outcome (fun updates ↦ tree.Deepening parentCallId subCallId updates [])
      (fun _ ↦ ∃ n a b, Path (AddEdge tree.Edge parentCallId subCallId) n a b ∧
        maxToolCallTreeDepth ≤ n)
      (Worklist.run tree.deepen tree.depthFuel OrderedMap.empty
        [(subCallId, tree.depthOf parentCallId + 1)]) := by
  refine @Worklist.outcome_run _ _ _ tree.deepen (tree.Deepening parentCallId subCallId)
    (fun updates ↦ tree.slack subCallId updates * tree.allChildIds.length) _ ?_ ?_ _ _ _ ?_ ?_
  · intro updates candidate rest updates' pushed hinv hstep
    rw [deepen] at hstep
    split_ifs at hstep with hle hdeeper
    · obtain ⟨rfl, rfl⟩ := Prod.mk.inj (Except.ok.inj hstep)
      rw [List.append_nil]
      exact ⟨hinv.drop hle, le_rfl⟩
    · obtain ⟨rfl, rfl⟩ := Prod.mk.inj (Except.ok.inj hstep)
      have hlt : tree.depthWith updates candidate.1 < candidate.2 := not_le.mp hle
      refine ⟨hinv.record hlt (not_lt.mp hdeeper), ?_⟩
      have hmem := mem_of_reach (hinv.queued candidate List.mem_cons_self).1
      have hslack := slack_set hmem hlt (not_lt.mp hdeeper)
      have hchildren := @length_childIds_le tree candidate.1
      rw [List.length_map]
      calc tree.slack subCallId (updates.set candidate.1 candidate.2) * tree.allChildIds.length
            + (tree.childIds candidate.1).length
          ≤ (tree.slack subCallId (updates.set candidate.1 candidate.2) + 1)
              * tree.allChildIds.length := by rw [Nat.add_mul, Nat.one_mul]; omega
        _ ≤ tree.slack subCallId updates * tree.allChildIds.length :=
          Nat.mul_le_mul_right _ hslack
  · intro updates candidate rest e hinv hstep
    rw [deepen] at hstep
    split_ifs at hstep with hle hdeeper
    obtain ⟨-, n, a, hpath, heq⟩ := hinv.queued candidate List.mem_cons_self
    exact ⟨n, a, candidate.1, hpath, by omega⟩
  · refine ⟨fun candidate hcandidate ↦ ?_, fun x depth hget ↦ ?_, fun x y hedge ↦ ?_, ?_⟩
    · obtain rfl := List.mem_singleton.mp hcandidate
      obtain ⟨n, a, hpath, heq⟩ := hdeep.depth.attained parentCallId
      refine ⟨.refl, n + 1, a, (hpath.mono fun _ _ ↦ .inl).snoc (.inr ⟨rfl, rfl⟩), ?_⟩
      rw [heq]
    · cases hget
    · exact .inl (hdeep.depth.lt x y hedge)
    · exact .inr (List.mem_singleton_self _)
  · have hle := Nat.mul_le_mul_right tree.allChildIds.length
      (tree.slack_le subCallId OrderedMap.empty)
    rw [depthFuel, List.length_singleton]
    omega

theorem get?_foldl_set (updates depths : OrderedMap CallId ℕ) (x : CallId) :
    (updates.entries.foldl (fun depths entry ↦ depths.set entry.1 entry.2) depths).get? x =
      (updates.get? x).or (depths.get? x) := by
  obtain ⟨entries, hnodup⟩ := updates
  simp only [OrderedMap.get?]
  induction entries generalizing depths with
  | nil => rfl
  | cons entry entries ih =>
    rw [List.map_cons, List.nodup_cons] at hnodup
    rw [List.foldl_cons, ih _ hnodup.2, ← OrderedMap.get?, OrderedMap.get?_set, List.find?_cons]
    by_cases hx : entry.1 = x
    · have hnone : (entries.find? fun p ↦ p.1 = x) = none := by
        rw [List.find?_eq_none]
        intro p hp heq
        rw [decide_eq_true_iff] at heq
        exact hnodup.1 (hx ▸ heq ▸ List.mem_map_of_mem hp)
      simp [hnone, hx]
    · have hx' : ¬ x = entry.1 := fun h ↦ hx h.symm
      simp [hx, hx', OrderedMap.get?]

/-- The edge would close a cycle, or make a chain too long. -/
def Unsafe (E : CallId → CallId → Prop) : Prop :=
  (∃ a, TransGen E a a) ∨ ∃ n a b, Path E n a b ∧ maxToolCallTreeDepth ≤ n

/-- Right and bounded depths leave no room for it. -/
theorem not_unsafe_of_isDepth {E : CallId → CallId → Prop} {depth : CallId → ℕ}
    (h : IsDepth E depth) (hbound : ∀ x, depth x ≤ maxToolCallTreeDepth) : ¬ Unsafe E := by
  rintro (⟨a, hcycle⟩ | ⟨n, a, b, hpath, hlong⟩)
  · exact h.acyclic a hcycle
  · have := h.length_lt hpath
    have := hbound b
    omega

/-- **An edge is decided**, and refused exactly if it is unsafe. -/
theorem acceptEdge_spec (hdeep : tree.Deep) (parentCallId subCallId : CallId) :
    ∃ accepted depths, tree.acceptEdge parentCallId subCallId =
        some (accepted, { tree with depthByCall := depths }) ∧
      (accepted = false ↔ Unsafe (AddEdge tree.Edge parentCallId subCallId)) ∧
      (accepted = false → depths = tree.depthByCall) ∧
      (accepted = true → IsDepth (AddEdge tree.Edge parentCallId subCallId)
          (fun x ↦ (depths.get? x).getD 1) ∧
        ∀ x, (depths.get? x).getD 1 ≤ maxToolCallTreeDepth) := by
  obtain ⟨cycle, hcycle, hiff⟩ := tree.wouldCreateCycle_spec parentCallId subCallId
  rw [acceptEdge, hcycle, Option.bind_some]
  cases cycle with
  | true =>
    rw [if_pos rfl]
    refine ⟨false, tree.depthByCall, rfl, ?_, fun _ ↦ rfl, by simp⟩
    refine ⟨fun _ ↦ .inl ⟨subCallId, ?_⟩, fun _ ↦ rfl⟩
    have hreach : ReflTransGen (AddEdge tree.Edge parentCallId subCallId) subCallId parentCallId :=
      ReflTransGen.mono (fun _ _ h ↦ Or.inl h) _ _ (hiff.mp rfl)
    exact TransGen.tail' hreach (.inr ⟨rfl, rfl⟩)
  | false =>
    rw [if_neg Bool.false_ne_true]
    have hacyclic : ¬ ReflTransGen tree.Edge subCallId parentCallId :=
      fun hreach ↦ absurd (hiff.mpr hreach) (by simp)
    have houtcome := @outcome_deepen tree parentCallId subCallId hdeep
    cases hrun : Worklist.run tree.deepen tree.depthFuel OrderedMap.empty
        [(subCallId, tree.depthOf parentCallId + 1)] with
    | none =>
      rw [hrun] at houtcome
      cases houtcome
    | some result =>
      rw [hrun] at houtcome
      cases houtcome with
      | stopped hlong =>
        exact ⟨false, tree.depthByCall, rfl, ⟨fun _ ↦ .inr hlong, fun _ ↦ rfl⟩, fun _ ↦ rfl,
          by simp⟩
      | @done updates hdone =>
        have hdepths (x : CallId) :
            ((updates.entries.foldl (fun depths entry ↦ depths.set entry.1 entry.2)
              tree.depthByCall).get? x).getD 1 = tree.depthWith updates x := by
          rw [get?_foldl_set, depthWith, depthOf]
          cases updates.get? x <;> rfl
        have hdepth := hdone.isDepth hdeep hacyclic
        have hbound (x : CallId) : tree.depthWith updates x ≤ maxToolCallTreeDepth := by
          rw [depthWith]
          cases hget : updates.get? x with
          | none => exact hdeep.bound x
          | some depth => exact (hdone.updated x depth hget).2
        refine ⟨true, _, rfl, ?_, by simp, fun _ ↦ ?_⟩
        · simpa using not_unsafe_of_isDepth hdepth hbound
        · simp only [hdepths]
          exact ⟨hdepth, hbound⟩

end ToolCallTree

end XxAgent.Client
