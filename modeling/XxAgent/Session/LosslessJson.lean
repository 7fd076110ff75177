import XxAgent.Ecma.Unfolding
import XxAgent.Session.DeepEqual

/-!
# The gate of lossless JSON

What a caller hands to the log is a graph of JavaScript objects. `isJsonValue` walks it and says
whether JSON would keep it; `snapshotJsonValue` walks it alike and copies what it sees. The walk
does not recurse: it keeps a stack of tasks, and the objects it is inside of in a set that a `leave`
task takes them out of again.

The heap is data, so a property is read without running code. A prototype is told to be an
intrinsic one by the function under its `constructor`; of that function the walk sees a name, a
`prototype` and a source text, and these are what the heap records.
-/

namespace XxAgent

open Ecma

/-! ## Heaps -/

/-- A number, as far as JSON tells them apart. -/
inductive JsNumber where
  | finite (x : Number)
  | negativeZero
  | infinity (negative : Bool)
  | nan

/-- A JavaScript value; an object is a reference into the heap. -/
inductive JsValue (Ref : Type) where
  | undefined
  | null
  | boolean (b : Bool)
  | string (s : JsString)
  | number (x : JsNumber)
  | bigint (n : ℤ)
  | symbol (id : ℕ)
  | object (ref : Ref)

/-- The key of a property. -/
inductive PropertyKey where
  | string (k : JsString)
  | symbol (id : ℕ)
deriving DecidableEq

/-- The key of an array element. -/
def PropertyKey.index (i : ℕ) : PropertyKey := .string (js (toString i))

/-- The name of a key that is a string. -/
def PropertyKey.string? : PropertyKey → Option JsString
  | .string k => some k
  | .symbol _ => none

/-- An own data property. -/
structure OwnProperty (Ref : Type) where
  key : PropertyKey
  enumerable : Bool
  value : JsValue Ref

/-- What `typeof` and `Array.isArray` say of an object. -/
inductive ObjectKind where
  | array
  | ordinary
  | function
deriving DecidableEq

/-- The function under the own property `constructor`, as the walk inspects it. -/
structure Constructor (Ref : Type) where
  name : JsString
  prototype : Option Ref
  /-- What `Function.prototype.toString` makes of it. -/
  source : JsString

/-- An object. The own property `length` of an array stands apart from the others. -/
structure HeapObject (Ref : Type) where
  kind : ObjectKind
  prototype : Option Ref
  /-- What is under `constructor`, where that is a function which can be read. -/
  constructor : Option (Constructor Ref)
  /-- The length of an array. -/
  length : ℕ
  /-- The own properties, in the order of `Reflect.ownKeys`. -/
  properties : List (OwnProperty Ref)
  ordered : OrderedKeys (properties.filterMap fun p ↦ p.key.string?)

/-- A heap. -/
abbrev Heap (Ref : Type) := Ref → HeapObject Ref

variable {Ref : Type} [DecidableEq Ref]

namespace HeapObject

/-- The value of an own property, if there is one. -/
def own (o : HeapObject Ref) (k : PropertyKey) : Option (JsValue Ref) :=
  (o.properties.find? fun p ↦ p.key = k).map OwnProperty.value

/-- `Reflect.ownKeys(o).length`. -/
def ownKeysLength (o : HeapObject Ref) : ℕ :=
  if o.kind = .array then o.properties.length + 1 else o.properties.length

end HeapObject

/-! ## Prototypes -/

/-- The source text of a native constructor. -/
def nativeText (name : String) : JsString :=
  js ("function " ++ name ++ "() \x7b [native code] \x7d")

def hasIntrinsicConstructor (heap : Heap Ref) (prototype : Ref) (name : String) : Bool :=
  match (heap prototype).constructor with
  | none => false
  | some constructor =>
    constructor.name = js name && constructor.prototype = some prototype &&
      constructor.source = nativeText name

def isIntrinsicObjectPrototype (heap : Heap Ref) (value : Ref) : Bool :=
  (heap value).prototype.isNone && hasIntrinsicConstructor heap value "Object"

def hasPlainArrayPrototype (heap : Heap Ref) (value : HeapObject Ref) : Bool :=
  match value.prototype with
  | none => false
  | some prototype =>
    if (heap prototype).kind = .array ∧ hasIntrinsicConstructor heap prototype "Array" then
      match (heap prototype).prototype with
      | none => false
      | some objectPrototype =>
        (heap objectPrototype).kind ≠ .function && isIntrinsicObjectPrototype heap objectPrototype
    else false

def hasPlainObjectPrototype (heap : Heap Ref) (value : HeapObject Ref) : Bool :=
  match value.prototype with
  | none => true
  | some prototype =>
    (heap prototype).kind ≠ .function && isIntrinsicObjectPrototype heap prototype

/-- The name under which JSON sees a property. -/
def OwnProperty.visibleName? (p : OwnProperty Ref) : Option JsString :=
  if p.enumerable then p.key.string? else none

/-- Every key that JSON sees, or nothing if it would drop one. -/
def enumerableStringKeys (value : HeapObject Ref) : Option (List JsString) :=
  value.properties.mapM OwnProperty.visibleName?

/-! ## Snapshots -/

/-- A value of the snapshot; a container is one of those that the walk made. -/
inductive SnapshotItem where
  | scalar (s : Scalar)
  | target (id : ℕ)

/-- A container that the walk makes. An array may have holes while it is filled. -/
inductive SnapshotTarget where
  | array (elements : List (Option SnapshotItem))
  | object (members : List (JsString × SnapshotItem))

/-- Where an item goes. -/
inductive SnapshotDestination where
  | root
  | array (target index : ℕ)
  | object (target : ℕ) (key : JsString)

/-- What the walk has made so far. -/
structure Snapshot where
  targets : List SnapshotTarget
  root : Option SnapshotItem

/-- `elements[index] = item`. -/
def setElement (index : ℕ) (item : SnapshotItem) (elements : List (Option SnapshotItem)) :
    List (Option SnapshotItem) :=
  (elements ++ List.replicate (index + 1 - elements.length) none).set index (some item)

/-- A property that is not there yet takes its place in the order of enumeration. -/
def insertMember (key : JsString) (item : SnapshotItem) :
    List (JsString × SnapshotItem) → List (JsString × SnapshotItem)
  | [] => [(key, item)]
  | p :: members =>
    if precedes p.1 key then p :: insertMember key item members else (key, item) :: p :: members

/-- `Object.defineProperty(target, key, …)`: an existing property keeps its place. -/
def defineProperty (key : JsString) (item : SnapshotItem)
    (members : List (JsString × SnapshotItem)) : List (JsString × SnapshotItem) :=
  if members.any fun p ↦ p.1 = key then members.map fun p ↦ if p.1 = key then (key, item) else p
  else insertMember key item members

def SnapshotTarget.setElement (index : ℕ) (item : SnapshotItem) : SnapshotTarget → SnapshotTarget
  | .array elements => .array (XxAgent.setElement index item elements)
  | .object members => .object members

def SnapshotTarget.defineProperty (key : JsString) (item : SnapshotItem) :
    SnapshotTarget → SnapshotTarget
  | .array elements => .array elements
  | .object members => .object (XxAgent.defineProperty key item members)

/-- `assign`. -/
def Snapshot.assign (snapshot : Snapshot) :
    Option SnapshotDestination → SnapshotItem → Snapshot
  | none, _ => snapshot
  | some .root, item => { snapshot with root := some item }
  | some (.array target index), item =>
    { snapshot with targets := snapshot.targets.modify target (·.setElement index item) }
  | some (.object target key), item =>
    { snapshot with targets := snapshot.targets.modify target (·.defineProperty key item) }

/-! ## The walk -/

inductive JsonWalkTask (Ref : Type) where
  | visit (value : JsValue Ref) (destination : Option SnapshotDestination)
  | arrayItem (source : Ref) (index : ℕ) (target : Option ℕ)
  | objectProperty (source : Ref) (key : JsString) (target : Option ℕ)
  | leave (source : Ref)

/-- What the loop of the walk keeps; the task that is popped next comes first. -/
structure JsonWalk (Ref : Type) where
  tasks : List (JsonWalkTask Ref)
  ancestors : Finset Ref
  snapshot : Snapshot

namespace JsonWalk

/-- Make a container for `source`, enter it, and leave it after what `items` asks for. -/
def enter (walk : JsonWalk Ref) (detach : Bool) (destination : Option SnapshotDestination)
    (source : Ref) (empty : SnapshotTarget) (items : Option ℕ → List (JsonWalkTask Ref)) :
    JsonWalk Ref :=
  let target := if detach then some walk.snapshot.targets.length else none
  let snapshot :=
    if detach then
      ({ walk.snapshot with targets := walk.snapshot.targets ++ [empty] } : Snapshot).assign
        destination (.target walk.snapshot.targets.length)
    else walk.snapshot
  { tasks := items target ++ .leave source :: walk.tasks
    ancestors := insert source walk.ancestors
    snapshot }

/-- A scalar goes where it was asked for. -/
def put (walk : JsonWalk Ref) (destination : Option SnapshotDestination) (s : Scalar) :
    JsonWalk Ref :=
  { walk with snapshot := walk.snapshot.assign destination (.scalar s) }

/-- Look at a value; nothing if JSON would not keep it. -/
def visit (heap : Heap Ref) (detach : Bool) (walk : JsonWalk Ref)
    (destination : Option SnapshotDestination) : JsValue Ref → Option (JsonWalk Ref)
  | .null => some (walk.put destination .null)
  | .boolean b => some (walk.put destination (.bool b))
  | .string s => some (walk.put destination (.str s))
  | .number (.finite x) => some (walk.put destination (.num x))
  | .number _ => none
  | .undefined | .bigint _ | .symbol _ => none
  | .object current =>
    let object := heap current
    if object.kind = .function then none
    else if current ∈ walk.ancestors then none
    else if object.kind = .array then
      if hasPlainArrayPrototype heap object then
        if object.ownKeysLength ≠ object.length + 1 then none
        else some (walk.enter detach destination current (.array []) fun target ↦
          (List.range object.length).map fun index ↦ .arrayItem current index target)
      else none
    else if hasPlainObjectPrototype heap object then
      match enumerableStringKeys object with
      | none => none
      | some keys => some (walk.enter detach destination current (.object []) fun target ↦
          keys.map fun key ↦ .objectProperty current key target)
    else none

/-- Do a task that was popped. -/
def perform (heap : Heap Ref) (detach : Bool) (walk : JsonWalk Ref) :
    JsonWalkTask Ref → Option (JsonWalk Ref)
  | .leave source => some { walk with ancestors := walk.ancestors.erase source }
  | .arrayItem source index target =>
    match (heap source).own (.index index) with
    | none => none
    | some value => some { walk with
        tasks := .visit value (target.map fun target ↦ .array target index) :: walk.tasks }
  | .objectProperty source key target => some { walk with
      tasks := .visit (((heap source).own (.string key)).getD .undefined)
        (target.map fun target ↦ .object target key) :: walk.tasks }
  | .visit value destination => walk.visit heap detach destination value

/-- The loop: nothing if the fuel runs out before the tasks do, `some none` where the value is
given up. -/
def run (heap : Heap Ref) (detach : Bool) : ℕ → JsonWalk Ref → Option (Option Snapshot)
  | 0, _ => none
  | fuel + 1, walk =>
    match walk.tasks with
    | [] => some (some walk.snapshot)
    | task :: tasks =>
      match perform heap detach { walk with tasks } task with
      | none => some none
      | some next => run heap detach fuel next

/-- The walk over a value, before it begins. -/
def start (detach : Bool) (value : JsValue Ref) : JsonWalk Ref where
  tasks := [.visit value (if detach then some .root else none)]
  ancestors := ∅
  snapshot := { targets := [], root := none }

end JsonWalk

/-- `walkJsonValue`, in so many turns. -/
def walkJsonValue (heap : Heap Ref) (detach : Bool) (fuel : ℕ) (value : JsValue Ref) :
    Option (Option Snapshot) :=
  JsonWalk.run heap detach fuel (.start detach value)

/-- `isJsonValue`, in so many turns. -/
def isJsonValue (heap : Heap Ref) (fuel : ℕ) (value : JsValue Ref) : Option Bool :=
  (walkJsonValue heap false fuel value).map Option.isSome

/-- `snapshotJsonValue`, in so many turns: the item that was assigned to the root, with what it is
made of; nothing inside stands for `undefined`. -/
def snapshotJsonValue (heap : Heap Ref) (fuel : ℕ) (value : JsValue Ref) :
    Option (Option (List SnapshotTarget × SnapshotItem)) :=
  (walkJsonValue heap true fuel value).map fun result ↦ result.bind fun snapshot ↦
    snapshot.root.map fun root ↦ (snapshot.targets, root)

/-! ## What JSON keeps -/

/-- A dense array with an intrinsic prototype and no other own properties. -/
structure DensePlainArray (heap : Heap Ref) (o : HeapObject Ref) (elements : List (JsValue Ref)) :
    Prop where
  kind : o.kind = .array
  prototype : hasPlainArrayPrototype heap o = true
  length : o.length = elements.length
  own : ∀ i (h : i < elements.length), o.own (.index i) = some elements[i]
  only : ∀ p ∈ o.properties, ∃ i < elements.length, p.key = .index i

/-- A plain or null-prototype object all of whose own properties are enumerable and named by
strings. -/
structure PlainRecord (heap : Heap Ref) (o : HeapObject Ref)
    (members : List (JsString × JsValue Ref)) : Prop where
  kind : o.kind = .ordinary
  prototype : hasPlainObjectPrototype heap o = true
  properties : o.properties = members.map fun m ↦ ⟨.string m.1, true, m.2⟩

/-- The values JSON keeps, as far as one sees without looking into their parts. -/
inductive LosslessShape (heap : Heap Ref) : JsValue Ref → Shape (JsValue Ref) → Prop where
  | null : LosslessShape heap .null (.scalar .null)
  | boolean (b : Bool) : LosslessShape heap (.boolean b) (.scalar (.bool b))
  | string (s : JsString) : LosslessShape heap (.string s) (.scalar (.str s))
  | number (x : Number) : LosslessShape heap (.number (.finite x)) (.scalar (.num x))
  | array {ref : Ref} {elements : List (JsValue Ref)}
      (h : DensePlainArray heap (heap ref) elements) :
    LosslessShape heap (.object ref) (.array elements)
  | record {ref : Ref} {members : List (JsString × JsValue Ref)}
      (h : PlainRecord heap (heap ref) members) :
    LosslessShape heap (.object ref) (.record members)

/-- What is seen of an item of a snapshot. -/
inductive SnapshotShape (target? : ℕ → Option SnapshotTarget) :
    SnapshotItem → Shape SnapshotItem → Prop where
  | scalar (s : Scalar) : SnapshotShape target? (.scalar s) (.scalar s)
  | array {id : ℕ} {items : List SnapshotItem} (h : target? id = some (.array (items.map some))) :
    SnapshotShape target? (.target id) (.array items)
  | record {id : ℕ} {members : List (JsString × SnapshotItem)}
      (h : target? id = some (.object members)) :
    SnapshotShape target? (.target id) (.record members)

end XxAgent
