import XxAgent.Session.LosslessJson

/-!
# What the walk opens

An object that the walk enters is read slot by slot. If every slot is there the object has a shape
(`Opened.shape`), and the container that takes an item for every slot has the same one. An array
that lacks an index is entered all the same, and is given up when the walk comes to that index.
-/

namespace XxAgent

open Ecma

variable {Ref : Type}

/-! ## Own properties -/

private theorem find?_string {ps : List (OwnProperty Ref)} {k : JsString}
    (hnd : (ps.filterMap fun p ↦ p.key.string?).Nodup) {p : OwnProperty Ref} (hp : p ∈ ps)
    (hk : p.key = .string k) : ps.find? (fun q ↦ decide (q.key = .string k)) = some p := by
  induction ps with
  | nil => simp at hp
  | cons q ps ih =>
    rw [List.find?_cons]
    rcases List.mem_cons.mp hp with rfl | hmem
    · simp [hk]
    · have hne : q.key ≠ .string k := by
        intro hq
        rw [List.filterMap_cons_some (b := k) (by rw [hq]; rfl), List.nodup_cons] at hnd
        exact hnd.1 (List.mem_filterMap.mpr ⟨p, hmem, by rw [hk]; rfl⟩)
      have hnd' : (ps.filterMap fun p ↦ p.key.string?).Nodup := by
        refine hnd.sublist ?_
        exact (List.sublist_cons_self q ps).filterMap _
      simp [hne, ih hnd' hmem]

theorem HeapObject.own_string {o : HeapObject Ref} {p : OwnProperty Ref} {k : JsString}
    (hp : p ∈ o.properties) (hk : p.key = .string k) : o.own (.string k) = some p.value := by
  rw [HeapObject.own, find?_string o.ordered.nodup hp hk]
  rfl

theorem HeapObject.exists_of_own {o : HeapObject Ref} {k : PropertyKey} {v : JsValue Ref}
    (h : o.own k = some v) : ∃ p ∈ o.properties, p.key = k ∧ p.value = v := by
  obtain ⟨p, hp, hv⟩ := Option.map_eq_some_iff.mp h
  exact ⟨p, List.mem_of_find?_eq_some hp, by simpa using List.find?_some hp, hv⟩

theorem visibleName?_eq_some {p : OwnProperty Ref} {k : JsString} :
    p.visibleName? = some k ↔ p.enumerable = true ∧ p.key = .string k := by
  obtain ⟨key, enumerable, value⟩ := p
  cases key <;> cases enumerable <;> simp [OwnProperty.visibleName?, PropertyKey.string?]

theorem PropertyKey.index_injective : Function.Injective PropertyKey.index := fun _ _ h ↦
  toString_injective (js_inj.mp (PropertyKey.string.inj h))

private def indexKeys (n : ℕ) : List PropertyKey := (List.range n).map .index

private theorem nodup_indexKeys (n : ℕ) : (indexKeys n).Nodup :=
  List.nodup_range.map PropertyKey.index_injective

/-- The keys of a record are seen exactly if JSON drops none of its properties. -/
theorem enumerableStringKeys_eq_some {o : HeapObject Ref} {ks : List JsString} :
    enumerableStringKeys o = some ks ↔
      ∃ members : List (JsString × JsValue Ref),
        o.properties = (members.map fun m ↦ ⟨.string m.1, true, m.2⟩) ∧
          members.map Prod.fst = ks := by
  rw [enumerableStringKeys]
  generalize o.properties = ps
  induction ps generalizing ks with
  | nil =>
    constructor
    · intro h
      exact ⟨[], rfl, by simpa using h⟩
    · rintro ⟨members, hmembers, rfl⟩
      rw [List.map_eq_nil_iff.mp hmembers.symm]
      rfl
  | cons p ps ih =>
    obtain ⟨key, enumerable, value⟩ := p
    rw [List.mapM_cons]
    constructor
    · intro h
      obtain ⟨k, hk, hrest⟩ := Option.bind_eq_some_iff.mp h
      obtain ⟨ks', hks', hcons⟩ := Option.bind_eq_some_iff.mp hrest
      obtain ⟨members, rfl, rfl⟩ := ih.mp hks'
      obtain ⟨rfl, rfl⟩ := visibleName?_eq_some.mp hk
      exact ⟨(k, value) :: members, rfl, Option.some.inj hcons⟩
    · rintro ⟨members, hmembers, rfl⟩
      cases members with
      | nil => simp at hmembers
      | cons m members =>
        obtain ⟨hp, hps⟩ := List.cons.inj hmembers
        obtain ⟨rfl, rfl, rfl⟩ := OwnProperty.mk.inj hp
        rw [ih.mpr ⟨members, hps, rfl⟩]
        rfl

variable [DecidableEq Ref] {heap : Heap Ref}

/-- An array with one more own key than elements, and an element at every index, is dense. -/
theorem exists_densePlainArray {o : HeapObject Ref} (hkind : o.kind = .array)
    (hprototype : hasPlainArrayPrototype heap o = true)
    (hlength : o.ownKeysLength = o.length + 1)
    (hown : ∀ i < o.length, o.own (.index i) ≠ none) :
    ∃ elements, DensePlainArray heap o elements := by
  have hcount : o.properties.length = o.length := by
    rw [HeapObject.ownKeysLength, if_pos hkind] at hlength
    omega
  have hsub : indexKeys o.length ⊆ o.properties.map OwnProperty.key := by
    intro k hk
    obtain ⟨i, hi, rfl⟩ := List.mem_map.mp hk
    obtain ⟨v, hv⟩ := Option.ne_none_iff_exists'.mp (hown i (List.mem_range.mp hi))
    obtain ⟨p, hp, hkey, -⟩ := HeapObject.exists_of_own hv
    exact List.mem_map.mpr ⟨p, hp, hkey⟩
  have hperm := (List.subperm_of_subset (nodup_indexKeys _) hsub).perm_of_length_le
    (by simp [indexKeys, hcount])
  refine ⟨(List.range o.length).map fun i ↦ (o.own (.index i)).getD .undefined,
    hkind, hprototype, by simp, fun i hi ↦ ?_, fun p hp ↦ ?_⟩
  · rw [List.length_map, List.length_range] at hi
    obtain ⟨v, hv⟩ := Option.ne_none_iff_exists'.mp (hown i hi)
    simp [hv]
  · have hkey := hperm.mem_iff.mpr (List.mem_map_of_mem hp)
    obtain ⟨i, hi, hik⟩ := List.mem_map.mp hkey
    exact ⟨i, by simpa using hi, hik.symm⟩

/-- A dense array has one more own key than elements. -/
theorem DensePlainArray.ownKeysLength {o : HeapObject Ref} {elements : List (JsValue Ref)}
    (h : DensePlainArray heap o elements) : o.ownKeysLength = o.length + 1 := by
  have hnd : (o.properties.map OwnProperty.key).Nodup := by
    have hstrings : (o.properties.map OwnProperty.key).map PropertyKey.string? =
        (o.properties.filterMap fun p ↦ p.key.string?).map some := by
      have hall := h.only
      generalize o.properties = ps at hall
      induction ps with
      | nil => rfl
      | cons p ps ih =>
        obtain ⟨i, -, hi⟩ := hall p List.mem_cons_self
        have hp : p.key.string? = some (js (toString i)) := by rw [hi]; rfl
        rw [List.map_cons, List.map_cons, ih fun q hq ↦ hall q (List.mem_cons_of_mem p hq),
          List.filterMap_cons, hp]
        rfl
    refine .of_map PropertyKey.string? ?_
    rw [hstrings]
    exact o.ordered.nodup.map (Option.some_injective _)
  have hperm : (o.properties.map OwnProperty.key).Perm (indexKeys elements.length) := by
    refine (List.perm_ext_iff_of_nodup hnd (nodup_indexKeys _)).mpr fun k ↦ ?_
    constructor <;> intro hk
    · obtain ⟨p, hp, rfl⟩ := List.mem_map.mp hk
      obtain ⟨i, hi, hkey⟩ := h.only p hp
      exact List.mem_map.mpr ⟨i, List.mem_range.mpr hi, hkey.symm⟩
    · obtain ⟨i, hi, rfl⟩ := List.mem_map.mp hk
      obtain ⟨p, hp, hkey, -⟩ := HeapObject.exists_of_own (h.own i (List.mem_range.mp hi))
      exact List.mem_map.mpr ⟨p, hp, hkey⟩
  have hcount := hperm.length_eq
  rw [List.length_map, indexKeys, List.length_map, List.length_range] at hcount
  rw [HeapObject.ownKeysLength, if_pos h.kind, hcount, h.length]

/-! ## Shapes -/

theorem losslessShape_unique : Relator.RightUnique (LosslessShape heap) := by
  intro v sh sh' h h'
  cases h with
  | null => cases h'; rfl
  | boolean => cases h'; rfl
  | string => cases h'; rfl
  | number => cases h'; rfl
  | array hd =>
    cases h' with
    | array hd' =>
      refine congrArg _ (List.ext_getElem (hd.length.symm.trans hd'.length) fun i hi hi' ↦ ?_)
      exact Option.some.inj ((hd.own i hi).symm.trans (hd'.own i hi'))
    | record hr => exact nomatch hd.kind.symm.trans hr.kind
  | record hr =>
    cases h' with
    | array hd => exact nomatch hd.kind.symm.trans hr.kind
    | record hr' =>
      refine congrArg _ (List.map_injective_iff.mpr ?_ (hr.properties.symm.trans hr'.properties))
      intro m n hmn
      obtain ⟨hk, -, hv⟩ := OwnProperty.mk.inj hmn
      exact Prod.ext (PropertyKey.string.inj hk) hv

/-! ## Slots -/

/-- A place in a container. -/
inductive JsonSlot where
  | index (i : ℕ)
  | key (k : JsString)

namespace JsonSlot

/-- The property at the place. -/
def propertyKey : JsonSlot → PropertyKey
  | .index i => .index i
  | .key k => .string k

/-- The task that reads it. -/
def task (source : Ref) (target : Option ℕ) : JsonSlot → JsonWalkTask Ref
  | .index i => .arrayItem source i target
  | .key k => .objectProperty source k target

/-- The place in a container of the snapshot. -/
def destination (target : ℕ) : JsonSlot → SnapshotDestination
  | .index i => .array target i
  | .key k => .object target k

/-- Fill the place. -/
def put (target : SnapshotTarget) : JsonSlot × SnapshotItem → SnapshotTarget
  | (.index i, item) => target.setElement i item
  | (.key k, item) => target.defineProperty k item

end JsonSlot

private theorem foldl_put_index (items : List SnapshotItem) : ∀ filled : List SnapshotItem,
    (((List.range' filled.length items.length).map JsonSlot.index).zip items).foldl JsonSlot.put
      (.array (filled.map some)) = .array ((filled ++ items).map some) := by
  induction items with
  | nil => simp
  | cons item items ih =>
    intro filled
    have hset : setElement filled.length item (filled.map some) = (filled ++ [item]).map some := by
      rw [setElement, List.length_map, Nat.add_sub_cancel_left, List.map_append,
        List.set_append_right _ _ (by rw [List.length_map]), List.length_map, Nat.sub_self]
      rfl
    have hnext := ih (filled ++ [item])
    rw [List.length_append, List.length_singleton, List.append_assoc] at hnext
    rw [List.length_cons, List.range'_succ, List.map_cons, List.zip_cons_cons, List.foldl_cons,
      JsonSlot.put, SnapshotTarget.setElement, hset]
    exact hnext

private theorem insertMember_of_precedes {members : List (JsString × SnapshotItem)} {k : JsString}
    {item : SnapshotItem} (h : ∀ l ∈ members.map Prod.fst, precedes l k = true) :
    insertMember k item members = members ++ [(k, item)] := by
  induction members with
  | nil => rfl
  | cons p members ih =>
    rw [List.map_cons, List.forall_mem_cons] at h
    rw [insertMember, if_pos h.1, ih h.2, List.cons_append]

private theorem foldl_put_key {ks : List JsString} {items : List SnapshotItem}
    (hlength : items.length = ks.length) : ∀ filled : List (JsString × SnapshotItem),
    OrderedKeys (filled.map Prod.fst ++ ks) →
    ((ks.map JsonSlot.key).zip items).foldl JsonSlot.put (.object filled) =
      .object (filled ++ ks.zip items) := by
  induction ks generalizing items with
  | nil => simp
  | cons k ks ih =>
    intro filled hordered
    cases items with
    | nil => simp at hlength
    | cons item items =>
      have hbefore : ∀ l ∈ filled.map Prod.fst, l ≠ k ∧ precedes l k = true := fun l hl ↦
        (List.pairwise_append.mp hordered).2.2 l hl k List.mem_cons_self
      have hnew : ¬ (filled.any fun p ↦ p.1 = k) = true := by
        rw [List.any_eq_true]
        rintro ⟨p, hp, hk⟩
        exact (hbefore p.1 (List.mem_map_of_mem hp)).1 (of_decide_eq_true hk)
      have hdefine : defineProperty k item filled = filled ++ [(k, item)] := by
        rw [defineProperty, if_neg hnew, insertMember_of_precedes fun l hl ↦ (hbefore l hl).2]
      have hnext := ih (by simpa using hlength : items.length = ks.length)
        (filled ++ [(k, item)]) (by simpa using hordered)
      rw [List.map_cons, List.zip_cons_cons, List.foldl_cons, JsonSlot.put,
        SnapshotTarget.defineProperty, hdefine, hnext, List.append_assoc]
      rfl

/-! ## Objects that are entered -/

/-- The walk enters the object with an empty container, to read these slots. -/
inductive Opened (heap : Heap Ref) (ref : Ref) : SnapshotTarget → List JsonSlot → Prop where
  | array (hkind : (heap ref).kind = .array)
      (hprototype : hasPlainArrayPrototype heap (heap ref) = true)
      (hlength : (heap ref).ownKeysLength = (heap ref).length + 1) :
    Opened heap ref (.array []) ((List.range (heap ref).length).map .index)
  | record {ks : List JsString} (hkind : (heap ref).kind = .ordinary)
      (hprototype : hasPlainObjectPrototype heap (heap ref) = true)
      (hkeys : enumerableStringKeys (heap ref) = some ks) :
    Opened heap ref (.object []) (ks.map .key)

/-- Filled slot by slot, the container has the shape of the object. -/
structure Fills (sh : Shape (JsValue Ref)) (empty : SnapshotTarget) (slots : List JsonSlot)
    (items : List SnapshotItem) (js : List Json) (sh' : Shape SnapshotItem) (j : Json) : Prop where
  json : sh.Json js j
  json' : sh'.Json js j
  parts : sh'.parts = items
  shape : ∀ target? id, target? id = some ((slots.zip items).foldl JsonSlot.put empty) →
    SnapshotShape target? (.target id) sh'

/-- **An object that is entered lacks a slot, or has a shape that its slots make up.** -/
theorem Opened.shape {ref : Ref} {empty : SnapshotTarget} {slots : List JsonSlot}
    (h : Opened heap ref empty slots) :
    (∃ slot ∈ slots, (heap ref).own slot.propertyKey = none ∧
      ∀ sh, ¬ LosslessShape heap (.object ref) sh) ∨
    ∃ sh, LosslessShape heap (.object ref) sh ∧
      slots.map (fun slot ↦ (heap ref).own slot.propertyKey) = sh.parts.map some ∧
      ∀ items js, items.length = slots.length → js.length = slots.length →
        ∃ sh' j, Fills sh empty slots items js sh' j := by
  cases h with
  | array hkind hprototype hlength =>
    by_cases hown : ∀ i < (heap ref).length, (heap ref).own (.index i) ≠ none
    · obtain ⟨elements, hdense⟩ := exists_densePlainArray hkind hprototype hlength hown
      refine .inr ⟨_, .array hdense, ?_, fun items js hitems hjs ↦ ?_⟩
      · refine List.ext_getElem (by simp [Shape.parts, hdense.length]) fun i hi hi' ↦ ?_
        rw [List.length_map] at hi'
        simp only [List.getElem_map, List.getElem_range]
        exact hdense.own i hi'
      · rw [List.length_map, List.length_range] at hitems
        refine ⟨.array items, .arr js, .array js, .array js, rfl, fun target? id hid ↦ .array ?_⟩
        rw [hid, ← hitems, List.range_eq_range']
        exact congrArg some (foldl_put_index items [])
    · obtain ⟨i, hi, hnone⟩ : ∃ i, i < (heap ref).length ∧ (heap ref).own (.index i) = none := by
        simpa using hown
      refine .inl ⟨.index i, List.mem_map_of_mem (List.mem_range.mpr hi), hnone, fun sh hsh ↦ ?_⟩
      cases hsh with
      | array hdense =>
        rw [hdense.length] at hi
        exact nomatch hnone.symm.trans (hdense.own i hi)
      | record hrecord => exact nomatch hkind.symm.trans hrecord.kind
  | record hkind hprototype hkeys =>
    obtain ⟨members, hmembers, rfl⟩ := enumerableStringKeys_eq_some.mp hkeys
    refine .inr ⟨.record members, .record ⟨hkind, hprototype, hmembers⟩, ?_,
      fun items js hitems hjs ↦ ?_⟩
    · rw [Shape.parts, List.map_map, List.map_map, List.map_map]
      refine List.map_congr_left fun m hm ↦ ?_
      refine HeapObject.own_string (p := ⟨.string m.1, true, m.2⟩) ?_ rfl
      rw [hmembers]
      exact List.mem_map_of_mem hm
    · rw [List.length_map] at hitems hjs
      have hordered : OrderedKeys (members.map Prod.fst) := by
        have hnames := (heap ref).ordered
        rw [hmembers, List.filterMap_map] at hnames
        rwa [← List.filterMap_eq_map]
      refine ⟨.record ((members.map Prod.fst).zip items), .obj ((members.map Prod.fst).zip js), ?_,
        ?_, ?_, fun target? id hid ↦ .record ?_⟩
      · have hfields := @Shape.Json.record _ members ((members.map Prod.fst).zip js)
          (List.map_fst_zip (by simp [hjs])).symm
        rwa [List.map_snd_zip (by simp [hjs])] at hfields
      · have hfields := @Shape.Json.record _ ((members.map Prod.fst).zip items)
          ((members.map Prod.fst).zip js)
          (by rw [keys, List.map_fst_zip (by simp [hitems]), List.map_fst_zip (by simp [hjs])])
        rwa [List.map_snd_zip (by simp [hjs])] at hfields
      · exact List.map_snd_zip (by simp [hitems])
      · rw [hid, foldl_put_key hitems [] hordered]
        rfl

/-!
## The walk tells what JSON keeps

A visit ends in one of two ways (`JsonWalk.visits`). Either the value unfolds, and the walk goes on
with the tasks below as it found them: the same ancestors, nothing changed in the snapshot but the
place the value was asked for, and behind it the containers that were made on the way. Or the walk
gives up, and then the value is flawed, provided that what the walk is inside of has it as a part.
The induction is on the objects the walk is not inside of, each visit of an object being inside of
one more; an object met again inside of itself is found among the ancestors.

A walk that copies nothing takes the same turns (`JsonWalk.run_erase`).
-/

namespace JsonWalk

/-! ## Turns -/

/-- From `walk` the loop comes to `walk'`. -/
def Leads (heap : Heap Ref) (detach : Bool) (walk walk' : JsonWalk Ref) : Prop :=
  ∃ n, ∀ more, run heap detach (n + more) walk = run heap detach more walk'

/-- From `walk` the loop comes to where it gives up. -/
def GivesUp (heap : Heap Ref) (detach : Bool) (walk : JsonWalk Ref) : Prop :=
  ∃ n, ∀ more, run heap detach (n + more) walk = some none

theorem Leads.refl (detach : Bool) (walk : JsonWalk Ref) : Leads heap detach walk walk :=
  ⟨0, fun more ↦ by rw [Nat.zero_add]⟩

theorem Leads.trans {detach : Bool} {w w' w'' : JsonWalk Ref} (h : Leads heap detach w w')
    (h' : Leads heap detach w' w'') : Leads heap detach w w'' := by
  obtain ⟨n, hn⟩ := h
  obtain ⟨m, hm⟩ := h'
  exact ⟨n + m, fun more ↦ by rw [Nat.add_assoc, hn, hm]⟩

theorem Leads.givesUp {detach : Bool} {w w' : JsonWalk Ref} (h : Leads heap detach w w')
    (h' : GivesUp heap detach w') : GivesUp heap detach w := by
  obtain ⟨n, hn⟩ := h
  obtain ⟨m, hm⟩ := h'
  exact ⟨n + m, fun more ↦ by rw [Nat.add_assoc, hn, hm]⟩

theorem leads_of_perform {detach : Bool} {task : JsonWalkTask Ref} {tasks : List (JsonWalkTask Ref)}
    {ancestors : Finset Ref} {snapshot : Snapshot} {next : JsonWalk Ref}
    (h : perform heap detach ⟨tasks, ancestors, snapshot⟩ task = some next) :
    Leads heap detach ⟨task :: tasks, ancestors, snapshot⟩ next := by
  refine ⟨1, fun more ↦ ?_⟩
  rw [Nat.add_comm, run]
  simp only [h]

theorem givesUp_of_perform {detach : Bool} {task : JsonWalkTask Ref}
    {tasks : List (JsonWalkTask Ref)} {ancestors : Finset Ref} {snapshot : Snapshot}
    (h : perform heap detach ⟨tasks, ancestors, snapshot⟩ task = none) :
    GivesUp heap detach ⟨task :: tasks, ancestors, snapshot⟩ := by
  refine ⟨1, fun more ↦ ?_⟩
  rw [Nat.add_comm, run]
  simp only [h]

/-! ## Snapshots that grow -/

end JsonWalk

namespace Snapshot

/-- The snapshot with more containers. -/
def append (snapshot : Snapshot) (targets : List SnapshotTarget) : Snapshot :=
  { snapshot with targets := snapshot.targets ++ targets }

/-- The place is in a container that is there. -/
def Has (snapshot : Snapshot) : SnapshotDestination → Prop
  | .root => True
  | .array target _ => target < snapshot.targets.length
  | .object target _ => target < snapshot.targets.length

theorem append_append (s : Snapshot) (ts us : List SnapshotTarget) :
    (s.append ts).append us = s.append (ts ++ us) := by
  rw [append, append, append, List.append_assoc]

private theorem modify_append {α : Type} {f : α → α} {as bs : List α} {i : ℕ} (h : i < as.length) :
    (as ++ bs).modify i f = as.modify i f ++ bs := by
  induction as generalizing i with
  | nil => simp at h
  | cons a as ih =>
    cases i with
    | zero => rfl
    | succ i =>
      rw [List.cons_append, List.modify_succ_cons, List.modify_succ_cons, List.cons_append,
        ih (by simpa using h)]

private theorem modify_append_cons {α : Type} (f : α → α) (as : List α) (a : α) (bs : List α) :
    (as ++ a :: bs).modify as.length f = as ++ f a :: bs := by
  rw [List.modify_eq_take_cons_drop (by simp)]
  simp

/-- What is assigned in a container that is there is no matter to those that come later. -/
theorem assign_append {s : Snapshot} {d : SnapshotDestination} (h : s.Has d) (item : SnapshotItem)
    (ts : List SnapshotTarget) :
    (s.append ts).assign (some d) item = (s.assign (some d) item).append ts := by
  cases d with
  | root => rfl
  | array => simp only [assign, append, modify_append h]
  | object => simp only [assign, append, modify_append h]

@[simp] theorem length_assign (s : Snapshot) (d : Option SnapshotDestination)
    (item : SnapshotItem) : (s.assign d item).targets.length = s.targets.length := by
  cases d with
  | none => rfl
  | some d => cases d <;> simp [assign]

@[simp] theorem length_append (s : Snapshot) (ts : List SnapshotTarget) :
    (s.append ts).targets.length = s.targets.length + ts.length := by
  rw [append, List.length_append]

theorem has_of_le {s t : Snapshot} (h : s.targets.length ≤ t.targets.length)
    {d : SnapshotDestination} (hd : s.Has d) : t.Has d := by
  cases d with
  | root => trivial
  | array => exact Nat.lt_of_lt_of_le hd h
  | object => exact Nat.lt_of_lt_of_le hd h

/-- Assign an item to a slot of a container. -/
def fill (target : ℕ) (s : Snapshot) (p : JsonSlot × SnapshotItem) : Snapshot :=
  s.assign (some (p.1.destination target)) p.2

/-- The slots of one container are filled in place. -/
theorem foldl_fill (s : Snapshot) (ps : List (JsonSlot × SnapshotItem))
    (rest : List SnapshotTarget) :
    ∀ target : SnapshotTarget, ps.foldl (fill s.targets.length) (s.append (target :: rest)) =
      s.append (ps.foldl JsonSlot.put target :: rest) := by
  induction ps with
  | nil => simp
  | cons p ps ih =>
    intro target
    rw [List.foldl_cons, List.foldl_cons, ← ih]
    congr 1
    obtain ⟨slot, item⟩ := p
    cases slot <;>
      simp [fill, assign, append, JsonSlot.destination, JsonSlot.put, modify_append_cons]

end Snapshot

/-! ## Copies -/

/-- The containers from the `n`-th on. -/
def placed (n : ℕ) (ts : List SnapshotTarget) (id : ℕ) : Option SnapshotTarget :=
  if n ≤ id then ts[id - n]? else none

/-- With the containers from the `n`-th on, the item is a copy of `j`. -/
def Copies (n : ℕ) (ts : List SnapshotTarget) (item : SnapshotItem) (j : Json) : Prop :=
  Unfolds (SnapshotShape (placed n ts)) item j

theorem unfolds_snapshot_mono {get get' : ℕ → Option SnapshotTarget}
    (h : ∀ id t, get id = some t → get' id = some t) {item : SnapshotItem} {j : Json}
    (hitem : Unfolds (SnapshotShape get) item j) : Unfolds (SnapshotShape get') item j := by
  refine hitem.mono (P := fun _ ↦ True) (fun v sh _ hsh ↦ ⟨?_, fun _ _ ↦ trivial⟩) trivial
  cases hsh with
  | scalar s => exact .scalar s
  | array hget => exact .array (h _ _ hget)
  | record hget => exact .record (h _ _ hget)

theorem Copies.append {n : ℕ} {ts : List SnapshotTarget} {item : SnapshotItem} {j : Json}
    (h : Copies n ts item j) (us : List SnapshotTarget) : Copies n (ts ++ us) item j := by
  refine unfolds_snapshot_mono (fun id t ht ↦ ?_) h
  rw [placed] at ht ⊢
  split_ifs at ht ⊢ with hn
  exact List.getElem?_append_left (List.getElem?_eq_some_iff.mp ht).1 ▸ ht

theorem Copies.prepend {n : ℕ} {ts us : List SnapshotTarget} {item : SnapshotItem} {j : Json}
    (h : Copies (n + ts.length) us item j) : Copies n (ts ++ us) item j := by
  refine unfolds_snapshot_mono (fun id t ht ↦ ?_) h
  rw [placed] at ht ⊢
  split_ifs at ht with hn
  rw [if_pos (by omega), List.getElem?_append_right (by omega)]
  rwa [Nat.sub_sub]

namespace JsonWalk

/-! ## Visits -/

/-- What the walk is inside of has the value as a part. -/
def Above (heap : Heap Ref) (ancestors : Finset Ref) (value : JsValue Ref) : Prop :=
  ∀ a ∈ ancestors, Relation.TransGen (IsPart (LosslessShape heap)) value (.object a)

/-- The walk copies the value and goes on. -/
def Succeeds (heap : Heap Ref) (walk : JsonWalk Ref) (d : SnapshotDestination)
    (value : JsValue Ref) : Prop :=
  ∃ j item ts, Unfolds (LosslessShape heap) value j ∧
    Copies walk.snapshot.targets.length ts item j ∧
    Leads heap true { walk with tasks := .visit value (some d) :: walk.tasks }
      { walk with snapshot := (walk.snapshot.append ts).assign (some d) item }

/-- The walk gives up at a flaw. -/
def Fails (heap : Heap Ref) (walk : JsonWalk Ref) (d : SnapshotDestination)
    (value : JsValue Ref) : Prop :=
  GivesUp heap true { walk with tasks := .visit value (some d) :: walk.tasks } ∧
    (Above heap walk.ancestors value → Flawed (LosslessShape heap) value)

/-- A value that is turned down at once. -/
theorem fails_of_visit {walk : JsonWalk Ref} {d : SnapshotDestination} {value : JsValue Ref}
    (h : ∀ tasks, visit heap true { walk with tasks } (some d) value = none)
    (hshape : ∀ sh, ¬ LosslessShape heap value sh) : Fails heap walk d value :=
  ⟨givesUp_of_perform (h _), fun _ ↦ ⟨value, .refl, .inl hshape⟩⟩

theorem succeeds_of_put {walk : JsonWalk Ref} {d : SnapshotDestination} {value : JsValue Ref}
    {s : Scalar} (h : ∀ walk : JsonWalk Ref, visit heap true walk (some d) value =
      some (walk.put (some d) s))
    (hshape : LosslessShape heap value (.scalar s)) : Succeeds heap walk d value := by
  refine ⟨s.json, .scalar s, [], .intro hshape (.scalar s) rfl (by simp [Shape.parts]),
    .intro (.scalar s) (.scalar s) rfl (by simp [Shape.parts]), leads_of_perform ?_⟩
  rw [perform, h, put, Snapshot.append, List.append_nil]

/-- The task of a slot asks for a visit of what is there. -/
theorem leads_task {ref : Ref} {slot : JsonSlot} {value : JsValue Ref}
    (h : (heap ref).own slot.propertyKey = some value) (target : ℕ) (walk : JsonWalk Ref) :
    Leads heap true { walk with tasks := slot.task ref (some target) :: walk.tasks }
      { walk with tasks := .visit value (some (slot.destination target)) :: walk.tasks } := by
  refine leads_of_perform ?_
  cases slot with
  | index i =>
    rw [JsonSlot.propertyKey] at h
    simp only [JsonSlot.task, perform, h]
    rfl
  | key k =>
    rw [JsonSlot.propertyKey] at h
    simp only [JsonSlot.task, perform, h]
    rfl

/-- At a slot where nothing is the walk gives up. -/
theorem givesUp_task {ref : Ref} {slot : JsonSlot} (h : (heap ref).own slot.propertyKey = none)
    (target : ℕ) (walk : JsonWalk Ref) :
    GivesUp heap true { walk with tasks := slot.task ref (some target) :: walk.tasks } := by
  cases slot with
  | index i =>
    rw [JsonSlot.propertyKey] at h
    refine givesUp_of_perform ?_
    simp only [JsonSlot.task, perform, h]
  | key k =>
    rw [JsonSlot.propertyKey] at h
    have hread : Leads heap true
        { walk with tasks := .objectProperty ref k (some target) :: walk.tasks }
        { walk with tasks := .visit .undefined (some (.object target k)) :: walk.tasks } := by
      refine leads_of_perform ?_
      simp only [perform, h]
      rfl
    exact hread.givesUp (givesUp_of_perform rfl)

/-- Every slot of an object is read: what is there, what it unfolds to and its copies. -/
structure SlotsRead (heap : Heap Ref) (walk : JsonWalk Ref) (ref : Ref) (target : ℕ)
    (slots : List JsonSlot) (values : List (JsValue Ref)) (js : List Json)
    (items : List SnapshotItem) (ts : List SnapshotTarget) : Prop where
  own : slots.map (fun slot ↦ (heap ref).own slot.propertyKey) = values.map some
  length_js : js.length = slots.length
  length_items : items.length = slots.length
  unfolds : ∀ p ∈ values.zip js, Unfolds (LosslessShape heap) p.1 p.2
  copies : ∀ p ∈ items.zip js, Copies walk.snapshot.targets.length ts p.1 p.2
  leads : Leads heap true
    { walk with tasks := slots.map (·.task ref (some target)) ++ walk.tasks }
    { walk with snapshot := (slots.zip items).foldl (.fill target) (walk.snapshot.append ts) }

/-- The walk gives up at one of the slots. -/
structure SlotsFail (heap : Heap Ref) (walk : JsonWalk Ref) (ref : Ref) (target : ℕ)
    (slots : List JsonSlot) : Prop where
  givesUp : GivesUp heap true
    { walk with tasks := slots.map (·.task ref (some target)) ++ walk.tasks }
  flawed : ∃ slot ∈ slots, ∀ value, (heap ref).own slot.propertyKey = some value →
    Above heap walk.ancestors value → Flawed (LosslessShape heap) value

/-- The tasks of the slots of an object, one after another. -/
theorem readSlots {ancestors : Finset Ref} (ref : Ref) (target : ℕ)
    (hvisit : ∀ (walk : JsonWalk Ref) (d : SnapshotDestination) (value : JsValue Ref),
      walk.ancestors = ancestors → walk.snapshot.Has d →
      Succeeds heap walk d value ∨ Fails heap walk d value)
    (slots : List JsonSlot) : ∀ walk : JsonWalk Ref, walk.ancestors = ancestors →
    target < walk.snapshot.targets.length →
    (∃ values js items ts, SlotsRead heap walk ref target slots values js items ts) ∨
    SlotsFail heap walk ref target slots := by
  induction slots with
  | nil =>
    intro walk _ _
    refine .inl ⟨[], [], [], [], rfl, rfl, rfl, by simp, by simp, ?_⟩
    rw [Snapshot.append, List.append_nil]
    exact .refl _ _
  | cons slot slots ih =>
    intro walk hancestors htarget
    cases hown : (heap ref).own slot.propertyKey with
    | none =>
      refine .inr ⟨givesUp_task hown target { walk with tasks := slots.map _ ++ walk.tasks }, slot,
        List.mem_cons_self, fun value hvalue ↦ ?_⟩
      exact nomatch hown.symm.trans hvalue
    | some value =>
      have htask := leads_task hown target
        { walk with tasks := slots.map (·.task ref (some target)) ++ walk.tasks }
      have hhas : walk.snapshot.Has (slot.destination target) := by
        cases slot <;> exact htarget
      rcases hvisit { walk with tasks := slots.map (·.task ref (some target)) ++ walk.tasks } _
        value hancestors hhas with ⟨j, item, ts, hunfolds, hcopies, hleads⟩ | ⟨hgives, hflawed⟩
      · have hlength : ((walk.snapshot.append ts).assign (some (slot.destination target))
            item).targets.length = walk.snapshot.targets.length + ts.length := by
          rw [Snapshot.length_assign, Snapshot.length_append]
        rcases ih { walk with
          snapshot := (walk.snapshot.append ts).assign (some (slot.destination target)) item }
          hancestors (by simp only [hlength]; omega) with ⟨values, js, items, us, hread⟩ | hfail
        · refine .inl ⟨value :: values, j :: js, item :: items, ts ++ us, ?_, ?_, ?_, ?_, ?_, ?_⟩
          · rw [List.map_cons, List.map_cons, hown, hread.own]
          · rw [List.length_cons, List.length_cons, hread.length_js]
          · rw [List.length_cons, List.length_cons, hread.length_items]
          · exact List.forall_mem_cons.mpr ⟨hunfolds, hread.unfolds⟩
          · refine List.forall_mem_cons.mpr ⟨hcopies.append us, fun p hp ↦ .prepend ?_⟩
            exact hlength ▸ hread.copies p hp
          · have hassign := Snapshot.assign_append (Snapshot.has_of_le
              (t := walk.snapshot.append ts) (by rw [Snapshot.length_append]; omega) hhas) item us
            rw [Snapshot.append_append] at hassign
            rw [List.zip_cons_cons, List.foldl_cons, Snapshot.fill, hassign]
            exact htask.trans (hleads.trans hread.leads)
        · obtain ⟨later, hlater, hflawed⟩ := hfail.flawed
          exact .inr ⟨(htask.trans hleads).givesUp hfail.givesUp, later,
            List.mem_cons_of_mem slot hlater, hflawed⟩
      · refine .inr ⟨htask.givesUp hgives, slot, List.mem_cons_self, fun value' hvalue' ↦ ?_⟩
        obtain rfl : value = value' := Option.some.inj (hown.symm.trans hvalue')
        exact hflawed

/-! ## Objects -/

/-- An object is entered, unless the walk is inside of it or it has no shape. -/
theorem visit_object (walk : JsonWalk Ref) (d : SnapshotDestination) {ref : Ref}
    (href : ref ∉ walk.ancestors) :
    (visit heap true walk (some d) (.object ref) = none ∧
      ∀ sh, ¬ LosslessShape heap (.object ref) sh) ∨
    ∃ empty slots, Opened heap ref empty slots ∧
      visit heap true walk (some d) (.object ref) = some (walk.enter true (some d) ref empty
        fun target ↦ slots.map (·.task ref target)) := by
  rw [visit]
  simp only [href, ↓reduceIte]
  split_ifs with hfunction harray hprototype hlength hprototype
  · refine .inl ⟨rfl, fun sh hsh ↦ ?_⟩
    cases hsh with
    | array h => exact nomatch hfunction.symm.trans h.kind
    | record h => exact nomatch hfunction.symm.trans h.kind
  · refine .inl ⟨rfl, fun sh hsh ↦ ?_⟩
    cases hsh with
    | array h => exact hlength h.ownKeysLength
    | record h => exact nomatch harray.symm.trans h.kind
  · refine .inr ⟨_, _, .array harray hprototype (not_not.mp hlength), ?_⟩
    simp only [List.map_map]
    rfl
  · refine .inl ⟨rfl, fun sh hsh ↦ ?_⟩
    cases hsh with
    | array h => exact hprototype h.prototype
    | record h => exact nomatch harray.symm.trans h.kind
  · have hkind : (heap ref).kind = .ordinary := by
      cases hk : (heap ref).kind <;> simp_all
    cases hkeys : enumerableStringKeys (heap ref) with
    | none =>
      refine .inl ⟨rfl, fun sh hsh ↦ ?_⟩
      cases hsh with
      | array h => exact harray h.kind
      | record h =>
        have hsome := enumerableStringKeys_eq_some.mpr ⟨_, h.properties, rfl⟩
        exact nomatch hkeys.symm.trans hsome
    | some ks =>
      refine .inr ⟨_, _, .record hkind hprototype hkeys, ?_⟩
      simp only [List.map_map]
      rfl
  · refine .inl ⟨rfl, fun sh hsh ↦ ?_⟩
    cases hsh with
    | array h => exact harray h.kind
    | record h => exact hprototype h.prototype

/-- A walk that leaves `ref` after its slots is where it was. -/
theorem leads_leave {ref : Ref} {ancestors : Finset Ref} (href : ref ∉ ancestors)
    (tasks : List (JsonWalkTask Ref)) (snapshot : Snapshot) :
    Leads heap true ⟨.leave ref :: tasks, insert ref ancestors, snapshot⟩
      ⟨tasks, ancestors, snapshot⟩ := by
  refine leads_of_perform ?_
  rw [perform, Finset.erase_insert href]

/-- The walk inside of an object, with its container, after its slots. -/
def inside (walk : JsonWalk Ref) (d : SnapshotDestination) (ref : Ref) (empty : SnapshotTarget) :
    JsonWalk Ref where
  tasks := .leave ref :: walk.tasks
  ancestors := insert ref walk.ancestors
  snapshot := (walk.snapshot.append [empty]).assign (some d)
    (.target walk.snapshot.targets.length)

theorem length_inside (walk : JsonWalk Ref) (d : SnapshotDestination) (ref : Ref)
    (empty : SnapshotTarget) : (walk.inside d ref empty).snapshot.targets.length =
      walk.snapshot.targets.length + [empty].length := by
  rw [inside, Snapshot.length_assign, Snapshot.length_append]

/-- Entering an object, the walk comes to its slots. -/
theorem leads_inside {walk : JsonWalk Ref} {d : SnapshotDestination} {ref : Ref}
    {empty : SnapshotTarget} {slots : List JsonSlot}
    (h : visit heap true walk (some d) (.object ref) = some (walk.enter true (some d) ref empty
      fun target ↦ slots.map (·.task ref target))) :
    Leads heap true { walk with tasks := .visit (.object ref) (some d) :: walk.tasks }
      { walk.inside d ref empty with
        tasks := slots.map (·.task ref (some walk.snapshot.targets.length)) ++
          (walk.inside d ref empty).tasks } :=
  leads_of_perform h

/-- Its slots read, the object is copied. -/
theorem succeeds_of_read {walk : JsonWalk Ref} {d : SnapshotDestination} {ref : Ref}
    {empty : SnapshotTarget} {slots : List JsonSlot} {values : List (JsValue Ref)} {js : List Json}
    {items : List SnapshotItem} {ts : List SnapshotTarget} (href : ref ∉ walk.ancestors)
    (hhas : walk.snapshot.Has d) (hopened : Opened heap ref empty slots)
    (hvisit : visit heap true walk (some d) (.object ref) = some (walk.enter true (some d) ref empty
      fun target ↦ slots.map (·.task ref target)))
    (hread : SlotsRead heap (walk.inside d ref empty) ref walk.snapshot.targets.length slots
      values js items ts) :
    Succeeds heap walk d (.object ref) := by
  rcases hopened.shape with ⟨slot, hslot, hnone, -⟩ | ⟨sh, hsh, hown, hfilled⟩
  · have hmem := List.mem_map_of_mem (f := fun slot ↦ (heap ref).own slot.propertyKey) hslot
    rw [hread.own, hnone] at hmem
    simp at hmem
  obtain rfl : values = sh.parts :=
    List.map_injective_iff.mpr (Option.some_injective _) (hread.own.symm.trans hown)
  obtain ⟨sh', j, hfills⟩ := hfilled items js hread.length_items hread.length_js
  have hlength : sh.parts.length = slots.length := by
    simpa using (congrArg List.length hown).symm
  refine ⟨j, .target walk.snapshot.targets.length, (slots.zip items).foldl JsonSlot.put empty :: ts,
    .intro hsh hfills.json (hlength.trans hread.length_js.symm) hread.unfolds, ?_, ?_⟩
  · refine .intro (hfills.shape _ _ ?_) hfills.json' ?_ fun p hp ↦ ?_
    · simp [placed]
    · rw [hfills.parts, hread.length_items, hread.length_js]
    · rw [hfills.parts] at hp
      have hcopy := hread.copies p hp
      rw [length_inside] at hcopy
      have hplaced : Copies walk.snapshot.targets.length
          ([(slots.zip items).foldl JsonSlot.put empty] ++ ts) p.1 p.2 := .prepend hcopy
      exact hplaced
  · have hsnapshot : (slots.zip items).foldl (.fill walk.snapshot.targets.length)
        ((walk.inside d ref empty).snapshot.append ts) =
        (walk.snapshot.append ((slots.zip items).foldl JsonSlot.put empty :: ts)).assign (some d)
          (.target walk.snapshot.targets.length) := by
      have hfill := Snapshot.foldl_fill
        (walk.snapshot.assign (some d) (.target walk.snapshot.targets.length)) (slots.zip items) ts
        empty
      rw [Snapshot.length_assign] at hfill
      rw [inside, Snapshot.assign_append hhas, Snapshot.append_append, List.singleton_append, hfill,
        Snapshot.assign_append hhas]
    have hleave : Leads heap true _ _ := leads_leave href walk.tasks
      ((slots.zip items).foldl (.fill walk.snapshot.targets.length)
        ((walk.inside d ref empty).snapshot.append ts))
    rw [← hsnapshot]
    exact (leads_inside hvisit).trans (hread.leads.trans hleave)

/-- The visit of an object the walk is not inside of. -/
theorem visits_object {walk : JsonWalk Ref} {d : SnapshotDestination} {ref : Ref}
    (href : ref ∉ walk.ancestors) (hhas : walk.snapshot.Has d)
    (hvisit : ∀ (walk' : JsonWalk Ref) (d : SnapshotDestination) (value : JsValue Ref),
      walk'.ancestors = insert ref walk.ancestors → walk'.snapshot.Has d →
      Succeeds heap walk' d value ∨ Fails heap walk' d value) :
    Succeeds heap walk d (.object ref) ∨ Fails heap walk d (.object ref) := by
  rcases visit_object walk d href with ⟨hnone, hshape⟩ | ⟨empty, slots, hopened, hsome⟩
  · exact .inr ⟨givesUp_of_perform hnone, fun _ ↦ ⟨_, .refl, .inl hshape⟩⟩
  have htarget : walk.snapshot.targets.length <
      (walk.inside d ref empty).snapshot.targets.length := by
    rw [length_inside]
    exact Nat.lt_succ_self _
  rcases readSlots ref _ hvisit slots (walk.inside d ref empty) rfl htarget with
    ⟨values, js, items, ts, hread⟩ | hfail
  · exact .inl (succeeds_of_read href hhas hopened hsome hread)
  · refine .inr ⟨(leads_inside hsome).givesUp hfail.givesUp, fun habove ↦ ?_⟩
    obtain ⟨slot, hslot, hflawed⟩ := hfail.flawed
    rcases hopened.shape with ⟨-, -, -, hshape⟩ | ⟨sh, hsh, hown, -⟩
    · exact ⟨_, .refl, .inl hshape⟩
    obtain ⟨value, hvalue, hslotValue⟩ := List.mem_map.mp (hown ▸ List.mem_map_of_mem hslot)
    have hpart : IsPart (LosslessShape heap) value (.object ref) := ⟨sh, hsh, hvalue⟩
    refine .of_part hpart (hflawed value hslotValue.symm fun a ha ↦ ?_)
    rcases Finset.mem_insert.mp ha with rfl | ha
    · exact .single hpart
    · exact .head hpart (habove a ha)

/-- **A visit copies the value, or gives up at a flaw.** -/
theorem visits [Fintype Ref] (walk : JsonWalk Ref) (d : SnapshotDestination) (value : JsValue Ref)
    (hhas : walk.snapshot.Has d) : Succeeds heap walk d value ∨ Fails heap walk d value := by
  -- Each object that is entered leaves one less that is not an ancestor.
  induction hn : (walk.ancestorsᶜ).card using Nat.strong_induction_on generalizing walk d value with
  | _ n ih =>
    cases value with
    | undefined => exact .inr (fails_of_visit (fun _ ↦ rfl) nofun)
    | null => exact .inl (succeeds_of_put (fun _ ↦ rfl) .null)
    | boolean b => exact .inl (succeeds_of_put (fun _ ↦ rfl) (.boolean b))
    | string s => exact .inl (succeeds_of_put (fun _ ↦ rfl) (.string s))
    | number x =>
      cases x with
      | finite x => exact .inl (succeeds_of_put (fun _ ↦ rfl) (.number x))
      | negativeZero => exact .inr (fails_of_visit (fun _ ↦ rfl) nofun)
      | infinity s => exact .inr (fails_of_visit (fun _ ↦ rfl) nofun)
      | nan => exact .inr (fails_of_visit (fun _ ↦ rfl) nofun)
    | bigint => exact .inr (fails_of_visit (fun _ ↦ rfl) nofun)
    | symbol => exact .inr (fails_of_visit (fun _ ↦ rfl) nofun)
    | object ref =>
      by_cases href : ref ∈ walk.ancestors
      · refine .inr ⟨givesUp_of_perform ?_, fun habove ↦ ⟨_, .refl, .inr (habove ref href)⟩⟩
        simp [perform, visit, href]
      · refine visits_object href hhas fun walk' d' value' hwalk' hhas' ↦ ?_
        refine ih _ ?_ walk' d' value' hhas' rfl
        rw [hwalk', ← hn]
        refine Finset.card_lt_card (Finset.compl_ssubset_compl.mpr (Finset.ssubset_insert href))

end JsonWalk

/-! ## Without a copy -/

/-- The task, with nowhere to put what it finds. -/
def JsonWalkTask.erase : JsonWalkTask Ref → JsonWalkTask Ref
  | .visit value _ => .visit value none
  | .arrayItem source index _ => .arrayItem source index none
  | .objectProperty source key _ => .objectProperty source key none
  | .leave source => .leave source

namespace JsonWalk

/-- The walk, without what it copied. -/
def erase (walk : JsonWalk Ref) : JsonWalk Ref where
  tasks := walk.tasks.map JsonWalkTask.erase
  ancestors := walk.ancestors
  snapshot := { targets := [], root := none }

theorem erase_enter (walk : JsonWalk Ref) (d : Option SnapshotDestination) (ref : Ref)
    (empty : SnapshotTarget) (slots : List JsonSlot) :
    (walk.enter true d ref empty fun target ↦ slots.map (·.task ref target)).erase =
      walk.erase.enter false none ref empty fun target ↦ slots.map (·.task ref target) := by
  have hslots : ∀ target, (slots.map (·.task ref target)).map JsonWalkTask.erase =
      slots.map (·.task ref none) := by
    intro target
    rw [List.map_map]
    refine List.map_congr_left fun slot _ ↦ ?_
    cases slot <;> rfl
  rw [enter, enter, erase, erase, List.map_append, hslots]
  rfl

/-- A visit that copies nothing does the same. -/
theorem visit_erase (walk : JsonWalk Ref) (d : Option SnapshotDestination) (value : JsValue Ref) :
    visit heap false walk.erase none value = (visit heap true walk d value).map erase := by
  cases value with
  | undefined | null | boolean | string | bigint | symbol => rfl
  | number x => cases x <;> rfl
  | object ref =>
    rw [visit, visit, show walk.erase.ancestors = walk.ancestors from rfl]
    split_ifs
    · rfl
    · rfl
    · rfl
    · have henter := erase_enter walk d ref (.array [])
        ((List.range (heap ref).length).map JsonSlot.index)
      simp only [List.map_map] at henter
      exact congrArg some henter.symm
    · rfl
    · cases enumerableStringKeys (heap ref) with
      | none => rfl
      | some ks =>
        have henter := erase_enter walk d ref (.object []) (ks.map JsonSlot.key)
        simp only [List.map_map] at henter
        exact congrArg some henter.symm
    · rfl

theorem perform_erase (walk : JsonWalk Ref) (task : JsonWalkTask Ref) :
    perform heap false walk.erase task.erase = (perform heap true walk task).map erase := by
  cases task with
  | visit value d => exact visit_erase walk d value
  | arrayItem source index target =>
    rw [JsonWalkTask.erase, perform, perform]
    cases (heap source).own (.index index) <;> rfl
  | objectProperty source key target => rfl
  | leave source => rfl

/-- **A walk that copies nothing takes the same turns.** -/
theorem run_erase (fuel : ℕ) : ∀ walk : JsonWalk Ref, run heap false fuel walk.erase =
    (run heap true fuel walk).map (Option.map fun _ ↦ { targets := [], root := none }) := by
  induction fuel with
  | zero => exact fun _ ↦ rfl
  | succ fuel ih =>
    rintro ⟨tasks, ancestors, snapshot⟩
    cases tasks with
    | nil => rfl
    | cons task tasks =>
      have hperform : perform heap false _ _ = _ := perform_erase ⟨tasks, ancestors, snapshot⟩ task
      rw [run, run]
      simp only [erase, List.map_cons] at hperform ⊢
      rw [hperform]
      cases perform heap true ⟨tasks, ancestors, snapshot⟩ task with
      | none => rfl
      | some next => exact ih next

end JsonWalk

/-! ## The gate -/

/-- With turns enough, `f` returns `a`. -/
def Returns {α : Type} (f : ℕ → Option α) (a : α) : Prop := ∃ fuel, ∀ more, f (fuel + more) = some a

theorem Returns.map {α β : Type} {f : ℕ → Option α} {a : α} (h : Returns f a) (g : α → β) :
    Returns (fun fuel ↦ (f fuel).map g) (g a) := by
  obtain ⟨fuel, hfuel⟩ := h
  exact ⟨fuel, fun more ↦ congrArg (Option.map g) (hfuel more)⟩

theorem isJsonValue_eq (heap : Heap Ref) (fuel : ℕ) (value : JsValue Ref) :
    isJsonValue heap fuel value = (walkJsonValue heap true fuel value).map Option.isSome := by
  have hrun : JsonWalk.run heap false fuel _ = _ := JsonWalk.run_erase fuel (.start true value)
  rw [isJsonValue, walkJsonValue, walkJsonValue, show JsonWalk.start false value =
    (JsonWalk.start true value).erase from rfl, hrun, Option.map_map]
  refine congrArg (fun f ↦ Option.map f _) (funext fun result ↦ ?_)
  cases result <;> rfl

/-- The walk returns a snapshot of what the value unfolds to, or meets a flaw. -/
theorem walkJsonValue_returns [Fintype Ref] (heap : Heap Ref) (value : JsValue Ref) :
    ∃ result, Returns (walkJsonValue heap true · value) result ∧
      ((∃ targets root j, result = some ⟨targets, some root⟩ ∧
          Unfolds (LosslessShape heap) value j ∧
          Unfolds (SnapshotShape (targets[·]?)) root j) ∨
        result = none ∧ Flawed (LosslessShape heap) value) := by
  have hvisit : JsonWalk.Succeeds heap _ _ _ ∨ _ :=
    JsonWalk.visits ⟨[], ∅, ⟨[], none⟩⟩ .root value trivial
  rcases hvisit with
    ⟨j, item, ts, hunfolds, hcopies, n, hleads⟩ | ⟨⟨n, hgives⟩, hflawed⟩
  · refine ⟨some ⟨ts, some item⟩, ⟨n + 1, fun more ↦ ?_⟩,
      .inl ⟨ts, item, j, rfl, hunfolds, ?_⟩⟩
    · rw [Nat.add_assoc, Nat.add_comm 1]
      exact hleads (more + 1)
    · refine unfolds_snapshot_mono (fun id t ht ↦ ?_) hcopies
      simpa [placed] using ht
  · exact ⟨none, ⟨n, hgives⟩, .inr ⟨rfl, hflawed nofun⟩⟩

/-- **The gate lets through what unfolds, and a snapshot is the unfolding.** -/
theorem losslessJson_gate [Fintype Ref] (heap : Heap Ref) (value : JsValue Ref) :
    ∃ accepted snapshot,
      Returns (isJsonValue heap · value) accepted ∧
      Returns (snapshotJsonValue heap · value) snapshot ∧
      (accepted = true ↔ ∃ j, Unfolds (LosslessShape heap) value j) ∧
      (accepted = true ↔ ¬ Flawed (LosslessShape heap) value) ∧
      (snapshot = none ↔ accepted = false) ∧
      ∀ targets root, snapshot = some (targets, root) → ∃ j,
        Unfolds (LosslessShape heap) value j ∧ Unfolds (SnapshotShape (targets[·]?)) root j := by
  obtain ⟨result, hwalk, hresult⟩ := walkJsonValue_returns heap value
  have hisJson : Returns (isJsonValue heap · value) result.isSome := by
    simp only [isJsonValue_eq]
    exact hwalk.map Option.isSome
  refine ⟨_, _, hisJson, hwalk.map _, ?_⟩
  rcases hresult with ⟨targets, root, j, rfl, hunfolds, hcopy⟩ | ⟨rfl, hflawed⟩
  · refine ⟨iff_of_true rfl ⟨j, hunfolds⟩,
      iff_of_true rfl (hunfolds.not_flawed losslessShape_unique), by simp,
      fun targets' root' h ↦ ?_⟩
    cases h
    exact ⟨j, hunfolds, hcopy⟩
  · refine ⟨iff_of_false nofun fun ⟨j, hj⟩ ↦ hj.not_flawed losslessShape_unique hflawed,
      iff_of_false nofun (not_not.mpr hflawed), by simp, nofun⟩

end XxAgent
