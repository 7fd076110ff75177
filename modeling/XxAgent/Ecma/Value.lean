import XxAgent.Ecma.Json

/-!
# Reading JSON values

What a program sees when it reads a property that may be missing: `none` is `undefined`. The
predicates are the run-time checks a decoder makes (`typeof`, `Number.isSafeInteger`, an exact set
of keys). The point of `perm_of_hasExactKeys` is that an object which passes the last one is the
object with these properties up to their order, which is how a check becomes an equation.
-/

namespace Ecma

/-- A JSON value, or `undefined`. -/
abbrev Value := Option Json

namespace Value

/-- `value?.k`. -/
def get (k : String) (v : Value) : Value := v.bind (Json.get? k)

/-- `typeof value === 'number'`. -/
def isNumber : Value → Bool
  | some (.num _) => true
  | _ => false

/-- `typeof value === 'string'`. -/
def isString : Value → Bool
  | some (.str _) => true
  | _ => false

/-- `typeof value === 'object' && value !== null`. -/
def isRecord : Value → Bool
  | some (.obj _) => true
  | some (.arr _) => true
  | _ => false

/-- `Array.isArray(value)`. -/
def isArray : Value → Bool
  | some (.arr _) => true
  | _ => false

/-- `Number.isSafeInteger(value)`. -/
def isSafeInteger : Value → Bool
  | some (.num x) => x.isSafeInteger
  | _ => false

/-- The integer a value is; zero where it is none. -/
def toInt : Value → ℤ
  | some (.num x) => x.toInt?.getD 0
  | _ => 0

/-- The elements of an array; none where it is no array. -/
def toList : Value → List Json
  | some (.arr xs) => xs
  | _ => []

/-- A property that is known to be there. -/
def toJson (v : Value) : Json := v.getD .null

/-- `Object.hasOwn(value, k)`. -/
def hasOwn (k : String) (v : Value) : Bool := (v.get k).isSome

/-- Every key of `ks`, and nothing else. The names asked for are never those of an array. -/
def hasExactKeys (ks : List String) : Value → Bool
  | some (.obj fs) => decide (fs.length = ks.length) && ks.all fun k ↦ (fieldOf (js k) fs).isSome
  | _ => false

@[simp] theorem get_some (k : String) (x : Json) : get k (some x) = x.get? k := rfl

@[simp] theorem toJson_some (x : Json) : toJson (some x) = x := rfl

@[simp] theorem toInt_int (n : ℤ) : toInt (some (.num (.int n))) = n := rfl

theorem isNumber_iff {v : Value} : v.isNumber = true ↔ ∃ x, v = some (.num x) := by
  cases v with
  | none => simp [isNumber]
  | some x => cases x <;> simp [isNumber]

theorem isString_iff {v : Value} : v.isString = true ↔ ∃ s, v = some (.str s) := by
  cases v with
  | none => simp [isString]
  | some x => cases x <;> simp [isString]

theorem isSafeInteger_iff {v : Value} :
    v.isSafeInteger = true ↔ ∃ n, v = some (.num (.int n)) ∧ Number.IsSafe n := by
  cases v with
  | none => simp [isSafeInteger]
  | some x =>
    cases x with
    | num x =>
      rw [isSafeInteger, Number.isSafeInteger_iff]
      simp
    | _ => simp [isSafeInteger]

end Value

/-! ## Exact keys -/

/-- With no key twice, the properties are what looking their keys up gives. -/
theorem map_fieldOf_keys {fs : Fields} (hnd : (keys fs).Nodup) :
    (keys fs).map (fun k ↦ (k, Value.toJson (fieldOf k fs))) = fs := by
  rw [keys, List.map_map]
  refine (List.map_congr_left fun p hp ↦ ?_).trans (List.map_id fs)
  rw [Function.comp_apply, fieldOf_of_mem hnd hp]
  rfl

/-- An object that passes an exact-key check has these properties, in some order. -/
theorem perm_of_hasExactKeys {fs : Fields} {ks : List String} (hnd : (keys fs).Nodup)
    (hks : ks.Nodup) (h : Value.hasExactKeys ks (some (.obj fs)) = true) :
    fs.Perm (ks.map fun k ↦ (js k, Value.toJson (fieldOf (js k) fs))) := by
  rw [Value.hasExactKeys, Bool.and_eq_true, decide_eq_true_iff, List.all_eq_true] at h
  obtain ⟨hlen, hall⟩ := h
  have hsub : ks.map js ⊆ keys fs := by
    intro l hl
    obtain ⟨k, hk, rfl⟩ := List.mem_map.mp hl
    obtain ⟨v, hv⟩ := Option.isSome_iff_exists.mp (hall k hk)
    exact List.mem_map.mpr ⟨_, mem_of_fieldOf hv, rfl⟩
  have hinj : Function.Injective js := fun a b hab ↦ js_inj.mp hab
  have hperm : (ks.map js).Perm (keys fs) := by
    refine (List.subperm_of_subset (hks.map hinj) hsub).perm_of_length_le ?_
    rw [keys, List.length_map, List.length_map, hlen]
  have hmap := hperm.symm.map fun k ↦ (k, Value.toJson (fieldOf k fs))
  rwa [map_fieldOf_keys hnd, List.map_map] at hmap

/-- A key that is not asked for is not there. -/
theorem fieldOf_eq_none_of_hasExactKeys {fs : Fields} {ks : List String} (hnd : (keys fs).Nodup)
    (hks : ks.Nodup) (h : Value.hasExactKeys ks (some (.obj fs)) = true) {k : String}
    (hk : k ∉ ks) : fieldOf (js k) fs = none := by
  rw [fieldOf_eq_none_iff]
  intro hc
  have hmem := ((perm_of_hasExactKeys hnd hks h).map Prod.fst).mem_iff.mp hc
  rw [List.map_map] at hmem
  obtain ⟨l, hl, hlk⟩ := List.mem_map.mp hmem
  exact hk (js_inj.mp hlk ▸ hl)

/-- An exact-key check on a value says that it is an object. -/
theorem exists_obj_of_hasExactKeys {v : Value} {ks : List String}
    (h : v.hasExactKeys ks = true) : ∃ fs, v = some (.obj fs) := by
  cases v with
  | none => simp [Value.hasExactKeys] at h
  | some x => cases x <;> simp [Value.hasExactKeys] at h ⊢

/-! ## Object literals with optional properties -/

/-- An object literal whose undefined properties are left out. -/
def definedFields (l : List (String × Value)) : Fields := l.filterMap fun p ↦ p.2.map (prop p.1)

theorem mem_definedFields {l : List (String × Value)} {p : JsString × Json} :
    p ∈ definedFields l ↔ ∃ k x, (k, some x) ∈ l ∧ p = prop k x := by
  rw [definedFields, List.mem_filterMap]
  constructor
  · rintro ⟨⟨k, v⟩, hmem, hv⟩
    obtain ⟨x, rfl, rfl⟩ := Option.map_eq_some_iff.mp hv
    exact ⟨k, x, hmem, rfl⟩
  · rintro ⟨k, x, hmem, rfl⟩
    exact ⟨(k, some x), hmem, rfl⟩

theorem keys_definedFields_sublist (l : List (String × Value)) :
    (keys (definedFields l)).Sublist (l.map fun p ↦ js p.1) := by
  induction l with
  | nil => exact .slnil
  | cons p l ih =>
    obtain ⟨k, v⟩ := p
    cases v with
    | none => exact ih.cons _
    | some x => exact ih.cons_cons _

theorem nodup_keys_definedFields {l : List (String × Value)} (h : (l.map Prod.fst).Nodup) :
    (keys (definedFields l)).Nodup := by
  refine (keys_definedFields_sublist l).nodup ?_
  rw [show (fun p : String × Value ↦ js p.1) = js ∘ Prod.fst from rfl, ← List.map_map]
  exact h.map fun a b hab ↦ js_inj.mp hab

/-- A property reads as it was given, whether it is there or left out. -/
theorem fieldOf_definedFields {l : List (String × Value)} (h : (l.map Prod.fst).Nodup) {k : String}
    {v : Value} (hk : (k, v) ∈ l) : fieldOf (js k) (definedFields l) = v := by
  cases v with
  | some x =>
    exact fieldOf_of_mem (nodup_keys_definedFields h) (mem_definedFields.mpr ⟨k, x, hk, rfl⟩)
  | none =>
    rw [fieldOf_eq_none_iff]
    intro hc
    obtain ⟨p, hp, hpk⟩ := List.mem_map.mp hc
    obtain ⟨l', x, hmem, rfl⟩ := mem_definedFields.mp hp
    obtain rfl : l' = k := js_inj.mp hpk
    exact absurd (List.inj_on_of_nodup_map h hmem hk rfl) (by simp)

/-- A name that is not given is not there. -/
theorem fieldOf_definedFields_of_not_mem {l : List (String × Value)} {k : String}
    (h : k ∉ l.map Prod.fst) : fieldOf (js k) (definedFields l) = none := by
  rw [fieldOf_eq_none_iff]
  intro hc
  obtain ⟨p, hp, hpk⟩ := List.mem_map.mp hc
  obtain ⟨l', x, hmem, rfl⟩ := mem_definedFields.mp hp
  obtain rfl : l' = k := js_inj.mp hpk
  exact h (List.mem_map.mpr ⟨_, hmem, rfl⟩)

/-- Such a literal is well formed when its names are no array indices. -/
theorem wf_definedFields {l : List (String × Value)} (h : (l.map Prod.fst).Nodup)
    (hidx : ∀ k ∈ l.map Prod.fst, arrayIndex? (js k) = none)
    (hwf : ∀ k x, (k, some x) ∈ l → x.WF) : (Json.obj (definedFields l)).WF := by
  rw [Json.WF]
  refine ⟨orderedKeys_of_forall_not_index (nodup_keys_definedFields h) fun k hk ↦ ?_, ?_⟩
  · obtain ⟨p, hp, rfl⟩ := List.mem_map.mp hk
    obtain ⟨l', x, hmem, rfl⟩ := mem_definedFields.mp hp
    exact hidx l' (List.mem_map.mpr ⟨_, hmem, rfl⟩)
  · rw [Json.wfFields_iff]
    intro p hp
    obtain ⟨l', x, hmem, rfl⟩ := mem_definedFields.mp hp
    exact hwf l' x hmem

/-! ## Key order -/

/-- The keys of an object, in the order in which they are enumerated. -/
def Value.keysOf : Value → List JsString
  | some (.obj fs) => keys fs
  | _ => []

namespace Json.SameValue

end Json.SameValue

end Ecma
