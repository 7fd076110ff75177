import XxAgent.Ecma.JsonText
import XxAgent.Ecma.OrderedMap

/-!
# Objects from entries

`Object.fromEntries` creates the properties one after another. The object enumerates them in its
own order, array indices first; it has the entries it was given.
-/

namespace Ecma

/-! ## Array indices -/

private theorem digitUnit_of_isDigit {u : UInt16} (h : isDigit u = true) :
    digitUnit (u.toNat - 0x30) = u ∧ u.toNat - 0x30 < 10 := by
  rw [isDigit, decide_eq_true_iff] at h
  refine ⟨?_, by omega⟩
  rw [digitUnit, Nat.add_sub_cancel' h.1, UInt16.ofNat_toNat]

/-- An array index is spelled canonically. -/
theorem eq_natText_of_arrayIndex? {k : JsString} {n : ℕ} (h : arrayIndex? k = some n) :
    k = natText n := by
  rw [arrayIndex?] at h
  split_ifs at h with hk
  obtain ⟨hne, hdigits, hzero, -⟩ := hk
  obtain rfl := Option.some.inj h
  rw [List.all_eq_true] at hdigits
  let ds := k.map fun u ↦ u.toNat - 0x30
  have hds : ds.map digitUnit = k := by
    rw [List.map_map]
    exact (List.map_congr_left fun u hu ↦ (digitUnit_of_isDigit (hdigits u hu)).1).trans
      (List.map_id k)
  have hlt : ∀ d ∈ ds, d < 10 := by
    intro d hd
    obtain ⟨u, hu, rfl⟩ := List.mem_map.mp hd
    exact (digitUnit_of_isDigit (hdigits u hu)).2
  have hvalue : digitsValue k = Nat.ofDigits 10 ds.reverse := by
    rw [← digitsValue_map hlt, hds]
  by_cases hk : k = [0x30]
  · rw [hk]
    decide
  · -- Without a leading zero the digits are those of the number.
    obtain ⟨u, rest, rfl⟩ := List.exists_cons_of_ne_nil hne
    have hfirst : u.toNat - 0x30 ≠ 0 := by
      intro hfirst
      have hu := (digitUnit_of_isDigit (hdigits u List.mem_cons_self)).1
      rw [hfirst] at hu
      exact hk (hzero (by rw [← hu]; rfl))
    have hread : Nat.digits 10 (Nat.ofDigits 10 ds.reverse) = ds.reverse := by
      refine Nat.digits_ofDigits 10 (by norm_num) _ (fun d hd ↦ hlt d (List.mem_reverse.mp hd)) ?_
      intro hnil
      rw [List.getLast_reverse]
      exact hfirst
    have hpos : digitsValue (u :: rest) ≠ 0 := by
      intro hnone
      rw [← hvalue, hnone, Nat.digits_zero] at hread
      exact absurd (List.reverse_eq_nil_iff.mp hread.symm) (List.cons_ne_nil _ _)
    rw [natText, if_neg hpos, bigDigits, hvalue, hread, List.reverse_reverse, hds]

theorem arrayIndex?_inj {k l : JsString} {n : ℕ} (hk : arrayIndex? k = some n)
    (hl : arrayIndex? l = some n) : k = l :=
  (eq_natText_of_arrayIndex? hk).trans (eq_natText_of_arrayIndex? hl).symm

/-- Of two keys each precedes the other only if neither is an array index. -/
theorem precedes_of_not_precedes {k l : JsString} (hne : k ≠ l) (h : precedes l k = false) :
    precedes k l = true := by
  rw [precedes] at h ⊢
  cases hk : arrayIndex? k with
  | none => rw [hk] at h; exact absurd h (by simp)
  | some n =>
    rw [hk] at h
    cases hl : arrayIndex? l with
    | none => rfl
    | some m =>
      rw [hl] at h
      dsimp only at h ⊢
      rw [decide_eq_false_iff_not] at h
      rw [decide_eq_true_iff]
      have hdiff : n ≠ m := by
        rintro rfl
        exact hne (arrayIndex?_inj hk hl)
      omega

theorem precedes_trans {a b c : JsString} (hab : precedes a b = true) (hbc : precedes b c = true) :
    precedes a c = true := by
  rw [precedes] at hab hbc ⊢
  cases hc : arrayIndex? c with
  | none => rfl
  | some n =>
    rw [hc] at hbc
    cases hb : arrayIndex? b with
    | none => rw [hb] at hbc; exact absurd hbc (by simp)
    | some m =>
      rw [hb] at hab hbc
      cases ha : arrayIndex? a with
      | none => rw [ha] at hab; exact absurd hab (by simp)
      | some l =>
        rw [ha] at hab
        exact decide_eq_true ((of_decide_eq_true hab).trans (of_decide_eq_true hbc))

/-! ## Creating properties -/

theorem perm_insertField (k : JsString) (v : Json) (fs : Fields) :
    (insertField k v fs).Perm ((k, v) :: fs) := by
  induction fs with
  | nil => exact .refl _
  | cons p fs ih =>
    rw [insertField]
    split_ifs
    · exact (ih.cons p).trans (.swap _ _ _)
    · exact .refl _

theorem orderedKeys_insertField {k : JsString} {v : Json} {fs : Fields}
    (h : OrderedKeys (keys fs)) (hk : k ∉ keys fs) : OrderedKeys (keys (insertField k v fs)) := by
  induction fs with
  | nil => exact List.pairwise_singleton _ _
  | cons p fs ih =>
    rw [keys_cons, List.mem_cons, not_or] at hk
    obtain ⟨hfirst, hrest⟩ := List.pairwise_cons.mp h
    rw [insertField]
    split_ifs with hp
    · refine List.pairwise_cons.mpr ⟨fun l hl ↦ ?_, ih hrest hk.2⟩
      have hmem : l ∈ keys ((k, v) :: fs) := ((perm_insertField k v fs).map Prod.fst).mem_iff.mp hl
      rcases List.mem_cons.mp hmem with rfl | hl
      · exact ⟨fun heq ↦ hk.1 heq.symm, hp⟩
      · exact hfirst l hl
    · have hkp : precedes k p.1 = true := precedes_of_not_precedes hk.1 (by simpa using hp)
      refine List.pairwise_cons.mpr ⟨fun l hl ↦ ?_, h⟩
      rcases List.mem_cons.mp hl with rfl | hl
      · exact ⟨hk.1, hkp⟩
      · refine ⟨?_, precedes_trans hkp (hfirst l hl).2⟩
        rintro rfl
        exact hk.2 hl

theorem keys_setField_of_mem {k : JsString} {v : Json} {fs : Fields} (hk : k ∈ keys fs) :
    keys (setField fs k v) = keys fs := by
  rw [setField, if_pos hk, keys, keys, List.map_map]
  refine List.map_congr_left fun p _ ↦ ?_
  rw [Function.comp_apply]
  split_ifs with hp
  · exact hp.symm
  · rfl

theorem orderedKeys_setField {k : JsString} {v : Json} {fs : Fields} (h : OrderedKeys (keys fs)) :
    OrderedKeys (keys (setField fs k v)) := by
  by_cases hk : k ∈ keys fs
  · rwa [keys_setField_of_mem hk]
  · rw [setField, if_neg hk]
    exact orderedKeys_insertField h hk

theorem orderedKeys_setFields {fs : Fields} (h : OrderedKeys (keys fs)) (gs : Fields) :
    OrderedKeys (keys (setFields fs gs)) := by
  induction gs generalizing fs with
  | nil => exact h
  | cons p gs ih => exact ih (orderedKeys_setField h)

/-- With no key twice the object has the entries it is made of. -/
theorem perm_setFields {fs gs : Fields} (hnd : (keys (fs ++ gs)).Nodup) :
    (setFields fs gs).Perm (fs ++ gs) := by
  induction gs generalizing fs with
  | nil => rw [List.append_nil]; exact .refl _
  | cons p gs ih =>
    have hmove : (fs ++ p :: gs).Perm ((p :: fs) ++ gs) := List.perm_middle
    have hnd' : (keys ((p :: fs) ++ gs)).Nodup := (hmove.map Prod.fst).nodup_iff.mp hnd
    have hk : p.1 ∉ keys fs := by
      rw [List.cons_append, keys_cons, List.nodup_cons, keys_append, List.mem_append] at hnd'
      exact fun hmem ↦ hnd'.1 (.inl hmem)
    have hset : (setField fs p.1 p.2).Perm (p :: fs) := by
      rw [setField, if_neg hk]
      exact perm_insertField p.1 p.2 fs
    have hnext := @ih (setField fs p.1 p.2)
      (((hset.append_right gs).map Prod.fst).nodup_iff.mpr hnd')
    exact (hnext.trans (hset.append_right gs)).trans hmove.symm

/-! ## `Object.fromEntries` and `Object.entries` -/

/-- `Object.fromEntries(map)`. -/
def fromEntries (m : OrderedMap JsString Json) : Fields := setFields [] m.entries

theorem perm_fromEntries (m : OrderedMap JsString Json) : (fromEntries m).Perm m.entries :=
  perm_setFields m.nodup

theorem orderedKeys_fromEntries (m : OrderedMap JsString Json) :
    OrderedKeys (keys (fromEntries m)) :=
  orderedKeys_setFields (show OrderedKeys (keys []) from List.Pairwise.nil) _

theorem fieldOf_eq_get? (m : OrderedMap JsString Json) (k : JsString) :
    fieldOf k m.entries = m.get? k := by
  ext v
  rw [OrderedMap.get?_eq_some_iff]
  exact ⟨mem_of_fieldOf, fieldOf_of_mem m.nodup⟩

theorem fieldOf_fromEntries (m : OrderedMap JsString Json) (k : JsString) :
    fieldOf k (fromEntries m) = m.get? k := by
  rw [← fieldOf_eq_get?]
  exact fieldOf_perm (perm_fromEntries m) (orderedKeys_fromEntries m).nodup k

theorem wf_fromEntries {m : OrderedMap JsString Json} (h : ∀ p ∈ m.entries, p.2.WF) :
    (Json.obj (fromEntries m)).WF := by
  rw [Json.WF, Json.wfFields_iff]
  exact ⟨orderedKeys_fromEntries m, fun p hp ↦ h p ((perm_fromEntries m).mem_iff.mp hp)⟩

/-! ## Maps -/

namespace OrderedMap

variable {κ ν μ : Type*}

/-- The values are replaced in place. -/
def map (f : ν → μ) (m : OrderedMap κ ν) : OrderedMap κ μ where
  entries := m.entries.map fun p ↦ (p.1, f p.2)
  nodup := by
    rw [List.map_map]
    exact m.nodup

theorem eq_of_entries {m n : OrderedMap κ ν} (h : m.entries = n.entries) : m = n := by
  cases m
  cases n
  cases h
  rfl

variable [DecidableEq κ]

theorem get?_map (f : ν → μ) (m : OrderedMap κ ν) (k : κ) :
    (m.map f).get? k = (m.get? k).map f := by
  rw [get?, get?, map, List.find?_map, Option.map_map, Option.map_map]
  rfl

/-- The later of two values of a key is kept. -/
theorem set_set (m : OrderedMap κ ν) (k : κ) (v w : ν) : (m.set k v).set k w = m.set k w := by
  have hentries : ∀ es : List (κ × ν), setEntry k w (setEntry k v es) = setEntry k w es := by
    intro es
    induction es with
    | nil => simp [setEntry]
    | cons p es ih =>
      rw [setEntry, setEntry]
      by_cases hk : p.1 = k
      · rw [if_pos hk, if_pos hk, setEntry, if_pos rfl]
      · rw [if_neg hk, if_neg hk, setEntry, if_neg hk, ih]
  exact eq_of_entries (hentries m.entries)

/-- Setting a key to the value that it has changes nothing. -/
theorem set_of_get? {m : OrderedMap κ ν} {k : κ} {v : ν} (h : m.get? k = some v) :
    m.set k v = m := by
  have hentries : ∀ es : List (κ × ν), (es.map Prod.fst).Nodup → (k, v) ∈ es →
      setEntry k v es = es := by
    intro es hnd hmem
    induction es with
    | nil => cases hmem
    | cons p es ih =>
      rw [List.map_cons, List.nodup_cons] at hnd
      rw [setEntry]
      rcases List.mem_cons.mp hmem with rfl | hmem
      · rw [if_pos rfl]
      · have hk : p.1 ≠ k := by
          rintro rfl
          exact hnd.1 (List.mem_map.mpr ⟨_, hmem, rfl⟩)
        rw [if_neg hk, ih hnd.2 hmem]
  exact eq_of_entries (hentries m.entries m.nodup (mem_of_get? h))

/-- A key set anew and deleted again leaves no trace. -/
theorem delete_set {m : OrderedMap κ ν} {k : κ} (h : m.get? k = none) (v : ν) :
    (m.set k v).delete k = m := by
  have hkeep : m.entries.filter (fun p ↦ p.1 ≠ k) = m.entries := by
    rw [List.filter_eq_self]
    rintro ⟨l, w⟩ hmem
    rw [decide_eq_true_iff]
    rintro rfl
    rw [get?_eq_some_iff.mpr hmem] at h
    cases h
  refine eq_of_entries ?_
  change (m.set k v).entries.filter (fun p ↦ p.1 ≠ k) = m.entries
  rw [entries_set_of_get?_eq_none h, List.filter_append, hkeep]
  simp

/-- A key that is deleted and set again comes last. -/
theorem entries_set_delete (m : OrderedMap κ ν) (k : κ) (v : ν) :
    ((m.delete k).set k v).entries = (m.delete k).entries ++ [(k, v)] :=
  entries_set_of_get?_eq_none (by rw [get?_delete, if_pos rfl]) v

/-- A key that is deleted and set again keeps its place only if it is the last. -/
theorem set_delete_eq_iff {m : OrderedMap κ ν} {k : κ} {v : ν} :
    (m.delete k).set k v = m ↔ m.entries.getLast? = some (k, v) := by
  constructor
  · intro h
    rw [← h, entries_set_delete, List.getLast?_concat]
  · intro h
    obtain ⟨front, hfront⟩ := List.getLast?_eq_some_iff.mp h
    have hnd := m.nodup
    rw [hfront, List.map_append, List.nodup_append] at hnd
    have hkeep : front.filter (fun p ↦ p.1 ≠ k) = front := by
      rw [List.filter_eq_self]
      intro p hp
      rw [decide_eq_true_iff]
      exact hnd.2.2 p.1 (List.mem_map_of_mem hp) k List.mem_cons_self
    have hdelete : (m.delete k).entries = front := by
      change m.entries.filter (fun p ↦ p.1 ≠ k) = front
      rw [hfront, List.filter_append, hkeep]
      simp
    refine eq_of_entries ?_
    rw [entries_set_delete, hdelete, hfront]

/-- `new Map(entries)`. -/
def ofList (es : List (κ × ν)) : OrderedMap κ ν := es.foldl (fun m p ↦ m.set p.1 p.2) empty

private theorem entries_foldl_set {es : List (κ × ν)} {m : OrderedMap κ ν}
    (hnd : (m.entries ++ es).map Prod.fst |>.Nodup) :
    (es.foldl (fun m p ↦ m.set p.1 p.2) m).entries = m.entries ++ es := by
  induction es generalizing m with
  | nil => exact (List.append_nil _).symm
  | cons p es ih =>
    have hsplit : m.entries ++ p :: es = (m.entries ++ [p]) ++ es := by
      rw [List.append_assoc, List.singleton_append]
    have hnone : m.get? p.1 = none := by
      rw [Option.eq_none_iff_forall_ne_some]
      intro v hv
      rw [List.map_append, List.nodup_append] at hnd
      have hmem : p.1 ∈ m.entries.map Prod.fst := List.mem_map.mpr ⟨_, mem_of_get? hv, rfl⟩
      exact hnd.2.2 p.1 hmem p.1 List.mem_cons_self rfl
    have hset : (m.set p.1 p.2).entries = m.entries ++ [p] :=
      entries_set_of_get?_eq_none hnone p.2
    rw [List.foldl_cons, ih (by rwa [hset, ← hsplit]), hset, ← hsplit]

/-- With no key twice the map has the entries it is made of. -/
theorem entries_ofList {es : List (κ × ν)} (hnd : (es.map Prod.fst).Nodup) :
    (ofList es).entries = es :=
  entries_foldl_set hnd

/-- Whatever a map is made of, its entries are among it. -/
theorem mem_ofList {es : List (κ × ν)} {p : κ × ν} (h : p ∈ (ofList es).entries) : p ∈ es := by
  have hfold : ∀ {es : List (κ × ν)} {m : OrderedMap κ ν},
      p ∈ (es.foldl (fun m p ↦ m.set p.1 p.2) m).entries → p ∈ m.entries ∨ p ∈ es := by
    intro es
    induction es with
    | nil => exact fun h ↦ .inl h
    | cons q es ih =>
      intro m h
      rcases ih h with hset | hmem
      · rcases mem_set.mp hset with ⟨hk, hv⟩ | ⟨-, hmem⟩
        · exact .inr (List.mem_cons.mpr (.inl (Prod.ext hk hv)))
        · exact .inl hmem
      · exact .inr (List.mem_cons_of_mem q hmem)
  rcases hfold h with hnone | hmem
  · cases hnone
  · exact hmem

end OrderedMap

/-! ## What is parsed -/

theorem mem_setField {k : JsString} {v : Json} {fs : Fields} {p : JsString × Json}
    (h : p ∈ setField fs k v) : p = (k, v) ∨ p ∈ fs := by
  rw [setField] at h
  split_ifs at h
  · obtain ⟨q, hq, rfl⟩ := List.mem_map.mp h
    split_ifs
    · exact .inl rfl
    · exact .inr hq
  · exact List.mem_cons.mp ((perm_insertField k v fs).mem_iff.mp h)

theorem mem_setFields {fs gs : Fields} {p : JsString × Json} (h : p ∈ setFields fs gs) :
    p ∈ fs ∨ p ∈ gs := by
  induction gs generalizing fs with
  | nil => exact .inl h
  | cons q gs ih =>
    rcases ih h with hset | hmem
    · rcases mem_setField hset with rfl | hmem
      · exact .inr List.mem_cons_self
      · exact .inl hmem
    · exact .inr (List.mem_cons_of_mem q hmem)

/-- An object literal enumerates its keys in order. -/
theorem wf_setFields {gs : Fields} (h : Json.WFFields gs) : (Json.obj (setFields [] gs)).WF := by
  rw [Json.wfFields_iff] at h
  rw [Json.WF, Json.wfFields_iff]
  refine ⟨orderedKeys_setFields (show OrderedKeys (keys []) from List.Pairwise.nil) gs,
    fun p hp ↦ ?_⟩
  rcases mem_setFields hp with hnil | hmem
  · cases hnil
  · exact h p hmem

/-- Whatever is read is well formed. -/
private structure ReadsWF (fuel : ℕ) : Prop where
  value : ∀ {s r : JsString} {v : Json}, parseValue fuel s = some (v, r) → v.WF
  elements : ∀ {s r : JsString} {xs : List Json}, parseElements fuel s = some (xs, r) →
    Json.WFList xs
  members : ∀ {s r : JsString} {fs : Fields}, parseMembers fuel s = some (fs, r) → Json.WFFields fs

private theorem ReadsWF.value_succ {fuel : ℕ} (ih : ReadsWF fuel) {s r : JsString} {v : Json}
    (h : parseValue (fuel + 1) s = some (v, r)) : v.WF := by
  rw [parseValue] at h
  have hliteral {name t : JsString} {w : Json} (hw : w.WF)
      (h : parseLiteral name w t = some (v, r)) : v.WF := by
    rw [parseLiteral] at h
    split_ifs at h
    obtain ⟨rfl, -⟩ := Prod.mk.inj (Option.some.inj h)
    exact hw
  split at h
  case h_1 => cases h
  case h_2 u rest hs =>
    split_ifs at h
    · obtain ⟨p, -, hp⟩ := Option.map_eq_some_iff.mp h
      obtain ⟨rfl, -⟩ := Prod.mk.inj hp
      trivial
    · split at h
      case h_1 => cases h
      case h_2 =>
        split_ifs at h
        · obtain ⟨rfl, -⟩ := Prod.mk.inj (Option.some.inj h)
          trivial
        · obtain ⟨p, hread, hp⟩ := Option.map_eq_some_iff.mp h
          obtain ⟨rfl, -⟩ := Prod.mk.inj hp
          exact ih.elements hread
    · split at h
      case h_1 => cases h
      case h_2 =>
        split_ifs at h
        · obtain ⟨rfl, -⟩ := Prod.mk.inj (Option.some.inj h)
          exact ⟨List.Pairwise.nil, trivial⟩
        · obtain ⟨p, hread, hp⟩ := Option.map_eq_some_iff.mp h
          obtain ⟨rfl, -⟩ := Prod.mk.inj hp
          exact wf_setFields (ih.members hread)
    · exact hliteral (w := .null) trivial h
    · exact hliteral (w := .bool true) trivial h
    · exact hliteral (w := .bool false) trivial h
    · obtain ⟨p, -, hp⟩ := Option.map_eq_some_iff.mp h
      obtain ⟨rfl, -⟩ := Prod.mk.inj hp
      trivial

private theorem ReadsWF.elements_succ {fuel : ℕ} (ih : ReadsWF fuel) {s r : JsString}
    {xs : List Json} (h : parseElements (fuel + 1) s = some (xs, r)) : Json.WFList xs := by
  rw [parseElements] at h
  split at h
  case h_1 => cases h
  case h_2 x rest hx =>
    split at h
    case h_1 => cases h
    case h_2 =>
      split_ifs at h
      · obtain ⟨p, hread, hp⟩ := Option.map_eq_some_iff.mp h
        obtain ⟨rfl, -⟩ := Prod.mk.inj hp
        exact ⟨ih.value hx, ih.elements hread⟩
      · obtain ⟨rfl, -⟩ := Prod.mk.inj (Option.some.inj h)
        exact ⟨ih.value hx, trivial⟩

private theorem ReadsWF.members_succ {fuel : ℕ} (ih : ReadsWF fuel) {s r : JsString} {fs : Fields}
    (h : parseMembers (fuel + 1) s = some (fs, r)) : Json.WFFields fs := by
  rw [parseMembers] at h
  split at h
  case h_1 => cases h
  case h_2 =>
    split at h
    case h_1 => cases h
    case h_2 x rest hx =>
      split at h
      case h_1 => cases h
      case h_2 =>
        split_ifs at h
        · obtain ⟨p, hread, hp⟩ := Option.map_eq_some_iff.mp h
          obtain ⟨rfl, -⟩ := Prod.mk.inj hp
          exact ⟨ih.value hx, ih.members hread⟩
        · obtain ⟨rfl, -⟩ := Prod.mk.inj (Option.some.inj h)
          exact ⟨ih.value hx, trivial⟩

private theorem readsWF (fuel : ℕ) : ReadsWF fuel := by
  induction fuel with
  | zero =>
    refine ⟨fun h ↦ ?_, fun h ↦ ?_, fun h ↦ ?_⟩
    · rw [parseValue] at h
      cases h
    · rw [parseElements] at h
      cases h
    · rw [parseMembers] at h
      cases h
  | succ fuel ih => exact ⟨ih.value_succ, ih.elements_succ, ih.members_succ⟩

/-- **`JSON.parse` gives well-formed values.** -/
theorem wf_of_parse {text : JsString} {v : Json} (h : parse text = some v) : v.WF := by
  rw [parse] at h
  split at h
  case h_1 w rest hread =>
    split_ifs at h
    exact Option.some.inj h ▸ (readsWF _).value hread
  case h_2 => cases h

end Ecma
