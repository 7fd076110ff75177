import Mathlib.Data.List.Nodup
import Mathlib.Data.List.Perm.Basic

/-!
# Insertion-ordered maps

`Map`, which enumerates its entries in the order in which their keys were first set. Setting a key
that is there keeps its place. No key occurs twice, and the structure says so.
-/

namespace Ecma

/-- A `Map`. -/
structure OrderedMap (κ ν : Type*) where
  /-- The entries, in enumeration order. -/
  entries : List (κ × ν)
  nodup : (entries.map Prod.fst).Nodup

namespace OrderedMap

variable {κ ν : Type*}

/-- `new Map()`. -/
def empty : OrderedMap κ ν := ⟨[], List.nodup_nil⟩

@[simp] theorem entries_empty : (empty : OrderedMap κ ν).entries = [] := rfl

variable [DecidableEq κ]

/-- The entries after a key is set. -/
def setEntry (k : κ) (v : ν) : List (κ × ν) → List (κ × ν)
  | [] => [(k, v)]
  | p :: es => if p.1 = k then (k, v) :: es else p :: setEntry k v es

theorem keys_setEntry (k : κ) (v : ν) (es : List (κ × ν)) :
    (setEntry k v es).map Prod.fst
      = if k ∈ es.map Prod.fst then es.map Prod.fst else es.map Prod.fst ++ [k] := by
  induction es with
  | nil => rfl
  | cons p es ih =>
    rw [setEntry]
    by_cases hk : p.1 = k
    · simp [hk]
    · have hk' : ¬ k = p.1 := fun h ↦ hk h.symm
      rw [if_neg hk, List.map_cons, ih]
      by_cases hmem : k ∈ es.map Prod.fst
      · rw [if_pos hmem, List.map_cons, if_pos (List.mem_cons_of_mem _ hmem)]
      · rw [if_neg hmem, List.map_cons, if_neg (by simpa [hk'] using hmem), List.cons_append]

theorem mem_setEntry {k l : κ} {v w : ν} {es : List (κ × ν)} (hnd : (es.map Prod.fst).Nodup) :
    (l, w) ∈ setEntry k v es ↔ l = k ∧ w = v ∨ l ≠ k ∧ (l, w) ∈ es := by
  induction es with
  | nil =>
    rw [setEntry, List.mem_singleton, Prod.mk.injEq]
    simp
  | cons p es ih =>
    rw [List.map_cons, List.nodup_cons] at hnd
    rw [setEntry]
    by_cases hk : p.1 = k
    · rw [if_pos hk, List.mem_cons, List.mem_cons, Prod.mk.injEq]
      have hrest : (l, w) ∈ es → l ≠ k := by
        rintro hmem rfl
        exact hnd.1 (hk ▸ List.mem_map.mpr ⟨_, hmem, rfl⟩)
      have hhead : (l, w) = p → l = k := by
        rintro rfl
        exact hk
      constructor
      · rintro (hnew | hmem)
        · exact .inl hnew
        · exact .inr ⟨hrest hmem, .inr hmem⟩
      · rintro (hnew | ⟨hne, hp | hmem⟩)
        · exact .inl hnew
        · exact absurd (hhead hp) hne
        · exact .inr hmem
    · rw [if_neg hk, List.mem_cons, List.mem_cons, ih hnd.2]
      have hhead : (l, w) = p → l ≠ k := by
        rintro rfl
        exact hk
      constructor
      · rintro (hp | hnew | ⟨hne, hmem⟩)
        · exact .inr ⟨hhead hp, .inl hp⟩
        · exact .inl hnew
        · exact .inr ⟨hne, .inr hmem⟩
      · rintro (hnew | ⟨hne, hp | hmem⟩)
        · exact .inr (.inl hnew)
        · exact .inl hp
        · exact .inr (.inr ⟨hne, hmem⟩)

/-- `map.set(k, v)`. -/
def set (m : OrderedMap κ ν) (k : κ) (v : ν) : OrderedMap κ ν where
  entries := setEntry k v m.entries
  nodup := by
    rw [keys_setEntry]
    split_ifs with hk
    · exact m.nodup
    · exact List.nodup_append.mpr ⟨m.nodup, List.nodup_singleton k,
        fun a ha b hb hab ↦ hk (List.mem_singleton.mp hb ▸ hab ▸ ha)⟩

/-- `map.delete(k)`. -/
def delete (m : OrderedMap κ ν) (k : κ) : OrderedMap κ ν where
  entries := m.entries.filter fun p ↦ p.1 ≠ k
  nodup := m.nodup.sublist (List.filter_sublist.map Prod.fst)

/-- `map.get(k)`. -/
def get? (m : OrderedMap κ ν) (k : κ) : Option ν := (m.entries.find? fun p ↦ p.1 = k).map Prod.snd

theorem mem_set {m : OrderedMap κ ν} {k l : κ} {v w : ν} :
    (l, w) ∈ (m.set k v).entries ↔ l = k ∧ w = v ∨ l ≠ k ∧ (l, w) ∈ m.entries :=
  mem_setEntry m.nodup

theorem mem_delete {m : OrderedMap κ ν} {k l : κ} {w : ν} :
    (l, w) ∈ (m.delete k).entries ↔ l ≠ k ∧ (l, w) ∈ m.entries := by
  rw [delete, List.mem_filter, decide_eq_true_iff, and_comm]

theorem mem_of_get? {m : OrderedMap κ ν} {k : κ} {v : ν} (h : m.get? k = some v) :
    (k, v) ∈ m.entries := by
  obtain ⟨p, hp, rfl⟩ := Option.map_eq_some_iff.mp h
  have hk : decide (p.1 = k) = true := List.find?_some (p := fun q : κ × ν ↦ decide (q.1 = k)) hp
  rw [← of_decide_eq_true hk]
  exact List.mem_of_find?_eq_some hp

theorem get?_eq_some_iff {m : OrderedMap κ ν} {k : κ} {v : ν} :
    m.get? k = some v ↔ (k, v) ∈ m.entries := by
  refine ⟨mem_of_get?, fun h ↦ ?_⟩
  have hfound : ((m.entries.find? fun p ↦ p.1 = k).map Prod.snd).isSome := by
    rw [Option.isSome_map, List.find?_isSome]
    exact ⟨_, h, by simp⟩
  obtain ⟨w, hw⟩ := Option.isSome_iff_exists.mp hfound
  have hsame := List.inj_on_of_nodup_map m.nodup h (mem_of_get? hw) rfl
  rw [get?, hw, (Prod.mk.inj hsame).2]

theorem get?_set (m : OrderedMap κ ν) (k l : κ) (v : ν) :
    (m.set k v).get? l = if l = k then some v else m.get? l := by
  ext w
  rw [get?_eq_some_iff, mem_set]
  split_ifs with hk
  · simp [hk, eq_comm]
  · simp [hk, get?_eq_some_iff]

theorem get?_delete (m : OrderedMap κ ν) (k l : κ) :
    (m.delete k).get? l = if l = k then none else m.get? l := by
  ext w
  rw [get?_eq_some_iff, mem_delete]
  split_ifs with hk
  · simp [hk]
  · simp [hk, get?_eq_some_iff]

/-- An entry that is deleted is one of the entries. -/
theorem perm_cons_delete {m : OrderedMap κ ν} {k : κ} {v : ν} (h : (k, v) ∈ m.entries) :
    m.entries.Perm ((k, v) :: (m.delete k).entries) := by
  have hnd := m.nodup
  change m.entries.Perm ((k, v) :: m.entries.filter fun p ↦ p.1 ≠ k)
  obtain ⟨before, after, hsplit⟩ := List.append_of_mem h
  rw [hsplit, List.map_append, List.map_cons] at hnd
  obtain ⟨hbefore, hafter⟩ : k ∉ before.map Prod.fst ∧ k ∉ after.map Prod.fst := by
    rw [List.nodup_append, List.nodup_cons] at hnd
    exact ⟨fun hk ↦ hnd.2.2 k hk k List.mem_cons_self rfl, hnd.2.1.1⟩
  have hkeep (es : List (κ × ν)) (hk : k ∉ es.map Prod.fst) :
      (es.filter fun p ↦ p.1 ≠ k) = es := by
    rw [List.filter_eq_self]
    intro p hp
    rw [decide_eq_true_iff]
    rintro rfl
    exact hk (List.mem_map_of_mem hp)
  rw [hsplit, List.filter_append, List.filter_cons_of_neg (by simp), hkeep _ hbefore,
    hkeep _ hafter]
  exact List.perm_middle

/-- A key set anew comes last. -/
theorem entries_set_of_get?_eq_none {m : OrderedMap κ ν} {k : κ} (h : m.get? k = none) (v : ν) :
    (m.set k v).entries = m.entries ++ [(k, v)] := by
  have hmissing : ∀ es : List (κ × ν), (∀ p ∈ es, p.1 ≠ k) → setEntry k v es = es ++ [(k, v)] := by
    intro es hes
    induction es with
    | nil => rfl
    | cons p es ih =>
      rw [setEntry, if_neg (hes p List.mem_cons_self), List.cons_append,
        ih fun q hq ↦ hes q (List.mem_cons_of_mem _ hq)]
  apply hmissing
  rintro ⟨l, w⟩ hp rfl
  exact absurd (h.symm.trans (get?_eq_some_iff.mpr hp)) nofun

/-- Deleting the first entry leaves the others in place. -/
theorem entries_delete_of_head {m : OrderedMap κ ν} {k : κ} {v : ν} {es : List (κ × ν)}
    (h : m.entries = (k, v) :: es) : (m.delete k).entries = es := by
  have hnd := m.nodup
  rw [h, List.map_cons, List.nodup_cons] at hnd
  change m.entries.filter (fun p ↦ p.1 ≠ k) = es
  rw [h, List.filter_cons_of_neg (by simp), List.filter_eq_self]
  intro p hp
  rw [decide_eq_true_iff]
  exact fun hk ↦ hnd.1 (hk ▸ List.mem_map.mpr ⟨p, hp, rfl⟩)

/-- Setting several keys to one value. -/
theorem mem_foldl_set {ks : List κ} {m : OrderedMap κ ν} {l : κ} {v w : ν} :
    (l, w) ∈ (ks.foldl (fun m k ↦ m.set k v) m).entries ↔
      l ∈ ks ∧ w = v ∨ l ∉ ks ∧ (l, w) ∈ m.entries := by
  induction ks generalizing m with
  | nil => simp
  | cons k ks ih =>
    rw [List.foldl_cons, ih, mem_set, List.mem_cons]
    tauto

end OrderedMap

end Ecma
