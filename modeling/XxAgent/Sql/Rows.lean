import Mathlib.Data.List.Count
import Mathlib.Data.List.Nodup
import Mathlib.Data.List.Range
import Mathlib.Data.Set.Insert

/-!
# Rows of a table

A table is the list of its rows. `UPDATE ... WHERE` changes the rows that match, and tells how many
there were; where a key is unique and the condition determines the key, that is one at most.
-/

namespace Sql

variable {α κ : Type*} {key : α → κ} {rows : List α} {p : α → Bool} {f : α → α}

/-- `UPDATE ... SET f WHERE p` -/
def update (p : α → Bool) (f : α → α) (rows : List α) : List α :=
  rows.map fun row ↦ if p row then f row else row

/-- `rowcount` of an update. -/
def rowcount (p : α → Bool) (rows : List α) : ℕ := rows.countP p

/-- The key is unique. -/
def Keyed (key : α → κ) (rows : List α) : Prop := (rows.map key).Nodup

theorem Keyed.eq_of_mem (h : Keyed key rows) {row row' : α} (hrow : row ∈ rows)
    (hrow' : row' ∈ rows) (heq : key row = key row') : row = row' :=
  List.inj_on_of_nodup_map h hrow hrow' heq

theorem mem_update {row' : α} :
    row' ∈ update p f rows ↔ ∃ row ∈ rows, (if p row then f row else row) = row' :=
  List.mem_map

/-- An update that keeps the key keeps it unique. -/
theorem map_key_update (hkey : ∀ row ∈ rows, p row = true → key (f row) = key row) :
    (update p f rows).map key = rows.map key := by
  rw [update, List.map_map]
  refine List.map_congr_left fun row hrow ↦ ?_
  rw [Function.comp_apply]
  split_ifs with hp
  · exact hkey row hrow hp
  · rfl

theorem Keyed.update (h : Keyed key rows)
    (hkey : ∀ row ∈ rows, p row = true → key (f row) = key row) :
    Keyed key (Sql.update p f rows) := by
  rw [Keyed, map_key_update hkey]
  exact h

/-- Where nothing matches nothing changes. -/
theorem update_of_rowcount_eq_zero (h : rowcount p rows = 0) : update p f rows = rows := by
  rw [rowcount, List.countP_eq_zero] at h
  refine (List.map_congr_left fun row hrow ↦ ?_).trans (List.map_id rows)
  rw [if_neg (h row hrow), id]

/-- What determines the key matches once at most. -/
theorem rowcount_eq_one (h : Keyed key rows) {row : α} (hrow : row ∈ rows) (hp : p row = true)
    (hother : ∀ row' ∈ rows, p row' = true → key row' = key row) : rowcount p rows = 1 := by
  induction rows with
  | nil => simp at hrow
  | cons first rows ih =>
    rw [Keyed, List.map_cons, List.nodup_cons] at h
    rcases List.mem_cons.mp hrow with rfl | hrest
    · rw [rowcount, List.countP_cons_of_pos hp, List.countP_eq_zero.mpr]
      intro row' hrow' hp'
      exact h.1 (hother row' (List.mem_cons_of_mem _ hrow') hp' ▸ List.mem_map_of_mem hrow')
    · have hfirst : p first ≠ true := fun hp' ↦
        h.1 (hother first List.mem_cons_self hp' ▸ List.mem_map_of_mem hrest)
      rw [rowcount, List.countP_cons_of_neg hfirst]
      exact ih h.2 hrest fun row' hrow' ↦ hother row' (List.mem_cons_of_mem _ hrow')

/-- With a unique key an update of one row is the update of the row with this key. -/
theorem update_eq_of_key [DecidableEq κ] (h : Keyed key rows) {row : α} (hrow : row ∈ rows)
    (hp : p row = true) (hother : ∀ row' ∈ rows, p row' = true → key row' = key row) :
    update p f rows = update (fun row' ↦ key row' = key row) (fun _ ↦ f row) rows := by
  refine List.map_congr_left fun row' hrow' ↦ ?_
  by_cases hp' : p row' = true
  · have heq : row' = row := h.eq_of_mem hrow' hrow (hother row' hrow' hp')
    subst heq
    simp [hp]
  · rw [if_neg hp', if_neg]
    simp only [decide_eq_true_iff]
    intro heq
    exact hp' (h.eq_of_mem hrow' hrow heq ▸ hp)

theorem Keyed.concat (h : Keyed key rows) {row : α} (hfresh : ∀ row' ∈ rows, key row' ≠ key row) :
    Keyed key (rows ++ [row]) := by
  rw [Keyed, List.map_append, List.map_singleton, List.nodup_append]
  refine ⟨h, List.nodup_singleton _, ?_⟩
  intro k hk k' hk' heq
  obtain ⟨row', hrow', rfl⟩ := List.mem_map.mp hk
  rw [List.mem_singleton] at hk'
  exact hfresh row' hrow' (heq.trans hk')

/-- `SELECT ... WHERE`, of one row. -/
theorem mem_of_select {q : α → Prop} [DecidablePred q] {row : α}
    (h : rows.find? (fun row ↦ decide (q row)) = some row) : row ∈ rows ∧ q row :=
  ⟨List.mem_of_find?_eq_some h, by simpa using List.find?_some h⟩

/-- A condition that determines the key selects the row with this key. -/
theorem Keyed.find?_eq (h : Keyed key rows) {row : α} (hrow : row ∈ rows) (hp : p row = true)
    (hother : ∀ row' ∈ rows, p row' = true → key row' = key row) : rows.find? p = some row := by
  cases hfind : rows.find? p with
  | none => exact absurd hp (List.find?_eq_none.mp hfind row hrow)
  | some found =>
    have hfound := List.mem_of_find?_eq_some hfind
    rw [h.eq_of_mem hfound hrow (hother found hfound (List.find?_some hfind))]

/-- A selection that the updated rows match neither before nor after. -/
theorem find?_update {q : α → Bool}
    (h : ∀ row ∈ rows, p row = true → q row = false ∧ q (f row) = false) :
    (update p f rows).find? q = rows.find? q := by
  induction rows with
  | nil => rfl
  | cons row rows ih =>
    have hrest := ih fun row' hrow' ↦ h row' (List.mem_cons_of_mem _ hrow')
    rw [update] at hrest ⊢
    rw [List.map_cons]
    split_ifs with hp
    · obtain ⟨hbefore, hafter⟩ := h row List.mem_cons_self hp
      rw [List.find?_cons_of_neg (by simp [hafter]), List.find?_cons_of_neg (by simp [hbefore])]
      exact hrest
    · by_cases hq : q row = true
      · rw [List.find?_cons_of_pos hq, List.find?_cons_of_pos hq]
      · rw [List.find?_cons_of_neg hq, List.find?_cons_of_neg hq]
        exact hrest

/-- An inserted row that a selection does not match. -/
theorem find?_concat {q : α → Bool} {row : α} (h : q row = false) :
    (rows ++ [row]).find? q = rows.find? q := by
  rw [List.find?_append, List.find?_singleton, h]
  simp

/-- `SELECT ... WHERE key = ...` -/
theorem find?_of_mem [DecidableEq κ] (h : Keyed key rows) {row : α} (hrow : row ∈ rows) :
    rows.find? (fun row' ↦ key row' = key row) = some row :=
  h.find?_eq hrow (decide_eq_true rfl) fun _ _ hkey ↦ of_decide_eq_true hkey

theorem Keyed.filter_eq [DecidableEq κ] (h : Keyed key rows) {row : α} (hrow : row ∈ rows) :
    rows.filter (fun row' ↦ key row' = key row) = [row] := by
  induction rows with
  | nil => simp at hrow
  | cons first rows ih =>
    rw [Keyed, List.map_cons, List.nodup_cons] at h
    rcases List.mem_cons.mp hrow with rfl | hrest
    · rw [List.filter_cons_of_pos (by simp), List.filter_eq_nil_iff.mpr]
      intro row' hrow' hkey
      exact h.1 (of_decide_eq_true hkey ▸ List.mem_map_of_mem hrow')
    · rw [List.filter_cons_of_neg, ih h.2 hrest]
      intro hkey
      exact h.1 (of_decide_eq_true hkey ▸ List.mem_map_of_mem hrest)

/-- Writing a row over itself. -/
theorem update_self [DecidableEq κ] (h : Keyed key rows) {row : α} (hrow : row ∈ rows) :
    update (fun row' ↦ key row' = key row) (fun _ ↦ row) rows = rows := by
  refine (List.map_congr_left fun row' hrow' ↦ ?_).trans (List.map_id rows)
  split_ifs with hkey
  · exact (h.eq_of_mem hrow' hrow (of_decide_eq_true hkey)).symm
  · rfl

/-- The row with a key is written over. -/
theorem mem_replace [DecidableEq κ] (key : α → κ) {row other : α}
    (h : ∃ old ∈ rows, key old = key row) :
    other ∈ update (fun row' ↦ decide (key row' = key row)) (fun _ ↦ row) rows ↔
      other = row ∨ other ∈ rows ∧ key other ≠ key row := by
  rw [mem_update]
  constructor
  · rintro ⟨old, hold, rfl⟩
    split_ifs with hkey
    · exact Or.inl rfl
    · exact Or.inr ⟨hold, fun heq ↦ hkey (decide_eq_true heq)⟩
  · rintro (rfl | ⟨hother, hne⟩)
    · obtain ⟨old, hold, hkey⟩ := h
      exact ⟨old, hold, if_pos (decide_eq_true hkey)⟩
    · exact ⟨other, hother, if_neg fun hkey ↦ hne (of_decide_eq_true hkey)⟩

/-- Rows that are changed so that they do not match any more. -/
theorem rowcount_update_lt {q : α → Bool}
    (hchanged : ∀ row ∈ rows, p row = true → q (f row) = false)
    (hrow : ∃ row ∈ rows, p row = true ∧ q row = true) :
    rowcount q (update p f rows) < rowcount q rows := by
  have hle (rows : List α) (hchanged : ∀ row ∈ rows, p row = true → q (f row) = false) :
      rowcount q (update p f rows) ≤ rowcount q rows := by
    rw [rowcount, rowcount, update, List.countP_map]
    refine List.countP_mono_left fun row hrow hq ↦ ?_
    rw [Function.comp_apply] at hq
    split_ifs at hq with hp
    · rw [hchanged row hrow hp] at hq
      simp at hq
    · exact hq
  obtain ⟨row, hrow, hp, hq⟩ := hrow
  obtain ⟨front, back, rfl⟩ := List.append_of_mem hrow
  have hfront := hle front fun row hrow ↦ hchanged row (List.mem_append_left _ hrow)
  have hback := hle back fun row hrow ↦
    hchanged row (List.mem_append_right _ (List.mem_cons_of_mem _ hrow))
  have hnot : ¬ q (f row) = true := by simp [hchanged row (by simp) hp]
  rw [rowcount, update] at hfront hback ⊢
  rw [List.map_append, List.map_cons, if_pos hp, rowcount, List.countP_append, List.countP_append,
    List.countP_cons_of_neg hnot, List.countP_cons_of_pos hq]
  rw [rowcount] at hfront hback
  omega

/-!
## The newest entry

Entries are numbered as they are allocated and become ready in any order. A pointer that only moves
to a greater entry points to the greatest of those that are ready, whatever the order.
-/

/-! ## Numbers -/

/-- The numbers `1, 2, 3, ...` in order. -/
def Numbered (numbers : List ℕ) : Prop := numbers = List.range' 1 numbers.length

theorem numbered_nil : Numbered [] := rfl

theorem foldr_max_range' (n : ℕ) : (List.range' 1 n).foldr max 0 = n := by
  induction n with
  | zero => rfl
  | succ n ih =>
    have hadd (numbers : List ℕ) (m : ℕ) :
        numbers.foldr max m = max (numbers.foldr max 0) m := by
      induction numbers with
      | nil => simp
      | cons first rest ihrest => rw [List.foldr_cons, List.foldr_cons, ihrest, max_assoc]
    rw [List.range'_concat, List.foldr_append, hadd, ih]
    simp
    omega

/-- The next number is one more than the greatest. -/
theorem Numbered.concat {numbers : List ℕ} (h : Numbered numbers) :
    Numbered (numbers ++ [numbers.foldr max 0 + 1]) := by
  have hnext : numbers.foldr max 0 + 1 = 1 + 1 * numbers.length := by
    rw [h, foldr_max_range', List.length_range']
    omega
  rw [Numbered, hnext, List.length_append, List.length_singleton, List.range'_concat, ← h]

/-! ## Pointers -/

variable {α β : Type*} [LinearOrder β] {rank : α → β} {ready : Set α} {current : Option α} {a : α}

/-- The pointer points to the greatest of the ready entries, where there is one. -/
def IsNewest (rank : α → β) (ready : Set α) : Option α → Prop
  | none => ready = ∅
  | some a => a ∈ ready ∧ ∀ b ∈ ready, rank b ≤ rank a

/-- The pointer only moves to a greater entry. -/
def newer (rank : α → β) (current : Option α) (a : α) : Option α :=
  if ∀ b ∈ current, rank b < rank a then some a else current

/-- **One more entry becomes ready.** -/
theorem IsNewest.insert (h : IsNewest rank ready current) (a : α) :
    IsNewest rank (Insert.insert a ready) (newer rank current a) := by
  rw [newer]
  split_ifs with hgreater
  · refine ⟨Set.mem_insert a ready, fun b hb ↦ ?_⟩
    rcases hb with rfl | hb
    · exact le_rfl
    · cases current with
      | none => exact absurd (h ▸ hb : b ∈ (∅ : Set α)) (Set.notMem_empty b)
      | some c => exact (h.2 b hb).trans (hgreater c rfl).le
  · cases current with
    | none => simp at hgreater
    | some c =>
      have hle : rank a ≤ rank c := by simpa using hgreater
      refine ⟨Set.mem_insert_of_mem a h.1, fun b hb ↦ ?_⟩
      rcases hb with rfl | hb
      · exact hle
      · exact h.2 b hb

theorem IsNewest.isSome_iff (h : IsNewest rank ready current) :
    current.isSome ↔ ready.Nonempty := by
  cases current with
  | none =>
    have hempty : ready = ∅ := h
    simp [hempty]
  | some c => simpa using ⟨c, h.1⟩

end Sql
