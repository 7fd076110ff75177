import XxAgent.Ecma.Json

/-!
# Unfolding a graph of values

Values that refer to one another need not be a tree: two may share a part, and one may come round to
itself. What a reader sees of a value is its `Shape`, the parts still values of the graph. A value
unfolds to a JSON value if one follows the parts to the end, and that is possible exactly where no
part without a shape is reached and no part that comes back to itself (`Unfolds.not_flawed`).
Sharing is no obstacle; a shared part is unfolded once for each way to it.
-/

namespace Ecma

/-- A value without parts. -/
inductive Scalar where
  | null
  | bool (b : Bool)
  | num (x : Number)
  | str (s : JsString)

/-- The JSON value a scalar is. -/
def Scalar.json : Scalar → Json
  | .null => .null
  | .bool b => .bool b
  | .num x => .num x
  | .str s => .str s

/-- What is seen of a value at once. -/
inductive Shape (α : Type*) where
  | scalar (s : Scalar)
  | array (elements : List α)
  | record (members : List (JsString × α))

namespace Shape

variable {α : Type*}

/-- The parts. -/
def parts : Shape α → List α
  | .scalar _ => []
  | .array elements => elements
  | .record members => members.map Prod.snd

/-- The JSON value of this shape, given those of its parts. -/
inductive Json : Shape α → List Ecma.Json → Ecma.Json → Prop where
  | scalar (s : Scalar) : Json (.scalar s) [] s.json
  | array {elements : List α} (xs : List Ecma.Json) : Json (.array elements) xs (.arr xs)
  | record {members : List (JsString × α)} {fs : Fields} (h : members.map Prod.fst = keys fs) :
    Json (.record members) (fs.map Prod.snd) (.obj fs)

end Shape

variable {α β : Type*}

/-- Following the parts of `v` to the end gives `j`. -/
inductive Unfolds (view : α → Shape α → Prop) : α → Json → Prop where
  | intro {v : α} {sh : Shape α} {js : List Json} {j : Json} (h : view v sh) (hj : sh.Json js j)
    (hlength : sh.parts.length = js.length) (hparts : ∀ p ∈ sh.parts.zip js, Unfolds view p.1 p.2) :
    Unfolds view v j

/-- `w` is a part of `v`. -/
def IsPart (view : α → Shape α → Prop) (w v : α) : Prop := ∃ sh, view v sh ∧ w ∈ sh.parts

/-- From `v` one comes to a value that has no shape, or to one that is inside itself. -/
def Flawed (view : α → Shape α → Prop) (v : α) : Prop :=
  ∃ w, Relation.ReflTransGen (IsPart view) w v ∧
    ((∀ sh, ¬ view w sh) ∨ Relation.TransGen (IsPart view) w w)

variable {view : α → Shape α → Prop}

theorem Flawed.of_part {v w : α} (hpart : IsPart view w v) (h : Flawed view w) :
    Flawed view v := by
  obtain ⟨u, hu, hflaw⟩ := h
  exact ⟨u, .tail hu hpart, hflaw⟩

/-! ## Values that unfold -/

/-- In a list that is paired with one as long, everything has a partner. -/
private theorem exists_partner {as : List α} {bs : List β} (hlength : as.length = bs.length) {a : α}
    (h : a ∈ as) : ∃ b, (a, b) ∈ as.zip bs := by
  obtain ⟨i, hi, rfl⟩ := List.mem_iff_getElem.mp h
  refine ⟨bs[i], List.mem_iff_getElem.mpr ⟨i, ?_, ?_⟩⟩
  · rw [List.length_zip]
    omega
  · rw [List.getElem_zip]

/-- The parts of a value that unfolds unfold. -/
theorem Unfolds.part (hview : Relator.RightUnique view) {v w : α} {j : Json}
    (h : Unfolds view v j) (hpart : IsPart view w v) : ∃ k, Unfolds view w k := by
  obtain ⟨sh', hsh', hw⟩ := hpart
  cases h with
  | intro hsh _ hlength hparts =>
    rw [hview hsh' hsh] at hw
    obtain ⟨k, hk⟩ := exists_partner hlength hw
    exact ⟨k, hparts _ hk⟩

/-- A value that unfolds comes to an end. -/
theorem Unfolds.acc (hview : Relator.RightUnique view) {v : α} {j : Json} (h : Unfolds view v j) :
    Acc (IsPart view) v := by
  induction h with
  | intro hsh _ hlength _ ih =>
    refine ⟨_, fun w hw ↦ ?_⟩
    obtain ⟨sh', hsh', hmem⟩ := hw
    rw [hview hsh' hsh] at hmem
    obtain ⟨k, hk⟩ := exists_partner hlength hmem
    exact ih _ hk

theorem Unfolds.inside (hview : Relator.RightUnique view) {v w : α} {j : Json}
    (h : Unfolds view v j) (hreach : Relation.ReflTransGen (IsPart view) w v) :
    ∃ k, Unfolds view w k := by
  induction hreach using Relation.ReflTransGen.head_induction_on with
  | refl => exact ⟨j, h⟩
  | head hpart _ ih =>
    obtain ⟨k, hk⟩ := ih
    exact hk.part hview hpart

/-- **What unfolds has no flaw anywhere.** -/
theorem Unfolds.not_flawed (hview : Relator.RightUnique view) {v : α} {j : Json}
    (h : Unfolds view v j) : ¬ Flawed view v := by
  rintro ⟨w, hreach, hflaw⟩
  obtain ⟨k, hk⟩ := h.inside hview hreach
  rcases hflaw with hnone | hcycle
  · cases hk with
    | intro hsh => exact hnone _ hsh
  · have hacc := (hk.acc hview).transGen
    clear hk hreach
    induction hacc with
    | intro _ _ ih => exact ih _ hcycle hcycle

/-- Where everything that is reached is seen alike, the unfolding is the same. -/
theorem Unfolds.mono {view' : α → Shape α → Prop} {P : α → Prop}
    (hP : ∀ v sh, P v → view v sh → view' v sh ∧ ∀ w ∈ sh.parts, P w) {v : α} {j : Json}
    (h : Unfolds view v j) (hv : P v) : Unfolds view' v j := by
  induction h with
  | intro hsh hj hlength _ ih =>
    obtain ⟨hsh', hparts⟩ := hP _ _ hv hsh
    exact .intro hsh' hj hlength fun p hp ↦ ih p hp (hparts _ (List.of_mem_zip hp).1)

end Ecma
