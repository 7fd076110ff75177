import XxAgent.Ecma.JsonText

/-!
# Indented JSON text

`JSON.stringify` with an indentation of two: an array or object that is not empty has every
element or member on a line of its own. The reader skips the white space, so the text reads back
like the compact one.
-/

namespace Ecma

/-- A new line at a depth. -/
def lineBreak (depth : ℕ) : JsString := 0x0A :: List.replicate (2 * depth) 0x20

mutual

/-- `JSON.stringify(value, null, 2)`, for a value at a depth. -/
def stringifyAt (depth : ℕ) : Json → JsString
  | .null => js "null"
  | .bool b => if b then js "true" else js "false"
  | .num x => x.text
  | .str s => quote s
  | .arr [] => [lbrack, rbrack]
  | .arr (x :: xs) =>
    lbrack :: (lineBreak (depth + 1) ++ (stringifyAt (depth + 1) x ++ stringifyElementsAt depth xs))
  | .obj [] => [lbrace, rbrace]
  | .obj ((k, x) :: fs) =>
    lbrace :: (lineBreak (depth + 1) ++
      (quote k ++ colon :: 0x20 :: (stringifyAt (depth + 1) x ++ stringifyMembersAt depth fs)))

/-- The elements after the first, and the closing bracket. -/
def stringifyElementsAt (depth : ℕ) : List Json → JsString
  | [] => lineBreak depth ++ [rbrack]
  | x :: xs =>
    comma :: (lineBreak (depth + 1) ++ (stringifyAt (depth + 1) x ++ stringifyElementsAt depth xs))

/-- The members after the first, and the closing brace. -/
def stringifyMembersAt (depth : ℕ) : Fields → JsString
  | [] => lineBreak depth ++ [rbrace]
  | (k, x) :: fs =>
    comma :: (lineBreak (depth + 1) ++
      (quote k ++ colon :: 0x20 :: (stringifyAt (depth + 1) x ++ stringifyMembersAt depth fs)))

end

/-- `JSON.stringify(value, null, 2)`. -/
def stringifyIndented (v : Json) : JsString := stringifyAt 0 v

/-! ## White space -/

theorem skipWs_append_of_forall {w : JsString} (h : ∀ u ∈ w, isWs u = true) (s : JsString) :
    skipWs (w ++ s) = skipWs s := by
  induction w with
  | nil => rfl
  | cons u w ih =>
    rw [List.cons_append, skipWs, List.dropWhile_cons, if_pos (h u List.mem_cons_self)]
    exact ih fun v hv ↦ h v (List.mem_cons_of_mem u hv)

theorem isWs_of_mem_lineBreak {depth : ℕ} {u : UInt16} (h : u ∈ lineBreak depth) :
    isWs u = true := by
  rcases List.mem_cons.mp h with rfl | hspace
  · decide
  · rw [List.eq_of_mem_replicate hspace]
    decide

@[simp] theorem skipWs_lineBreak (depth : ℕ) (s : JsString) :
    skipWs (lineBreak depth ++ s) = skipWs s :=
  skipWs_append_of_forall (fun _ ↦ isWs_of_mem_lineBreak) s

/-- A value is read behind white space. -/
theorem parseValue_of_skipWs {s t : JsString} (h : skipWs s = skipWs t) (fuel : ℕ) :
    parseValue fuel s = parseValue fuel t := by
  cases fuel with
  | zero => rfl
  | succ fuel => rw [parseValue, parseValue, h]

theorem parseKey_of_skipWs {s t : JsString} (h : skipWs s = skipWs t) :
    parseKey s = parseKey t := by
  rw [parseKey, parseKey, h]

theorem noNumHead_lineBreak (depth : ℕ) (s : JsString) : NoNumHead (lineBreak depth ++ s) := by
  rw [lineBreak, List.cons_append]
  refine noNumHead_cons ?_ ?_ ?_ _ <;> decide

theorem noNumHead_stringifyElementsAt (depth : ℕ) (xs : List Json) (r : JsString) :
    NoNumHead (stringifyElementsAt depth xs ++ r) := by
  cases xs with
  | nil =>
    rw [stringifyElementsAt, List.append_assoc]
    exact noNumHead_lineBreak depth _
  | cons x xs =>
    rw [stringifyElementsAt]
    exact noNumHead_of_mem (by simp) _

theorem noNumHead_stringifyMembersAt (depth : ℕ) (fs : Fields) (r : JsString) :
    NoNumHead (stringifyMembersAt depth fs ++ r) := by
  cases fs with
  | nil =>
    rw [stringifyMembersAt, List.append_assoc]
    exact noNumHead_lineBreak depth _
  | cons p fs =>
    rw [stringifyMembersAt]
    exact noNumHead_of_mem (by simp) _

/-! ## The round trip -/

/-- Both texts of a value start alike. -/
theorem head?_stringifyAt (depth : ℕ) (v : Json) :
    (stringifyAt depth v).head? = (stringify v).head? := by
  cases v with
  | null => rfl
  | bool b => rfl
  | num x => rfl
  | str s => rfl
  | arr xs => cases xs <;> rfl
  | obj fs => cases fs <;> rfl

theorem exists_head_stringifyAt (depth : ℕ) (v : Json) : ∃ u t, stringifyAt depth v = u :: t ∧
    isWs u = false ∧ u ≠ rbrack ∧ u ≠ rbrace := by
  obtain ⟨u, t, htext, hhead⟩ := exists_head_stringify v
  have hsame := head?_stringifyAt depth v
  rw [htext, List.head?_cons] at hsame
  exact ⟨u, _, List.eq_cons_of_mem_head? hsame, hhead⟩

/-- Each production reads back what the writer wrote for it. -/
private structure ReadsBackAt (fuel : ℕ) : Prop where
  value : ∀ (depth : ℕ) (v : Json) (r : JsString), v.WF → NoNumHead r →
    (stringifyAt depth v).length ≤ fuel → parseValue fuel (stringifyAt depth v ++ r) = some (v, r)
  elements : ∀ (depth : ℕ) (x : Json) (xs : List Json) (r : JsString), x.WF → Json.WFList xs →
    (stringifyAt (depth + 1) x ++ stringifyElementsAt depth xs).length ≤ fuel →
    parseElements fuel (lineBreak (depth + 1) ++
      (stringifyAt (depth + 1) x ++ (stringifyElementsAt depth xs ++ r))) = some (x :: xs, r)
  members : ∀ (depth : ℕ) (k : JsString) (x : Json) (fs : Fields) (r : JsString), x.WF →
    Json.WFFields fs →
    (quote k ++ (stringifyAt (depth + 1) x ++ stringifyMembersAt depth fs)).length ≤ fuel →
    parseMembers fuel (lineBreak (depth + 1) ++ (quote k ++ colon :: 0x20 ::
      (stringifyAt (depth + 1) x ++ (stringifyMembersAt depth fs ++ r)))) = some ((k, x) :: fs, r)

private theorem ReadsBackAt.value_succ {fuel : ℕ} (ih : ReadsBackAt fuel) (depth : ℕ) (v : Json)
    (r : JsString) (hv : v.WF) (hr : NoNumHead r)
    (hf : (stringifyAt depth v).length ≤ fuel + 1) :
    parseValue (fuel + 1) (stringifyAt depth v ++ r) = some (v, r) := by
  match v, hv with
  | .null, _ => rfl
  | .bool true, _ => rfl
  | .bool false, _ => rfl
  | .num x, _ =>
    rw [stringifyAt]
    exact parseValue_num x fuel hr
  | .str s, _ =>
    rw [stringifyAt, quote, List.cons_append, parseValue, skipWs_cons (by decide)]
    dsimp only
    rw [if_pos rfl, List.append_assoc, List.singleton_append, parseBody_quoteBody, Option.map_some]
  | .arr [], _ =>
    rw [stringifyAt, List.cons_append, List.cons_append, parseValue, skipWs_cons (by decide)]
    rfl
  | .arr (x :: xs), hv =>
    rw [Json.WF, Json.WFList] at hv
    rw [stringifyAt, List.length_cons, List.length_append] at hf
    obtain ⟨w, s, hws, hw, hclose, -⟩ := exists_head_stringifyAt (depth + 1) x
    have hread := ih.elements depth x xs r hv.1 hv.2 (by omega)
    rw [stringifyAt, List.cons_append, parseValue, skipWs_cons (by decide)]
    dsimp only
    rw [if_neg (by decide), if_pos rfl, List.append_assoc, List.append_assoc, skipWs_lineBreak]
    rw [hws] at hread ⊢
    rw [List.cons_append] at hread ⊢
    rw [skipWs_cons hw]
    dsimp only
    rw [if_neg hclose, hread, Option.map_some]
  | .obj [], _ =>
    rw [stringifyAt, List.cons_append, List.cons_append, parseValue, skipWs_cons (by decide)]
    rfl
  | .obj ((k, x) :: fs), hv =>
    have hwf := hv
    rw [Json.WF, Json.WFFields] at hwf
    rw [stringifyAt, List.length_cons, List.length_append, List.length_append, List.length_cons,
      List.length_cons] at hf
    have hread := ih.members depth k x fs r hwf.2.1 hwf.2.2 (by rw [List.length_append]; omega)
    have htext : lineBreak (depth + 1) ++
          (quote k ++ colon :: 0x20 ::
            (stringifyAt (depth + 1) x ++ stringifyMembersAt depth fs)) ++ r
        = lineBreak (depth + 1) ++ (quote k ++ colon :: 0x20 ::
            (stringifyAt (depth + 1) x ++ (stringifyMembersAt depth fs ++ r))) := by
      simp only [List.append_assoc, List.cons_append]
    rw [stringifyAt, List.cons_append, parseValue, skipWs_cons (by decide), htext]
    dsimp only
    rw [if_neg (by decide), if_neg (by decide), if_pos rfl, hread, skipWs_lineBreak, quote,
      List.cons_append, skipWs_cons (by decide)]
    dsimp only
    rw [if_neg (by decide), Option.map_some, setFields_nil_of_ordered hv.ordered]

private theorem ReadsBackAt.elements_succ {fuel : ℕ} (ih : ReadsBackAt fuel) (depth : ℕ) (x : Json)
    (xs : List Json) (r : JsString) (hx : x.WF) (hxs : Json.WFList xs)
    (hf : (stringifyAt (depth + 1) x ++ stringifyElementsAt depth xs).length ≤ fuel + 1) :
    parseElements (fuel + 1) (lineBreak (depth + 1) ++
      (stringifyAt (depth + 1) x ++ (stringifyElementsAt depth xs ++ r))) = some (x :: xs, r) := by
  rw [List.length_append] at hf
  have hread := ih.value (depth + 1) x (stringifyElementsAt depth xs ++ r) hx
    (noNumHead_stringifyElementsAt depth xs r) (by
      cases xs <;> simp only [stringifyElementsAt, List.length_cons, List.length_append,
        List.length_nil] at hf <;> omega)
  rw [parseElements, parseValue_of_skipWs (skipWs_lineBreak _ _), hread]
  cases xs with
  | nil =>
    rw [stringifyElementsAt, List.append_assoc, List.singleton_append]
    dsimp only
    rw [skipWs_lineBreak, skipWs_cons (by decide)]
    dsimp only
    rw [if_neg (by decide), if_pos rfl]
  | cons y ys =>
    rw [Json.WFList] at hxs
    rw [stringifyElementsAt, List.length_cons, List.length_append] at hf
    rw [stringifyElementsAt, List.cons_append, List.append_assoc, List.append_assoc]
    dsimp only
    rw [skipWs_cons (by decide)]
    dsimp only
    rw [if_pos rfl, ih.elements depth y ys r hxs.1 hxs.2 (by omega), Option.map_some]

private theorem ReadsBackAt.members_succ {fuel : ℕ} (ih : ReadsBackAt fuel) (depth : ℕ)
    (k : JsString) (x : Json) (fs : Fields) (r : JsString) (hx : x.WF) (hfs : Json.WFFields fs)
    (hf : (quote k ++ (stringifyAt (depth + 1) x ++ stringifyMembersAt depth fs)).length
      ≤ fuel + 1) :
    parseMembers (fuel + 1) (lineBreak (depth + 1) ++ (quote k ++ colon :: 0x20 ::
      (stringifyAt (depth + 1) x ++ (stringifyMembersAt depth fs ++ r))))
        = some ((k, x) :: fs, r) := by
  have hquote : 0 < (quote k).length := by
    rw [quote, List.length_cons]
    exact Nat.succ_pos _
  rw [List.length_append, List.length_append] at hf
  have hread := ih.value (depth + 1) x (stringifyMembersAt depth fs ++ r) hx
    (noNumHead_stringifyMembersAt depth fs r) (by omega)
  have hspace : skipWs (0x20 :: (stringifyAt (depth + 1) x ++ (stringifyMembersAt depth fs ++ r)))
      = skipWs (stringifyAt (depth + 1) x ++ (stringifyMembersAt depth fs ++ r)) := by
    rw [skipWs, List.dropWhile_cons, if_pos (by decide), skipWs]
  rw [parseMembers, parseKey_of_skipWs (skipWs_lineBreak _ _), parseKey_quote]
  dsimp only
  rw [parseValue_of_skipWs hspace, hread]
  cases fs with
  | nil =>
    rw [stringifyMembersAt, List.append_assoc, List.singleton_append]
    dsimp only
    rw [skipWs_lineBreak, skipWs_cons (by decide)]
    dsimp only
    rw [if_neg (by decide), if_pos rfl]
  | cons p gs =>
    obtain ⟨l, y⟩ := p
    rw [Json.WFFields] at hfs
    rw [stringifyMembersAt, List.length_cons, List.length_append, List.length_append,
      List.length_cons, List.length_cons] at hf
    have htext : stringifyMembersAt depth ((l, y) :: gs) ++ r
        = comma :: (lineBreak (depth + 1) ++ (quote l ++ colon :: 0x20 ::
            (stringifyAt (depth + 1) y ++ (stringifyMembersAt depth gs ++ r)))) := by
      rw [stringifyMembersAt]
      simp only [List.append_assoc, List.cons_append]
    rw [htext]
    dsimp only
    rw [skipWs_cons (by decide)]
    dsimp only
    rw [if_pos rfl, ih.members depth l y gs r hfs.1 hfs.2 (by rw [List.length_append]; omega),
      Option.map_some]

private theorem readsBackAt (fuel : ℕ) : ReadsBackAt fuel := by
  induction fuel with
  | zero =>
    have hpos : ∀ (depth : ℕ) (v : Json), 0 < (stringifyAt depth v).length := by
      intro depth v
      obtain ⟨u, t, hut, -⟩ := exists_head_stringifyAt depth v
      rw [hut, List.length_cons]
      exact Nat.succ_pos _
    refine ⟨fun depth v r _ _ hf ↦ ?_, fun depth x xs r _ _ hf ↦ ?_,
      fun depth k x fs r _ _ hf ↦ ?_⟩
    · exact absurd (hpos depth v) (by omega)
    · rw [List.length_append] at hf
      exact absurd (hpos (depth + 1) x) (by omega)
    · rw [List.length_append, List.length_append] at hf
      exact absurd (hpos (depth + 1) x) (by omega)
  | succ fuel ih => exact ⟨ih.value_succ, ih.elements_succ, ih.members_succ⟩

/-- **JSON values round-trip through their indented text**, with a line break at its end. -/
theorem parse_stringifyIndented {v : Json} (hv : v.WF) :
    parse (stringifyIndented v ++ [0x0A]) = some v := by
  have hread := (readsBackAt (stringifyIndented v ++ [0x0A]).length).value 0 v [0x0A] hv
    (noNumHead_cons (by decide) (by decide) (by decide) [])
    (by rw [List.length_append]; exact Nat.le_add_right _ _)
  rw [← stringifyIndented] at hread
  rw [parse, hread]
  rfl

end Ecma
