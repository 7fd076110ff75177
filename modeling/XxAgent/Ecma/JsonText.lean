import XxAgent.Ecma.StringText

/-!
# JSON text

`stringify` is `JSON.stringify` without indentation, `parse` is `JSON.parse`. The reader carries a
fuel argument so that it is structurally recursive and evaluates; `parseValue_of_some` says that the
fuel is no restriction: whatever is read at all is read with as much fuel as it has units.

The main result is `parse_stringify`, the round trip on well-formed values. Well-formedness is
needed because an object read back enumerates its keys in order.
-/

namespace Ecma

/-! ## Units -/

/-- The unit `[`. -/
def lbrack : UInt16 := 0x5B

/-- The unit `]`. -/
def rbrack : UInt16 := 0x5D

/-- The unit `{`. -/
def lbrace : UInt16 := 0x7B

/-- The unit `}`. -/
def rbrace : UInt16 := 0x7D

/-- The unit `,`. -/
def comma : UInt16 := 0x2C

/-- The unit `:`. -/
def colon : UInt16 := 0x3A

/-- JSON white space. -/
def isWs (u : UInt16) : Bool := decide (u = 0x20 ∨ u = 0x0A ∨ u = 0x0D ∨ u = 0x09)

/-- Leave white space out. -/
def skipWs (s : JsString) : JsString := s.dropWhile isWs

theorem skipWs_cons {u : UInt16} (h : isWs u = false) (s : JsString) : skipWs (u :: s) = u :: s := by
  rw [skipWs, List.dropWhile_cons, if_neg (by simp [h])]

theorem length_skipWs_le (s : JsString) : (skipWs s).length ≤ s.length :=
  (List.dropWhile_sublist isWs).length_le

/-! ## Writing -/

mutual

/-- `JSON.stringify(value)`. -/
def stringify : Json → JsString
  | .null => js "null"
  | .bool b => if b then js "true" else js "false"
  | .num x => x.text
  | .str s => quote s
  | .arr [] => [lbrack, rbrack]
  | .arr (x :: xs) => lbrack :: (stringify x ++ stringifyElements xs)
  | .obj [] => [lbrace, rbrace]
  | .obj ((k, x) :: fs) => lbrace :: (quote k ++ colon :: (stringify x ++ stringifyMembers fs))

/-- The elements after the first, and the closing bracket. -/
def stringifyElements : List Json → JsString
  | [] => [rbrack]
  | x :: xs => comma :: (stringify x ++ stringifyElements xs)

/-- The members after the first, and the closing brace. -/
def stringifyMembers : Fields → JsString
  | [] => [rbrace]
  | (k, x) :: fs => comma :: (quote k ++ colon :: (stringify x ++ stringifyMembers fs))

end

/-! ## Reading -/

/-- A literal name after its first letter. -/
def parseLiteral (name : JsString) (v : Json) (s : JsString) : Option (Json × JsString) :=
  if name.isPrefixOf s then some (v, s.drop name.length) else none

/-- The name of a member and its colon. -/
def parseKey (s : JsString) : Option (JsString × JsString) :=
  match skipWs s with
  | [] => none
  | u :: rest =>
    if u = quoteMark then
      match parseBody .raw rest with
      | none => none
      | some (k, rest) =>
        match skipWs rest with
        | [] => none
        | v :: rest => if v = colon then some (k, rest) else none
    else none

mutual

/-- A value and what follows it. -/
def parseValue : ℕ → JsString → Option (Json × JsString)
  | 0, _ => none
  | fuel + 1, s =>
    match skipWs s with
    | [] => none
    | u :: rest =>
      if u = quoteMark then (parseBody .raw rest).map fun p ↦ (.str p.1, p.2)
      else if u = lbrack then
        match skipWs rest with
        | [] => none
        | v :: rest' =>
          if v = rbrack then some (.arr [], rest')
          else (parseElements fuel rest).map fun p ↦ (.arr p.1, p.2)
      else if u = lbrace then
        match skipWs rest with
        | [] => none
        | v :: rest' =>
          if v = rbrace then some (.obj [], rest')
          else (parseMembers fuel rest).map fun p ↦ (.obj (setFields [] p.1), p.2)
      else if u = 0x6E then parseLiteral (js "ull") .null rest
      else if u = 0x74 then parseLiteral (js "rue") (.bool true) rest
      else if u = 0x66 then parseLiteral (js "alse") (.bool false) rest
      else (parseNumber (u :: rest)).map fun p ↦ (.num p.1, p.2)

/-- The elements of an array that is not empty, with the closing bracket. -/
def parseElements : ℕ → JsString → Option (List Json × JsString)
  | 0, _ => none
  | fuel + 1, s =>
    match parseValue fuel s with
    | none => none
    | some (x, rest) =>
      match skipWs rest with
      | [] => none
      | u :: rest =>
        if u = comma then (parseElements fuel rest).map fun p ↦ (x :: p.1, p.2)
        else if u = rbrack then some ([x], rest)
        else none

/-- The members of an object that is not empty, with the closing brace. -/
def parseMembers : ℕ → JsString → Option (Fields × JsString)
  | 0, _ => none
  | fuel + 1, s =>
    match parseKey s with
    | none => none
    | some (k, rest) =>
      match parseValue fuel rest with
      | none => none
      | some (x, rest) =>
        match skipWs rest with
        | [] => none
        | u :: rest =>
          if u = comma then (parseMembers fuel rest).map fun p ↦ ((k, x) :: p.1, p.2)
          else if u = rbrace then some ([(k, x)], rest)
          else none

end

/-- `JSON.parse(text)`; `none` is a syntax error. -/
def parse (text : JsString) : Option Json :=
  match parseValue text.length text with
  | some (v, rest) => if skipWs rest = [] then some v else none
  | none => none

/-! ## The round trip -/

theorem noNumHead_of_mem {u : UInt16} (h : u ∈ [comma, rbrack, rbrace]) (s : JsString) :
    NoNumHead (u :: s) := by
  simp only [List.mem_cons, List.not_mem_nil, or_false] at h
  rcases h with rfl | rfl | rfl <;> refine noNumHead_cons ?_ ?_ ?_ s <;> decide

theorem noNumHead_stringifyElements (xs : List Json) (r : JsString) :
    NoNumHead (stringifyElements xs ++ r) := by
  cases xs with
  | nil =>
    rw [stringifyElements]
    exact noNumHead_of_mem (by simp) r
  | cons x xs =>
    rw [stringifyElements]
    exact noNumHead_of_mem (by simp) _

theorem noNumHead_stringifyMembers (fs : Fields) (r : JsString) :
    NoNumHead (stringifyMembers fs ++ r) := by
  cases fs with
  | nil =>
    rw [stringifyMembers]
    exact noNumHead_of_mem (by simp) r
  | cons p fs =>
    rw [stringifyMembers]
    exact noNumHead_of_mem (by simp) _

theorem parseKey_quote (k r : JsString) :
    parseKey (quote k ++ colon :: r) = some (k, r) := by
  rw [quote, List.cons_append, parseKey, skipWs_cons (by decide)]
  dsimp only
  rw [if_pos rfl, List.append_assoc, List.singleton_append, parseBody_quoteBody]
  dsimp only
  rw [skipWs_cons (by decide)]
  dsimp only
  rw [if_pos rfl]

theorem parseValue_num (x : Number) (fuel : ℕ) {r : JsString} (hr : NoNumHead r) :
    parseValue (fuel + 1) (x.text ++ r) = some (.num x, r) := by
  obtain ⟨u, t, htext, hu⟩ := x.exists_head_text
  have hread := parseNumber_text x hr
  rw [htext, List.cons_append] at hread ⊢
  have hne : ∀ v : UInt16, isDigit v = false → v ≠ minus → u ≠ v := by
    rintro v h1 h2 rfl
    rcases hu with hu | hu
    · rw [h1] at hu
      exact absurd hu (by decide)
    · exact h2 hu
  have hws : isWs u = false := by
    rw [isWs, decide_eq_false_iff_not]
    simp only [not_or]
    exact ⟨hne _ (by decide) (by decide), hne _ (by decide) (by decide),
      hne _ (by decide) (by decide), hne _ (by decide) (by decide)⟩
  rw [parseValue, skipWs_cons hws]
  dsimp only
  rw [if_neg (hne _ (by decide) (by decide)), if_neg (hne _ (by decide) (by decide)),
    if_neg (hne _ (by decide) (by decide)), if_neg (hne _ (by decide) (by decide)),
    if_neg (hne _ (by decide) (by decide)), if_neg (hne _ (by decide) (by decide)), hread,
    Option.map_some]

/-- The text of a value starts with a unit that is neither white space nor a closing bracket. -/
theorem exists_head_stringify (v : Json) : ∃ u t, stringify v = u :: t ∧ isWs u = false ∧
    u ≠ rbrack ∧ u ≠ rbrace := by
  cases v with
  | null => exact ⟨0x6E, js "ull", by decide, by decide, by decide, by decide⟩
  | bool b =>
    cases b with
    | true => exact ⟨0x74, js "rue", by rw [stringify]; decide, by decide, by decide, by decide⟩
    | false => exact ⟨0x66, js "alse", by rw [stringify]; decide, by decide, by decide, by decide⟩
  | num x =>
    obtain ⟨u, t, htext, hu⟩ := x.exists_head_text
    refine ⟨u, t, by rw [stringify, htext], ?_⟩
    rcases hu with hu | rfl
    · simp only [isDigit, decide_eq_true_eq] at hu
      have hne : ∀ v : UInt16, ¬ (0x30 ≤ v.toNat ∧ v.toNat ≤ 0x39) → u ≠ v := by
        rintro v hv rfl
        exact hv hu
      refine ⟨?_, hne _ (by decide), hne _ (by decide)⟩
      rw [isWs, decide_eq_false_iff_not]
      simp only [not_or]
      exact ⟨hne _ (by decide), hne _ (by decide), hne _ (by decide), hne _ (by decide)⟩
    · exact ⟨by decide, by decide, by decide⟩
  | str s => exact ⟨quoteMark, _, by rw [stringify, quote], by decide, by decide, by decide⟩
  | arr xs =>
    cases xs with
    | nil => exact ⟨lbrack, [rbrack], by rw [stringify], by decide, by decide, by decide⟩
    | cons x xs => exact ⟨lbrack, _, by rw [stringify], by decide, by decide, by decide⟩
  | obj fs =>
    cases fs with
    | nil => exact ⟨lbrace, [rbrace], by rw [stringify], by decide, by decide, by decide⟩
    | cons p fs => exact ⟨lbrace, _, by rw [stringify], by decide, by decide, by decide⟩

/-- Each production reads back what the writer wrote for it, with as much fuel as the text has
units: a bracket pays for the two calls it takes to get below it. -/
private structure ReadsBack (fuel : ℕ) : Prop where
  value : ∀ (v : Json) (r : JsString), v.WF → NoNumHead r → (stringify v).length ≤ fuel →
    parseValue fuel (stringify v ++ r) = some (v, r)
  elements : ∀ (x : Json) (xs : List Json) (r : JsString), x.WF → Json.WFList xs →
    (stringify x ++ stringifyElements xs).length ≤ fuel →
    parseElements fuel (stringify x ++ stringifyElements xs ++ r) = some (x :: xs, r)
  members : ∀ (k : JsString) (x : Json) (fs : Fields) (r : JsString), x.WF → Json.WFFields fs →
    (quote k ++ colon :: (stringify x ++ stringifyMembers fs)).length ≤ fuel →
    parseMembers fuel (quote k ++ colon :: (stringify x ++ stringifyMembers fs) ++ r)
      = some ((k, x) :: fs, r)

private theorem ReadsBack.value_succ {fuel : ℕ} (ih : ReadsBack fuel) (v : Json) (r : JsString)
    (hv : v.WF) (hr : NoNumHead r) (hf : (stringify v).length ≤ fuel + 1) :
    parseValue (fuel + 1) (stringify v ++ r) = some (v, r) := by
  match v, hv with
  | .null, _ => rfl
  | .bool true, _ => rfl
  | .bool false, _ => rfl
  | .num x, _ =>
    rw [stringify]
    exact parseValue_num x fuel hr
  | .str s, _ =>
    rw [stringify, quote, List.cons_append, parseValue, skipWs_cons (by decide)]
    dsimp only
    rw [if_pos rfl, List.append_assoc, List.singleton_append, parseBody_quoteBody, Option.map_some]
  | .arr [], _ =>
    rw [stringify, List.cons_append, List.cons_append, parseValue, skipWs_cons (by decide)]
    rfl
  | .arr (x :: xs), hv =>
    rw [Json.WF, Json.WFList] at hv
    rw [stringify, List.length_cons] at hf
    obtain ⟨w, s, hws, hw, hclose, -⟩ := exists_head_stringify x
    have hread := ih.elements x xs r hv.1 hv.2 (Nat.le_of_succ_le_succ hf)
    rw [stringify, List.cons_append, parseValue, skipWs_cons (by decide)]
    dsimp only
    rw [if_neg (by decide), if_pos rfl]
    rw [hws, List.cons_append] at hread ⊢
    rw [List.cons_append] at hread ⊢
    rw [skipWs_cons hw]
    dsimp only
    rw [if_neg hclose, hread, Option.map_some]
  | .obj [], _ =>
    rw [stringify, List.cons_append, List.cons_append, parseValue, skipWs_cons (by decide)]
    rfl
  | .obj ((k, x) :: fs), hv =>
    have hwf := hv
    rw [Json.WF, Json.WFFields] at hwf
    rw [stringify, List.length_cons] at hf
    have hread := ih.members k x fs r hwf.2.1 hwf.2.2 (Nat.le_of_succ_le_succ hf)
    have hquote : skipWs (quote k ++ colon :: (stringify x ++ stringifyMembers fs) ++ r)
        = quote k ++ colon :: (stringify x ++ stringifyMembers fs) ++ r := by
      rw [quote, List.cons_append, List.cons_append, skipWs_cons (by decide)]
    rw [stringify, List.cons_append, parseValue, skipWs_cons (by decide)]
    dsimp only
    rw [if_neg (by decide), if_neg (by decide), if_pos rfl, hquote, hread, Option.map_some,
      setFields_nil_of_ordered hv.ordered]
    rfl

private theorem ReadsBack.elements_succ {fuel : ℕ} (ih : ReadsBack fuel) (x : Json)
    (xs : List Json) (r : JsString) (hx : x.WF) (hxs : Json.WFList xs)
    (hf : (stringify x ++ stringifyElements xs).length ≤ fuel + 1) :
    parseElements (fuel + 1) (stringify x ++ stringifyElements xs ++ r) = some (x :: xs, r) := by
  rw [List.length_append] at hf
  have hread := ih.value x (stringifyElements xs ++ r) hx (noNumHead_stringifyElements xs r) (by
    cases xs <;> simp only [stringifyElements, List.length_cons] at hf <;> omega)
  rw [List.append_assoc, parseElements, hread]
  cases xs with
  | nil =>
    rw [stringifyElements, List.singleton_append]
    dsimp only
    rw [skipWs_cons (by decide)]
    dsimp only
    rw [if_neg (by decide), if_pos rfl]
  | cons y ys =>
    rw [Json.WFList] at hxs
    rw [stringifyElements, List.length_cons] at hf
    rw [stringifyElements, List.cons_append]
    dsimp only
    rw [skipWs_cons (by decide)]
    dsimp only
    rw [if_pos rfl, ih.elements y ys r hxs.1 hxs.2 (by omega), Option.map_some]

private theorem ReadsBack.members_succ {fuel : ℕ} (ih : ReadsBack fuel) (k : JsString) (x : Json)
    (fs : Fields) (r : JsString) (hx : x.WF) (hfs : Json.WFFields fs)
    (hf : (quote k ++ colon :: (stringify x ++ stringifyMembers fs)).length ≤ fuel + 1) :
    parseMembers (fuel + 1) (quote k ++ colon :: (stringify x ++ stringifyMembers fs) ++ r)
      = some ((k, x) :: fs, r) := by
  rw [List.length_append, List.length_cons, List.length_append] at hf
  have hread := ih.value x (stringifyMembers fs ++ r) hx (noNumHead_stringifyMembers fs r)
    (by omega)
  rw [List.append_assoc, List.cons_append, List.append_assoc, parseMembers, parseKey_quote]
  dsimp only
  rw [hread]
  cases fs with
  | nil =>
    rw [stringifyMembers, List.singleton_append]
    dsimp only
    rw [skipWs_cons (by decide)]
    dsimp only
    rw [if_neg (by decide), if_pos rfl]
  | cons p gs =>
    obtain ⟨l, y⟩ := p
    rw [Json.WFFields] at hfs
    rw [stringifyMembers, List.length_cons] at hf
    rw [stringifyMembers, List.cons_append]
    dsimp only
    rw [skipWs_cons (by decide)]
    dsimp only
    rw [if_pos rfl, ih.members l y gs r hfs.1 hfs.2 (by omega), Option.map_some]

private theorem readsBack (fuel : ℕ) : ReadsBack fuel := by
  induction fuel with
  | zero =>
    have hpos : ∀ v : Json, 0 < (stringify v).length := by
      intro v
      obtain ⟨u, t, hut, -⟩ := exists_head_stringify v
      rw [hut, List.length_cons]
      exact Nat.succ_pos _
    refine ⟨fun v r _ _ hf ↦ ?_, fun x xs r _ _ hf ↦ ?_, fun k x fs r _ _ hf ↦ ?_⟩
    · exact absurd (hpos v) (by omega)
    · rw [List.length_append] at hf
      exact absurd (hpos x) (by omega)
    · rw [List.length_append, List.length_cons] at hf
      omega
  | succ fuel ih => exact ⟨ih.value_succ, ih.elements_succ, ih.members_succ⟩

/-- **JSON values round-trip through their text.** -/
theorem parse_stringify {v : Json} (hv : v.WF) : parse (stringify v) = some v := by
  have hread := (readsBack (stringify v).length).value v [] hv noNumHead_nil (le_refl _)
  rw [List.append_nil] at hread
  rw [parse, hread]
  rfl

private theorem lineText_stringifyElements {xs : List Json}
    (h : ∀ x ∈ xs, LineText (stringify x)) : LineText (stringifyElements xs) := by
  induction xs with
  | nil =>
    rw [stringifyElements]
    exact lineText_of_all (by decide)
  | cons x xs ih =>
    have hcomma : LineText [comma] := lineText_of_all (by decide)
    rw [stringifyElements]
    exact hcomma.cons ((h x List.mem_cons_self).append
      (ih fun y hy ↦ h y (List.mem_cons_of_mem x hy)))

private theorem lineText_member (k : JsString) {s t : JsString} (hs : LineText s)
    (ht : LineText t) : LineText (quote k ++ colon :: (s ++ t)) := by
  have hcolon : LineText [colon] := lineText_of_all (by decide)
  exact (lineText_quote k).append (hcolon.cons (hs.append ht))

private theorem lineText_stringifyMembers {fs : Fields}
    (h : ∀ p ∈ fs, LineText (stringify p.2)) : LineText (stringifyMembers fs) := by
  induction fs with
  | nil =>
    rw [stringifyMembers]
    exact lineText_of_all (by decide)
  | cons p fs ih =>
    have hcomma : LineText [comma] := lineText_of_all (by decide)
    rw [stringifyMembers]
    exact hcomma.cons (lineText_member p.1 (h p List.mem_cons_self)
      (ih fun q hq ↦ h q (List.mem_cons_of_mem p hq)))

/-- **JSON text stays on one line**, and is well-formed UTF-16. -/
theorem lineText_stringify (v : Json) : LineText (stringify v) := by
  induction v using Json.induct with
  | null => exact lineText_of_all (by decide)
  | bool b => cases b <;> exact lineText_of_all (by rw [stringify]; decide)
  | num x =>
    rw [stringify]
    exact lineText_of_isAscii x.isAscii_text
  | str s =>
    rw [stringify]
    exact lineText_quote s
  | arr xs ih =>
    cases xs with
    | nil =>
      rw [stringify]
      exact lineText_of_all (by decide)
    | cons x xs =>
      have hopen : LineText [lbrack] := lineText_of_all (by decide)
      rw [stringify]
      exact hopen.cons ((ih x List.mem_cons_self).append
        (lineText_stringifyElements fun y hy ↦ ih y (List.mem_cons_of_mem x hy)))
  | obj fs ih =>
    cases fs with
    | nil =>
      rw [stringify]
      exact lineText_of_all (by decide)
    | cons p fs =>
      have hopen : LineText [lbrace] := lineText_of_all (by decide)
      rw [stringify]
      exact hopen.cons (lineText_member p.1 (ih p List.mem_cons_self)
        (lineText_stringifyMembers fun q hq ↦ ih q (List.mem_cons_of_mem p hq)))

/-! ## The fuel is no restriction -/

private theorem length_parseExponentDigits {neg : Bool} {s r : JsString} {x : ℤ}
    (h : parseExponentDigits neg s = some (x, r)) : r.length ≤ s.length := by
  rw [parseExponentDigits] at h
  by_cases hnil : s.takeWhile isDigit = []
  · simp [hnil] at h
  · rw [if_neg hnil] at h
    obtain rfl : s.dropWhile isDigit = r := congrArg Prod.snd (Option.some.inj h)
    exact (List.dropWhile_sublist isDigit).length_le

private theorem length_parseSignedExponent {s r : JsString} {x : ℤ}
    (h : parseSignedExponent s = some (x, r)) : r.length ≤ s.length := by
  cases s with
  | nil => simp [parseSignedExponent] at h
  | cons v s =>
    rw [parseSignedExponent] at h
    split_ifs at h
    · exact (length_parseExponentDigits h).trans (Nat.le_succ _)
    · exact (length_parseExponentDigits h).trans (Nat.le_succ _)
    · exact length_parseExponentDigits h

private theorem length_parseExponent {s r : JsString} {x : ℤ} (h : parseExponent s = some (x, r)) :
    r.length ≤ s.length := by
  cases s with
  | nil =>
    obtain rfl : [] = r := congrArg Prod.snd (Option.some.inj h)
    exact le_refl _
  | cons u s =>
    rw [parseExponent] at h
    split_ifs at h
    · exact (length_parseSignedExponent h).trans (Nat.le_succ _)
    · obtain rfl : u :: s = r := congrArg Prod.snd (Option.some.inj h)
      exact le_refl _

private theorem length_parseFraction {s f r : JsString} (h : parseFraction s = some (f, r)) :
    r.length ≤ s.length := by
  cases s with
  | nil =>
    obtain rfl : [] = r := congrArg Prod.snd (Option.some.inj h)
    exact le_refl _
  | cons u s =>
    rw [parseFraction] at h
    split_ifs at h
    · obtain rfl : s.dropWhile isDigit = r := congrArg Prod.snd (Option.some.inj h)
      exact (List.dropWhile_sublist isDigit).length_le.trans (Nat.le_succ _)
    · obtain rfl : u :: s = r := congrArg Prod.snd (Option.some.inj h)
      exact le_refl _

private theorem length_parseUnsigned {s r : JsString} {m : ℕ} {x : ℤ}
    (h : parseUnsigned s = some (m, x, r)) : r.length < s.length := by
  rw [parseUnsigned] at h
  split_ifs at h with hint
  have hne : s.takeWhile isDigit ≠ [] := fun hc ↦ hint (Or.inl hc)
  have hlen : (s.takeWhile isDigit).length + (s.dropWhile isDigit).length = s.length := by
    rw [← List.length_append, List.takeWhile_append_dropWhile]
  have hpos := List.length_pos_iff.mpr hne
  cases hf : parseFraction (s.dropWhile isDigit) with
  | none => simp [hf] at h
  | some p =>
    cases hx : parseExponent p.2 with
    | none => simp [hf, hx] at h
    | some q =>
      simp only [hf, hx] at h
      have hr : q.2 = r := by
        have := congrArg (fun p : ℕ × ℤ × JsString ↦ p.2.2) (Option.some.inj h)
        exact this
      have h1 := length_parseFraction hf
      have h2 := length_parseExponent hx
      rw [hr] at h2
      omega

private theorem length_parseNumber {s r : JsString} {x : Number} (h : parseNumber s = some (x, r)) :
    r.length < s.length := by
  cases s with
  | nil => simp [parseNumber] at h
  | cons u s =>
    rw [parseNumber] at h
    split_ifs at h
    · obtain ⟨p, hp, hr⟩ := Option.map_eq_some_iff.mp h
      obtain rfl : p.2.2 = r := congrArg Prod.snd hr
      exact Nat.lt_succ_of_lt (length_parseUnsigned hp)
    · obtain ⟨p, hp, hr⟩ := Option.map_eq_some_iff.mp h
      obtain rfl : p.2.2 = r := congrArg Prod.snd hr
      exact length_parseUnsigned hp

private theorem length_parseKey {s k r : JsString} (h : parseKey s = some (k, r)) :
    r.length < s.length := by
  have hs := length_skipWs_le s
  rw [parseKey] at h
  cases hu : skipWs s with
  | nil => simp [hu] at h
  | cons u rest =>
    rw [hu, List.length_cons] at hs
    simp only [hu] at h
    split_ifs at h
    cases hb : parseBody .raw rest with
    | none => simp [hb] at h
    | some p =>
      have h1 := length_parseBody hb
      have h2 := length_skipWs_le p.2
      simp only [hb] at h
      cases hv : skipWs p.2 with
      | nil => simp [hv] at h
      | cons v rest' =>
        rw [hv, List.length_cons] at h2
        simp only [hv] at h
        split_ifs at h
        obtain rfl : rest' = r := congrArg Prod.snd (Option.some.inj h)
        omega

private theorem length_parseLiteral {name s r : JsString} {v w : Json}
    (h : parseLiteral name v s = some (w, r)) : r.length ≤ s.length := by
  rw [parseLiteral] at h
  split_ifs at h
  obtain rfl : s.drop name.length = r := congrArg Prod.snd (Option.some.inj h)
  exact (List.drop_sublist name.length s).length_le

/-- What `fuel` reads is read with as much fuel as the text that was read has units. -/
private structure FuelFree (fuel : ℕ) : Prop where
  value : ∀ {s r : JsString} {v : Json}, parseValue fuel s = some (v, r) →
    r.length < s.length ∧ ∀ g, s.length - r.length ≤ g → parseValue g s = some (v, r)
  elements : ∀ {s r : JsString} {xs : List Json}, parseElements fuel s = some (xs, r) →
    r.length < s.length ∧ ∀ g, s.length - r.length ≤ g → parseElements g s = some (xs, r)
  members : ∀ {s r : JsString} {fs : Fields}, parseMembers fuel s = some (fs, r) →
    r.length < s.length ∧ ∀ g, s.length - r.length ≤ g → parseMembers g s = some (fs, r)

private theorem FuelFree.value_succ {fuel : ℕ} (ih : FuelFree fuel) {s r : JsString} {v : Json}
    (h : parseValue (fuel + 1) s = some (v, r)) :
    r.length < s.length ∧ ∀ g, s.length - r.length ≤ g → parseValue g s = some (v, r) := by
  have hs := length_skipWs_le s
  -- It is enough to look at fuel of the form `g + 1` with `g` at least what the tail needs.
  have key : r.length < s.length ∧
      ∀ g, s.length - r.length ≤ g + 1 → parseValue (g + 1) s = some (v, r) := by
    rw [parseValue] at h
    simp only [parseValue]
    cases hu : skipWs s with
    | nil => simp [hu] at h
    | cons u rest =>
      rw [hu, List.length_cons] at hs
      simp only [hu] at h
      split_ifs at h with h1 h2 h3 h4 h5 h6
      · simp only [if_pos h1]
        obtain ⟨p, hp, hr⟩ := Option.map_eq_some_iff.mp h
        have hlt := length_parseBody hp
        obtain rfl : p.2 = r := congrArg Prod.snd hr
        exact ⟨by omega, fun g _ ↦ h⟩
      · simp only [if_neg h1, if_pos h2]
        have hrest := length_skipWs_le rest
        cases hv : skipWs rest with
        | nil => simp [hv] at h
        | cons w rest' =>
          rw [hv, List.length_cons] at hrest
          simp only [hv] at h
          split_ifs at h with hw
          · simp only [if_pos hw]
            obtain rfl : rest' = r := congrArg Prod.snd (Option.some.inj h)
            exact ⟨by omega, fun g _ ↦ h⟩
          · simp only [if_neg hw]
            obtain ⟨p, hp, hr⟩ := Option.map_eq_some_iff.mp h
            obtain rfl : p.2 = r := congrArg Prod.snd hr
            obtain ⟨hlt, hg⟩ := ih.elements hp
            refine ⟨by omega, fun g hle ↦ ?_⟩
            rw [hg g (by omega), ← hp, h]
      · simp only [if_neg h1, if_neg h2, if_pos h3]
        have hrest := length_skipWs_le rest
        cases hv : skipWs rest with
        | nil => simp [hv] at h
        | cons w rest' =>
          rw [hv, List.length_cons] at hrest
          simp only [hv] at h
          split_ifs at h with hw
          · simp only [if_pos hw]
            obtain rfl : rest' = r := congrArg Prod.snd (Option.some.inj h)
            exact ⟨by omega, fun g _ ↦ h⟩
          · simp only [if_neg hw]
            obtain ⟨p, hp, hr⟩ := Option.map_eq_some_iff.mp h
            obtain rfl : p.2 = r := congrArg Prod.snd hr
            obtain ⟨hlt, hg⟩ := ih.members hp
            refine ⟨by omega, fun g hle ↦ ?_⟩
            rw [hg g (by omega), ← hp, h]
      · simp only [if_neg h1, if_neg h2, if_neg h3, if_pos h4]
        have := length_parseLiteral h
        exact ⟨by omega, fun g _ ↦ h⟩
      · simp only [if_neg h1, if_neg h2, if_neg h3, if_neg h4, if_pos h5]
        have := length_parseLiteral h
        exact ⟨by omega, fun g _ ↦ h⟩
      · simp only [if_neg h1, if_neg h2, if_neg h3, if_neg h4, if_neg h5, if_pos h6]
        have := length_parseLiteral h
        exact ⟨by omega, fun g _ ↦ h⟩
      · simp only [if_neg h1, if_neg h2, if_neg h3, if_neg h4, if_neg h5, if_neg h6]
        obtain ⟨p, hp, hr⟩ := Option.map_eq_some_iff.mp h
        have hlt := length_parseNumber hp
        obtain rfl : p.2 = r := congrArg Prod.snd hr
        rw [List.length_cons] at hlt
        exact ⟨by omega, fun g _ ↦ h⟩
  refine ⟨key.1, fun g hg ↦ ?_⟩
  obtain ⟨g, rfl⟩ : ∃ k, g = k + 1 := ⟨g - 1, by have := key.1; omega⟩
  exact key.2 g hg

private theorem FuelFree.elements_succ {fuel : ℕ} (ih : FuelFree fuel) {s r : JsString}
    {xs : List Json} (h : parseElements (fuel + 1) s = some (xs, r)) :
    r.length < s.length ∧ ∀ g, s.length - r.length ≤ g → parseElements g s = some (xs, r) := by
  rw [parseElements] at h
  cases hx : parseValue fuel s with
  | none => simp [hx] at h
  | some p =>
    obtain ⟨x, rest⟩ := p
    obtain ⟨hlt, hg⟩ := ih.value hx
    have hrest := length_skipWs_le rest
    simp only [hx] at h
    cases hu : skipWs rest with
    | nil => simp [hu] at h
    | cons u rest' =>
      rw [hu, List.length_cons] at hrest
      simp only [hu] at h
      split_ifs at h with h1 h2
      · obtain ⟨p, hp, hr⟩ := Option.map_eq_some_iff.mp h
        obtain rfl : p.2 = r := congrArg Prod.snd hr
        obtain ⟨hlt', hg'⟩ := ih.elements hp
        refine ⟨by omega, fun g hle ↦ ?_⟩
        obtain ⟨g, rfl⟩ : ∃ k, g = k + 1 := ⟨g - 1, by omega⟩
        simp only [parseElements, hg g (by omega), hu, if_pos h1, hg' g (by omega)]
        rw [← hp, h]
      · obtain rfl : rest' = r := congrArg Prod.snd (Option.some.inj h)
        refine ⟨by omega, fun g hle ↦ ?_⟩
        obtain ⟨g, rfl⟩ : ∃ k, g = k + 1 := ⟨g - 1, by omega⟩
        simp only [parseElements, hg g (by omega), hu, if_neg h1, if_pos h2]
        exact h

private theorem FuelFree.members_succ {fuel : ℕ} (ih : FuelFree fuel) {s r : JsString}
    {fs : Fields} (h : parseMembers (fuel + 1) s = some (fs, r)) :
    r.length < s.length ∧ ∀ g, s.length - r.length ≤ g → parseMembers g s = some (fs, r) := by
  rw [parseMembers] at h
  cases hk : parseKey s with
  | none => simp [hk] at h
  | some q =>
    obtain ⟨k, t⟩ := q
    have hkey := length_parseKey hk
    simp only [hk] at h
    cases hx : parseValue fuel t with
    | none => simp [hx] at h
    | some p =>
      obtain ⟨x, rest⟩ := p
      obtain ⟨hlt, hg⟩ := ih.value hx
      have hrest := length_skipWs_le rest
      simp only [hx] at h
      cases hu : skipWs rest with
      | nil => simp [hu] at h
      | cons u rest' =>
        rw [hu, List.length_cons] at hrest
        simp only [hu] at h
        split_ifs at h with h1 h2
        · obtain ⟨p, hp, hr⟩ := Option.map_eq_some_iff.mp h
          obtain rfl : p.2 = r := congrArg Prod.snd hr
          obtain ⟨hlt', hg'⟩ := ih.members hp
          refine ⟨by omega, fun g hle ↦ ?_⟩
          obtain ⟨g, rfl⟩ : ∃ k, g = k + 1 := ⟨g - 1, by omega⟩
          simp only [parseMembers, hk, hg g (by omega), hu, if_pos h1, hg' g (by omega)]
          rw [← hp, h]
        · obtain rfl : rest' = r := congrArg Prod.snd (Option.some.inj h)
          refine ⟨by omega, fun g hle ↦ ?_⟩
          obtain ⟨g, rfl⟩ : ∃ k, g = k + 1 := ⟨g - 1, by omega⟩
          simp only [parseMembers, hk, hg g (by omega), hu, if_neg h1, if_pos h2]
          exact h

private theorem fuelFree (fuel : ℕ) : FuelFree fuel := by
  induction fuel with
  | zero =>
    refine ⟨fun h ↦ ?_, fun h ↦ ?_, fun h ↦ ?_⟩
    · exact absurd h (by simp [parseValue])
    · exact absurd h (by simp [parseElements])
    · exact absurd h (by simp [parseMembers])
  | succ fuel ih => exact ⟨ih.value_succ, ih.elements_succ, ih.members_succ⟩

/-- **A syntax error is never a lack of fuel**: what `parse` rejects, no amount of fuel reads. -/
theorem parseValue_of_some {fuel : ℕ} {s r : JsString} {v : Json}
    (h : parseValue fuel s = some (v, r)) : parseValue s.length s = some (v, r) :=
  ((fuelFree fuel).value h).2 s.length (Nat.sub_le _ _)

/-!
## Display text

`String(value)`, as a template literal inserts it into a message.
-/

mutual

/-- `String(value)` of a JSON value. -/
def displayJson : Json → JsString
  | .null => js "null"
  | .bool b => if b then js "true" else js "false"
  | .num x => x.text
  | .str s => s
  | .arr xs => displayElements xs
  | .obj _ => js "[object Object]"

/-- `Array.prototype.join(',')`: a `null` element is left out. -/
def displayElements : List Json → JsString
  | [] => []
  | [x] => if x = .null then [] else displayJson x
  | x :: y :: xs => (if x = .null then [] else displayJson x) ++ comma :: displayElements (y :: xs)

end

/-- `String(value)`. -/
def display : Option Json → JsString
  | none => js "undefined"
  | some x => displayJson x

end Ecma
