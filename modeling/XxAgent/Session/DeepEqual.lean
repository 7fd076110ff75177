import XxAgent.Session.Surface

/-!
# Equal payloads

What two values have in common when the structural equality of the log calls them equal: the same
elements at every index and the same properties under every name. The comparison walks the
properties of one object only, and that the other has no more of them is a count; so it takes no key
twice in the object that is walked.

A payload is compared after it was spread into a new object, which loses nothing a name can reach.
-/

namespace XxAgent

open Ecma

/-- Equal, or both undefined. -/
def SameJson (v w : Value) : Prop := Option.Rel (fun x y ↦ isDeepEqualJson x y = true) v w

/-! ## Properties -/

theorem isDeepEqualJson_objects (fs gs : Fields) : isDeepEqualJson (.obj fs) (.obj gs) =
    (decide (fs.length = gs.length) && isDeepEqualMembers fs gs) := rfl

theorem isDeepEqualMembers_cons (k : JsString) (x : Json) (fs gs : Fields) :
    isDeepEqualMembers ((k, x) :: fs) gs =
      match fieldOf k gs with
      | none => false
      | some y => isDeepEqualJson x y && isDeepEqualMembers fs gs := rfl

theorem isDeepEqualMembers_iff {fs gs : Fields} :
    isDeepEqualMembers fs gs = true ↔
      ∀ p ∈ fs, ∃ y, fieldOf p.1 gs = some y ∧ isDeepEqualJson p.2 y = true := by
  induction fs with
  | nil => exact iff_of_true rfl (List.forall_mem_nil _)
  | cons p fs ih =>
    obtain ⟨k, x⟩ := p
    rw [isDeepEqualMembers_cons, List.forall_mem_cons]
    cases hk : fieldOf k gs with
    | none => simp
    | some y =>
      rw [Bool.and_eq_true, ih]
      simp

/-- A key of equal objects is a key of both. -/
theorem mem_keys_of_isDeepEqual {fs gs : Fields} (hnd : (keys fs).Nodup)
    (h : isDeepEqualJson (.obj fs) (.obj gs) = true) {k : JsString} (hk : k ∈ keys gs) :
    k ∈ keys fs := by
  rw [isDeepEqualJson_objects, Bool.and_eq_true, decide_eq_true_iff, isDeepEqualMembers_iff] at h
  obtain ⟨hlength, hmembers⟩ := h
  have hsub : keys fs ⊆ keys gs := by
    intro l hl
    obtain ⟨p, hp, rfl⟩ := List.mem_map.mp hl
    obtain ⟨y, hy, -⟩ := hmembers p hp
    exact List.mem_map.mpr ⟨_, mem_of_fieldOf hy, rfl⟩
  have hperm : (keys fs).Perm (keys gs) := by
    refine (List.subperm_of_subset hnd hsub).perm_of_length_le ?_
    rw [keys, keys, List.length_map, List.length_map, hlength]
  exact hperm.mem_iff.mpr hk

/-- **Equal objects have equal properties.** -/
theorem sameJson_fieldOf {fs gs : Fields} (hnd : (keys fs).Nodup)
    (h : isDeepEqualJson (.obj fs) (.obj gs) = true) (k : JsString) :
    SameJson (fieldOf k fs) (fieldOf k gs) := by
  cases hf : fieldOf k fs with
  | none =>
    have hkey : k ∉ keys gs := fun hk ↦
      fieldOf_eq_none_iff.mp hf (mem_keys_of_isDeepEqual hnd h hk)
    rw [fieldOf_eq_none_iff.mpr hkey]
    exact .none
  | some x =>
    rw [isDeepEqualJson_objects, Bool.and_eq_true, isDeepEqualMembers_iff] at h
    obtain ⟨y, hy, heq⟩ := h.2 _ (mem_of_fieldOf hf)
    rw [hy]
    exact .some heq

theorem isDeepEqualJson_singleton {x y : Json}
    (h : isDeepEqualJson (.arr [x]) (.arr [y]) = true) : isDeepEqualJson x y = true := by
  have helements : (isDeepEqualJson x y && isDeepEqualElements [] []) = true := h
  exact (Bool.and_eq_true_iff.mp helements).1

/-! ## Spread objects -/

theorem toString_injective : Function.Injective (toString : ℕ → String) := by
  intro m n h
  have hdigits : Nat.toDigits 10 m = Nat.toDigits 10 n := by
    have := congrArg String.toList h
    simpa [Nat.repr] using this
  rw [← Nat.ofDigitChars_ten_toDigits (n := m), hdigits, Nat.ofDigitChars_ten_toDigits]

/-- A name that is no index. -/
def IsName (k : String) : Prop := ∀ n : ℕ, js k ≠ js (toString n)

theorem isName_of_mem {k : String} {c : Char} (hc : c ∈ k.toList) (hdigit : c.isDigit = false) :
    IsName k := by
  intro n h
  rw [js_inj.mp h] at hc
  have hrepr : c ∈ Nat.toDigits 10 n := by simpa [Nat.repr] using hc
  rw [Nat.isDigit_of_mem_toDigits (by decide +kernel) (by decide +kernel) hrepr] at hdigit
  exact nomatch hdigit

theorem keys_indexed (xs : List Json) :
    keys (xs.zipIdx.map fun p ↦ (js (toString p.2), p.1)) =
      (List.range xs.length).map fun n ↦ js (toString n) := by
  rw [keys, List.map_map, List.range_eq_range', ← List.zipIdx_map_snd 0 xs, List.map_map]
  rfl

theorem nodup_indices (n : ℕ) : ((List.range n).map fun n ↦ js (toString n)).Nodup :=
  List.nodup_range.map fun _ _ h ↦ toString_injective (js_inj.mp h)

/-- The keys of a spread object, for every kind of value that is spread. -/
theorem keys_spread (v : Value) : (∃ fs, v = some (.obj fs) ∧ spread v = fs) ∨
    ∃ n, keys (spread v) = (List.range n).map fun n ↦ js (toString n) := by
  cases v with
  | none => exact .inr ⟨0, rfl⟩
  | some x =>
    cases x with
    | obj fs => exact .inl ⟨fs, rfl, rfl⟩
    | arr xs => exact .inr ⟨_, keys_indexed xs⟩
    | str s =>
      refine .inr ⟨s.length, ?_⟩
      rw [spread, keys, List.map_map, List.range_eq_range', ← List.zipIdx_map_snd 0 s,
        List.map_map]
      rfl
    | null => exact .inr ⟨0, rfl⟩
    | bool b => exact .inr ⟨0, rfl⟩
    | num x => exact .inr ⟨0, rfl⟩

theorem nodup_spread {v : Value} (h : ∀ x ∈ v, Json.WF x) : (keys (spread v)).Nodup := by
  obtain ⟨fs, rfl, hspread⟩ | ⟨n, hkeys⟩ := keys_spread v
  · rw [hspread]
    exact (h _ rfl).nodup
  · rw [hkeys]
    exact nodup_indices n

/-- A name reaches the same property before and after. -/
theorem fieldOf_spread {k : String} (hk : IsName k) (v : Value) :
    fieldOf (js k) (spread v) = v.get k := by
  obtain ⟨fs, rfl, hspread⟩ | ⟨n, hkeys⟩ := keys_spread v
  · rw [hspread]
    rfl
  · have hnone : fieldOf (js k) (spread v) = none := by
      rw [fieldOf_eq_none_iff, hkeys]
      intro hmem
      obtain ⟨m, -, hm⟩ := List.mem_map.mp hmem
      exact hk m hm.symm
    rw [hnone]
    cases v with
    | none => rfl
    | some x =>
      cases x with
      | obj fs => exact hnone.symm
      | _ => rfl

theorem mem_keys_insertField {k l : JsString} {v : Json} {fs : Fields} :
    l ∈ keys (insertField k v fs) ↔ l = k ∨ l ∈ keys fs := by
  induction fs with
  | nil => simp [insertField]
  | cons p fs ih =>
    rw [insertField]
    split_ifs
    · rw [keys_cons, List.mem_cons, ih, keys_cons, List.mem_cons]
      tauto
    · rw [keys_cons, List.mem_cons]

theorem nodup_insertField {k : JsString} (v : Json) {fs : Fields} (hk : k ∉ keys fs)
    (h : (keys fs).Nodup) : (keys (insertField k v fs)).Nodup := by
  induction fs with
  | nil => exact List.nodup_singleton k
  | cons p fs ih =>
    rw [keys_cons, List.mem_cons, not_or] at hk
    have htail := List.nodup_cons.mp (keys_cons p fs ▸ h)
    rw [insertField]
    split_ifs
    · rw [keys_cons, List.nodup_cons, mem_keys_insertField, not_or]
      exact ⟨⟨fun hp ↦ hk.1 hp.symm, htail.1⟩, ih hk.2 htail.2⟩
    · rw [keys_cons, List.nodup_cons, keys_cons, List.mem_cons, not_or]
      exact ⟨hk, h⟩

theorem keys_map_set (k : JsString) (v : Json) (fs : Fields) :
    keys (fs.map fun p ↦ if p.1 = k then (k, v) else p) = keys fs := by
  rw [keys, List.map_map]
  refine List.map_congr_left fun p _ ↦ ?_
  rw [Function.comp_apply]
  split_ifs with hp
  · exact hp.symm
  · rfl

theorem nodup_setField (k : JsString) (v : Json) {fs : Fields} (h : (keys fs).Nodup) :
    (keys (setField fs k v)).Nodup := by
  rw [setField]
  split_ifs with hk
  · rwa [keys_map_set]
  · exact nodup_insertField v hk h

theorem fieldOf_insertField (k : JsString) (v : Json) {fs : Fields} (hk : k ∉ keys fs) :
    fieldOf k (insertField k v fs) = some v := by
  induction fs with
  | nil => rw [insertField, fieldOf_cons, if_pos rfl]
  | cons p fs ih =>
    rw [keys_cons, List.mem_cons, not_or] at hk
    rw [insertField]
    split_ifs
    · rw [fieldOf_cons, if_neg fun hp ↦ hk.1 hp.symm, ih hk.2]
    · rw [fieldOf_cons, if_pos rfl]

theorem fieldOf_setField_self (k : JsString) (v : Json) (fs : Fields) :
    fieldOf k (setField fs k v) = some v := by
  rw [setField]
  split_ifs with hk
  · induction fs with
    | nil => exact absurd hk List.not_mem_nil
    | cons p fs ih =>
      rw [List.map_cons, fieldOf_cons]
      by_cases hp : p.1 = k
      · rw [if_pos hp, if_pos rfl]
      · rw [if_neg hp, if_neg hp]
        rw [keys_cons, List.mem_cons] at hk
        exact ih (hk.resolve_left fun h ↦ hp h.symm)
  · exact fieldOf_insertField k v hk

/-- A spread object with one property replaced, compared with another: the replaced properties are
equal, and so is everything else a name reaches. -/
theorem sameJson_spread {d e : Value} {x y : Json} {k : String} (hd : ∀ z ∈ d, Json.WF z)
    (h : isDeepEqualJson (.obj (setField (spread d) (js k) x))
      (.obj (setField (spread e) (js k) y)) = true) :
    isDeepEqualJson x y = true ∧ ∀ l, IsName l → l ≠ k → SameJson (d.get l) (e.get l) := by
  have hnd : (keys (setField (spread d) (js k) x)).Nodup := nodup_setField _ _ (nodup_spread hd)
  constructor
  · have hk := sameJson_fieldOf hnd h (js k)
    rw [fieldOf_setField_self, fieldOf_setField_self] at hk
    cases hk with
    | some hk => exact hk
  · intro l hname hne
    have hl := sameJson_fieldOf hnd h (js l)
    have hne' : js k ≠ js l := fun hc ↦ hne (js_inj.mp hc).symm
    rwa [fieldOf_setField_of_ne hne', fieldOf_setField_of_ne hne', fieldOf_spread hname,
      fieldOf_spread hname] at hl

/-! ## Tool results -/

/-- `data.message.content[0]`. -/
def resultBlock (data : Value) : Value :=
  match firstElement ((data.get "message").get "content") with
  | .ok block => block
  | .error _ => none

/-- Payloads of one call's result: its call id, turn, step and message id agree. -/
structure SameResult (d e : Value) : Prop where
  callId : SameJson ((resultBlock d).get "toolCallId") ((resultBlock e).get "toolCallId")
  turn : SameJson (d.get "turn") (e.get "turn")
  step : SameJson (d.get "step") (e.get "step")
  messageId : SameJson ((d.get "message").get "id") ((e.get "message").get "id")

theorem wf_get {v : Value} (h : ∀ x ∈ v, Json.WF x) (k : String) : ∀ x ∈ v.get k, Json.WF x := by
  intro x hx
  obtain ⟨y, rfl, hy⟩ := Option.bind_eq_some_iff.mp hx
  exact (h y rfl).of_get? hy

theorem wf_firstElement {v w : Value} (h : ∀ x ∈ v, Json.WF x) (hw : firstElement v = .ok w) :
    ∀ x ∈ w, Json.WF x := by
  intro x hx
  rw [firstElement.eq_def] at hw
  split at hw
  case h_1 => exact nomatch hw
  case h_2 => exact nomatch hw
  case h_3 xs =>
    cases hw
    exact Json.wfList_iff.mp (h _ rfl) x (List.mem_of_head? hx)
  case h_4 s =>
    cases hw
    obtain ⟨u, -, rfl⟩ := Option.map_eq_some_iff.mp hx
    trivial
  case h_5 fs =>
    cases hw
    exact (h _ rfl).of_mem (mem_of_fieldOf hx)
  case h_6 =>
    cases hw
    exact nomatch hx

/-- **A rewrite of the content changes nothing else.** -/
theorem sameResult_of_withoutContent {d e : Value} {x y : Json} (hwf : ∀ z ∈ d, Json.WF z)
    (hd : withoutContent d = .ok x) (he : withoutContent e = .ok y)
    (h : isDeepEqualJson x y = true) : SameResult d e := by
  rw [withoutContent] at hd he
  simp only at hd he
  split at hd
  case h_1 => exact nomatch hd
  case h_2 block hblock =>
    split at he
    case h_1 => exact nomatch he
    case h_2 block' hblock' =>
      cases hd
      cases he
      obtain ⟨hmessage, hdata⟩ := sameJson_spread hwf h
      obtain ⟨hcontent, hid⟩ := sameJson_spread (wf_get hwf "message") hmessage
      have hwfBlock := wf_firstElement (wf_get (wf_get hwf "message") "content") hblock
      obtain ⟨-, hfields⟩ := sameJson_spread hwfBlock (isDeepEqualJson_singleton hcontent)
      have hturn : IsName "turn" := isName_of_mem (c := 't') (by decide +kernel) rfl
      have hstep : IsName "step" := isName_of_mem (c := 's') (by decide +kernel) rfl
      have hname : IsName "id" := isName_of_mem (c := 'i') (by decide +kernel) rfl
      have hcall : IsName "toolCallId" := isName_of_mem (c := 't') (by decide +kernel) rfl
      refine ⟨?_, hdata "turn" hturn (by decide +kernel), hdata "step" hstep (by decide +kernel),
        hid "id" hname (by decide +kernel)⟩
      rw [resultBlock, resultBlock, hblock, hblock']
      exact hfields "toolCallId" hcall (by decide +kernel)

end XxAgent
