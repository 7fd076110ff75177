import XxAgent.Ecma.Entries
import XxAgent.Session.LiveLog

/-!
# Rewriting the content of surface nodes

A plugin shortens what the model sees by replacing single nodes of the surface with copies of their
events that have another content. Such a replacement is never refused: it cites the node it takes
the place of, and a copied tool result differs from the original in the content of its block only.

A pass takes a snapshot of the surface and rewrites some of its nodes one after another. Every
rewrite leaves the other nodes of the snapshot where they are, so the pass comes to its end and the
surface keeps its length and its order.
-/

namespace XxAgent

open Ecma

/-! ## Equal to itself -/

theorem isDeepEqualMembers_self {fs : Fields} (hnd : (keys fs).Nodup)
    (h : ∀ p ∈ fs, isDeepEqualJson p.2 p.2 = true) : isDeepEqualMembers fs fs = true :=
  isDeepEqualMembers_iff.mpr fun p hp ↦ ⟨p.2, fieldOf_of_mem hnd hp, h p hp⟩

theorem isDeepEqualJson_obj_self {fs : Fields} (hnd : (keys fs).Nodup)
    (h : ∀ p ∈ fs, isDeepEqualJson p.2 p.2 = true) :
    isDeepEqualJson (.obj fs) (.obj fs) = true := by
  rw [isDeepEqualJson_objects, decide_eq_true rfl, isDeepEqualMembers_self hnd h]
  rfl

theorem isDeepEqualElements_self {xs : List Json} (h : ∀ x ∈ xs, isDeepEqualJson x x = true) :
    isDeepEqualElements xs xs = true := by
  induction xs with
  | nil => rfl
  | cons x xs ih =>
    rw [List.forall_mem_cons] at h
    rw [isDeepEqualElements, h.1, ih h.2]
    rfl

theorem isDeepEqualJson_arr_self {xs : List Json} (h : ∀ x ∈ xs, isDeepEqualJson x x = true) :
    isDeepEqualJson (.arr xs) (.arr xs) = true := by
  rw [isDeepEqualJson, decide_eq_true rfl, isDeepEqualElements_self h]
  rfl

theorem isDeepEqualJson_self {x : Json} : x.WF → isDeepEqualJson x x = true := by
  induction x using Json.induct with
  | null => exact fun _ ↦ rfl
  | bool b => exact fun _ ↦ decide_eq_true rfl
  | num x => exact fun _ ↦ decide_eq_true rfl
  | str s => exact fun _ ↦ decide_eq_true rfl
  | arr xs ih =>
    exact fun hwf ↦ isDeepEqualJson_arr_self fun x hx ↦ ih x hx (Json.wfList_iff.mp hwf x hx)
  | obj fs ih =>
    exact fun hwf ↦ isDeepEqualJson_obj_self hwf.nodup fun p hp ↦ ih p hp (hwf.of_mem hp)

/-- What is spread has properties that equal themselves. -/
theorem isDeepEqualJson_of_mem_spread {v : Value} (h : ∀ x ∈ v, Json.WF x) {p : JsString × Json}
    (hp : p ∈ spread v) : isDeepEqualJson p.2 p.2 = true := by
  rw [spread.eq_def] at hp
  split at hp
  case h_1 fs => exact isDeepEqualJson_self ((h _ rfl).of_mem hp)
  case h_2 xs =>
    obtain ⟨q, hq, rfl⟩ := List.mem_map.mp hp
    exact isDeepEqualJson_self (Json.wfList_iff.mp (h _ rfl) _ (List.fst_mem_of_mem_zipIdx hq))
  case h_3 s =>
    obtain ⟨q, -, rfl⟩ := List.mem_map.mp hp
    exact decide_eq_true rfl
  case h_4 => cases hp

theorem isDeepEqualJson_setField_spread {v : Value} (h : ∀ x ∈ v, Json.WF x) (k : JsString)
    {y : Json} (hy : isDeepEqualJson y y = true) :
    isDeepEqualJson (.obj (setField (spread v) k y)) (.obj (setField (spread v) k y)) = true := by
  refine isDeepEqualJson_obj_self (nodup_setField _ _ (nodup_spread h)) fun p hp ↦ ?_
  rcases mem_setField hp with rfl | hp
  · exact hy
  · exact isDeepEqualJson_of_mem_spread h hp

/-! ## Another content -/

/-- `{ ...data, message: { ...data.message, content: [{ ...data.message.content[0], content }] } }`
-/
def withContent (data : Value) (content : Json) : Json :=
  let message := data.get "message"
  .obj (setField (spread data) (js "message") (.obj (setField (spread message) (js "content")
    (.arr [.obj (setField (spread (resultBlock data)) (js "content") content)]))))

theorem setField_setField (fs : Fields) (k : JsString) (v w : Json) :
    setField (setField fs k v) k w = setField fs k w := by
  have hkeys : k ∈ keys (setField fs k v) := by
    by_contra hk
    have hnone := fieldOf_eq_none_iff.mpr hk
    rw [fieldOf_setField_self] at hnone
    cases hnone
  rw [setField.eq_def (setField fs k v), if_pos hkeys, setField, setField]
  split_ifs with hk
  · rw [List.map_map]
    refine List.map_congr_left fun p _ ↦ ?_
    rw [Function.comp_apply]
    by_cases hp : p.1 = k
    · rw [if_pos hp, if_pos rfl, if_pos hp]
    · rw [if_neg hp, if_neg hp]
  · -- No property of the rest has the name.
    have hrest : ∀ gs : Fields, k ∉ keys gs →
        (insertField k v gs).map (fun p ↦ if p.1 = k then (k, w) else p) = insertField k w gs := by
      intro gs
      induction gs with
      | nil =>
        intro _
        rw [insertField, insertField, List.map_singleton, if_pos rfl]
      | cons p gs ih =>
        intro hp
        rw [keys_cons, List.mem_cons, not_or] at hp
        have hhead : (if p.1 = k then (k, w) else p) = p := if_neg fun hc ↦ hp.1 hc.symm
        have htail : gs.map (fun p ↦ if p.1 = k then (k, w) else p) = gs := by
          refine (List.map_congr_left fun q hq ↦ if_neg fun hc ↦ hp.2 ?_).trans (List.map_id _)
          exact hc ▸ List.mem_map_of_mem hq
        rw [insertField, insertField]
        split_ifs with hc
        · rw [List.map_cons, hhead, ih hp.2]
        · rw [List.map_cons, List.map_cons, if_pos rfl, hhead, htail]
    exact hrest fs hk

@[simp] theorem spread_obj (fs : Fields) : spread (some (.obj fs)) = fs := rfl

theorem get_withContent (data : Value) (content : Json) :
    (withContent data content).get? "message" =
      some (.obj (setField (spread (data.get "message")) (js "content")
        (.arr [.obj (setField (spread (resultBlock data)) (js "content") content)]))) :=
  fieldOf_setField_self ..

theorem firstElement_withContent (data : Value) (content : Json) :
    firstElement (Value.get "content" ((withContent data content).get? "message")) =
      .ok (some (.obj (setField (spread (resultBlock data)) (js "content") content))) := by
  rw [get_withContent, Value.get_some, Json.get?_obj, fieldOf_setField_self]
  rfl

/-- Blanking the content forgets which one it was. -/
theorem withoutContent_withContent {data : Value} {block : Value}
    (h : firstElement ((data.get "message").get "content") = .ok block) (content : Json) :
    withoutContent (some (withContent data content)) = withoutContent data := by
  have hblock : resultBlock data = block := by rw [resultBlock, h]
  have hmessage := get_withContent data content
  have hfirst := firstElement_withContent data content
  rw [withoutContent, withoutContent]
  simp only [Value.get_some] at hfirst ⊢
  rw [hfirst, h]
  simp only
  rw [hmessage, hblock, spread_obj, spread_obj, setField_setField, setField_setField, withContent,
    spread_obj, setField_setField]

theorem exists_withoutContent {data block : Value}
    (h : firstElement ((data.get "message").get "content") = .ok block) :
    ∃ x, withoutContent data = .ok x := by
  rw [withoutContent]
  simp only [h]
  exact ⟨_, rfl⟩

theorem isDeepEqualJson_withoutContent {data : Value} (hwf : ∀ x ∈ data, Json.WF x) {x : Json}
    (h : withoutContent data = .ok x) : isDeepEqualJson x x = true := by
  rw [withoutContent] at h
  simp only at h
  split at h
  case h_1 => cases h
  case h_2 block hblock =>
    cases h
    have hwfBlock := wf_firstElement (wf_get (wf_get hwf "message") "content") hblock
    refine isDeepEqualJson_setField_spread hwf _ (isDeepEqualJson_setField_spread
      (wf_get hwf "message") _ (isDeepEqualJson_arr_self fun y hy ↦ ?_))
    rw [List.mem_singleton.mp hy]
    exact isDeepEqualJson_setField_spread hwfBlock _ rfl

/-! ## Replacing one node -/

/-- `{ surfaceOp: { op: 'replace', start: seq, end: seq }, sourceEventSeqs: [seq] }` -/
def replaceNode (seq : ℕ) : Json :=
  .obj [prop "op" (text "replace"), prop "start" (integer seq), prop "end" (integer seq)]

/-- The surface with one node in the place of another. -/
def renumber (seq n : ℕ) (nodes : List ℕ) : List ℕ :=
  nodes.map fun node ↦ if node = seq then n else node

theorem nodup_surfaceAfter {log : List Json} (hwf : ∀ e ∈ log, Json.WF e) {state : SurfaceFoldState}
    (h : surfaceAfter log = .ok state) : state.nodes.Nodup := by
  rw [← foldSurface_eq] at h
  obtain ⟨r, hr, rfl⟩ := Replay.map_eq_ok.mp h
  have hnd : (r.nodes ++ r.shadowed).Nodup :=
    (partitioned_foldSurface hwf hr).perm.nodup_iff.mpr (nodup_eligibleSeqs log)
  exact (List.nodup_append'.mp hnd).1

theorem replacementRange_self {state : SurfaceFoldState} {seq : ℕ} (h : seq ∈ state.nodes) :
    ∃ i, state.nodes.idxOf? seq = some i ∧
      replacementRange state seq seq = .ok (i, i, [seq]) := by
  obtain ⟨i, hi⟩ := Option.isSome_iff_exists.mp (List.isSome_idxOf?.mpr h)
  obtain ⟨hlt, hget, -⟩ := List.idxOf?_eq_some_iff.mp hi
  refine ⟨i, hi, ?_⟩
  have hone : i + 1 - i = 0 + 1 := by omega
  rw [replacementRange, hi]
  simp only
  rw [if_neg (lt_irrefl i), hone, List.drop_eq_getElem_cons hlt, List.take_succ_cons,
    List.take_zero, hget]

theorem renumber_eq {nodes : List ℕ} (hnd : nodes.Nodup) {seq n i : ℕ}
    (hi : nodes.idxOf? seq = some i) :
    nodes.take i ++ n :: nodes.drop (i + 1) = renumber seq n nodes := by
  obtain ⟨hlt, hget, -⟩ := List.idxOf?_eq_some_iff.mp hi
  have hsplit : nodes = nodes.take i ++ nodes[i] :: nodes.drop (i + 1) := by
    rw [List.getElem_cons_drop, List.take_append_drop]
  have hself : ∀ part : List ℕ, seq ∉ part → renumber seq n part = part := fun part hpart ↦
    (List.map_congr_left fun node hnode ↦
      if_neg fun hc : node = seq ↦ hpart (hc ▸ hnode)).trans (List.map_id _)
  rw [hsplit, List.nodup_middle, List.nodup_cons, hget, List.mem_append, not_or]
    at hnd
  conv_rhs => rw [hsplit, renumber, List.map_append, List.map_cons, if_pos (hget)]
  have hfront := hself _ hnd.1.1
  have hback := hself _ hnd.1.2
  rw [renumber] at hfront hback
  rw [hfront, hback]

/-- An event that rewrites the content of a node. -/
structure Rewrites (log : List Json) (seq : ℕ) (event : Json) : Prop where
  eligible : isSurfaceEligibleType (event.get? "type") = true
  number : event.get? "seq" = some (integer log.length)
  op : event.get? "surfaceOp" = some (replaceNode seq)
  sources : event.get? "sourceEventSeqs" = some (.arr [integer seq])
  content : event.get? "type" = some (text "tool/result") → ∃ original x,
    log[seq]? = some original ∧ original.get? "type" = some (text "tool/result") ∧
      withoutContent (original.get? "data") = .ok x ∧
      withoutContent (event.get? "data") = .ok x ∧ isDeepEqualJson x x = true

theorem surfaceOpOf_replaceNode {event : Json} {seq : ℕ} (hsafe : Number.IsSafe seq)
    (heligible : isSurfaceEligibleType (event.get? "type") = true)
    (hop : event.get? "surfaceOp" = some (replaceNode seq)) :
    surfaceOpOf event = .ok (some (.replace seq seq)) := by
  have hseq : isEventSeq (some (integer seq)) = true := by
    rw [isEventSeq, Bool.and_eq_true, decide_eq_true_iff]
    exact ⟨Value.isSafeInteger_iff.mpr ⟨seq, rfl, hsafe⟩, Int.natCast_nonneg seq⟩
  have hstart : Value.get "start" (some (replaceNode seq)) = some (integer seq) := by
    rw [Value.get_some, replaceNode, Json.get?_obj]
    simp [fieldOf]
  have hstop : Value.get "end" (some (replaceNode seq)) = some (integer seq) := by
    rw [Value.get_some, replaceNode, Json.get?_obj]
    simp [fieldOf]
  have hreplace : isReplaceOp (some (replaceNode seq)) = true := by
    rw [isReplaceOp, hstart, hstop, hseq]
    simp [replaceNode, Value.hasExactKeys, Value.get, Json.get?, fieldOf]
  rw [surfaceOpOf, hop, if_neg (by simp [heligible]), if_neg (by simp),
    if_neg (by simp [replaceNode, text]), if_neg (by simp [replaceNode, Value.isRecord, Value.isArray]), if_neg (by simp [hreplace]),
    hstart, hstop]
  rfl

/-- **A rewrite of the content of a node is let through.** -/
theorem Rewrites.plan {log : List Json} {state : SurfaceFoldState} {seq : ℕ} {event : Json}
    (h : Rewrites log seq event) (hsafe : Number.IsSafe seq) (hmem : seq ∈ state.nodes)
    (hlt : seq < log.length) (hnd : state.nodes.Nodup) :
    ∃ plan, planNext state log event = .ok plan ∧
      (commitPlan state plan).nodes = renumber seq log.length state.nodes := by
  obtain ⟨i, hi, hrange⟩ := replacementRange_self hmem
  have hseq : isEventSeq (some (integer seq)) = true := by
    rw [isEventSeq, Bool.and_eq_true, decide_eq_true_iff]
    exact ⟨Value.isSafeInteger_iff.mpr ⟨seq, rfl, hsafe⟩, Int.natCast_nonneg seq⟩
  have hcited : citedSources event = .ok [seq] := by
    rw [citedSources]
    simp only [h.sources, h.number]
    rw [if_neg (by simp), if_neg (by simp [hseq])]
    simp [toSeq, integer, Nat.not_le.mpr hlt]
  have hprovenance : assertProvenance event [seq] = .ok () := by
    rw [assertProvenance, hcited]
    simp
  have hrewrite : assertToolResultRewrite event [seq] log 0 = .ok () := by
    rw [assertToolResultRewrite]
    by_cases htype : event.get? "type" = some (text "tool/result")
    · obtain ⟨original, x, horiginal, htool, hx, hx', heq⟩ := h.content htype
      have hat : eventAt log 0 seq = some original := by
        rw [eventAt, if_pos (Nat.zero_le _), Nat.sub_zero, horiginal]
      rw [if_neg (not_not.mpr htype)]
      simp only [hat, Value.get_some, hx, hx', heq, if_true]
      rw [if_neg (not_not.mpr htool)]
    · rw [if_pos htype]
  refine ⟨some (.replace ⟨log.length, seq, seq, [seq]⟩ i i), ?_, renumber_eq hnd hi⟩
  rw [planNext, planSurfaceEvent]
  simp only [h.number, surfaceOpOf_replaceNode hsafe h.eligible h.op, hrange]
  simp [Except.bind, Except.map, toSeq, integer, hprovenance, hrewrite]

/-! ## Rewriting in a session -/

/-- A rewrite as a caller appends it. -/
def rewriteDraft (seq : ℕ) (data : EventData) (payload : Json) (time : SafeNat) : EventDraft where
  data := data
  payload := payload
  time := time
  sourceEventSeqs := some (.arr [integer seq])
  surfaceOp := some (replaceNode seq)

/-- The typed event replaces the node. -/
theorem surfaceOp_rewriteDraft {seq : ℕ} {data : EventData} (payload : Json) (time : SafeNat)
    (n : ℕ) (hsafe : Number.IsSafe seq)
    (heligible : isSurfaceEligibleType (some (.str data.type)) = true) :
    ((rewriteDraft seq data payload time).event n).event.surfaceOp = some (.replace seq seq) := by
  have htype := ((rewriteDraft seq data payload time).event n).type
  have hop : ((rewriteDraft seq data payload time).event n).json.get? "surfaceOp" =
      some (replaceNode seq) :=
    (rewriteDraft seq data payload time).get?_json n (by simp [EventDraft.fields, rewriteDraft])
  exact ((rewriteDraft seq data payload time).event n).op _
    (surfaceOpOf_replaceNode hsafe (htype ▸ heligible) hop)

/-- The log of a session, and what it folds to. -/
structure Session.Folds (s : Session) (state : SurfaceFoldState) : Prop where
  surface : surfaceAfter (stored s.events) = .ok state
  nodup : state.nodes.Nodup

namespace Session.Folds

variable {s : Session} {state : SurfaceFoldState}

theorem of_surface (hwf : ∀ e ∈ s.events, Json.WF e.json)
    (h : surfaceAfter (stored s.events) = .ok state) : s.Folds state where
  surface := h
  nodup := by
    refine nodup_surfaceAfter (fun e he ↦ ?_) h
    obtain ⟨event, hevent, rfl⟩ := List.mem_map.mp he
    exact hwf event hevent

theorem lt_length (h : s.Folds state) {seq : ℕ} (hseq : seq ∈ state.nodes) :
    seq < s.events.length :=
  (below_surfaceAfter h.surface seq hseq).trans_eq (length_stored _)

theorem exists_event (h : s.Folds state) {seq : ℕ} (hseq : seq ∈ state.nodes) :
    ∃ e, s.events[seq]? = some e :=
  ⟨_, List.getElem?_eq_getElem (h.lt_length hseq)⟩

/-- A planned event is appended. -/
theorem append_planned (h : s.Folds state) {draft : EventDraft} {plan : Option SurfacePlan}
    (hlegacy : assertSupportedRequestHeader (some (.str draft.data.type)) (some draft.payload)
      = .ok ())
    (hplan : planNext state (stored s.events) (draft.event s.events.length).json = .ok plan) :
    s.append draft = .ok { s with events := s.events ++ [draft.event s.events.length] } ∧
      surfaceAfter (stored (s.events ++ [draft.event s.events.length])) =
        .ok (commitPlan state plan) := by
  have hnext : surfaceAfter (stored (s.events ++ [draft.event s.events.length])) =
      .ok (commitPlan state plan) := by
    rw [surfaceAfter, stored_append,
      show stored [draft.event s.events.length] = [(draft.event s.events.length).json] from rfl,
      Replay.replay_concat]
    exact Replay.bind_eq_ok.mpr ⟨state, h.surface, Replay.map_eq_ok.mpr ⟨plan, hplan, rfl⟩⟩
  exact ⟨Session.append_eq_ok.mpr ⟨hlegacy, validateNext_eq_ok.mpr ⟨_, hnext⟩, rfl⟩, hnext⟩

/-- An event that does not join the surface is appended, and leaves it as it is. -/
theorem append_logOnly (h : s.Folds state) (draft : EventDraft)
    (hlegacy : assertSupportedRequestHeader (some (.str draft.data.type)) (some draft.payload)
      = .ok ())
    (heligible : isSurfaceEligibleType (some (.str draft.data.type)) = false)
    (hop : draft.surfaceOp = none) (hsources : draft.sourceEventSeqs = none) :
    ∃ next, s.append draft = .ok next ∧ next.Folds state ∧
      next.events = s.events ++ [draft.event s.events.length] := by
  have hget {k : String} {v : Value} (hv : (k, v) ∈ draft.fields s.events.length) :
      (draft.event s.events.length).json.get? k = v := draft.get?_json _ hv
  have hsurfaceOp : surfaceOpOf (draft.event s.events.length).json = .ok none := by
    have hnoOp : (draft.event s.events.length).json.get? "surfaceOp" = none :=
      hget (by simp [EventDraft.fields, hop])
    have hnoSources : (draft.event s.events.length).json.get? "sourceEventSeqs" = none :=
      hget (by simp [EventDraft.fields, hsources])
    have htype : (draft.event s.events.length).json.get? "type" = some (.str draft.data.type) :=
      (draft.event s.events.length).type
    rw [surfaceOpOf, htype, if_pos heligible, hnoOp, hnoSources]
    simp
  have hplan : planNext state (stored s.events) (draft.event s.events.length).json = .ok none := by
    rw [planNext, planSurfaceEvent]
    simp only [hsurfaceOp]
    rw [if_neg (not_not.mpr ((draft.event s.events.length).seq.trans (by
      rw [length_stored]
      rfl)))]
  obtain ⟨happend, hnext⟩ := h.append_planned hlegacy hplan
  exact ⟨_, happend, ⟨hnext, h.nodup⟩, rfl⟩

/-- **A rewrite of one node is appended**, and puts its event in the place of the node. -/
theorem append_rewrite (h : s.Folds state) {seq : ℕ} {e : StoredEvent} (data : EventData)
    (payload : Json) (time : SafeNat) (hsafe : Number.IsSafe seq) (hmem : seq ∈ state.nodes)
    (hget : s.events[seq]? = some e)
    (heligible : isSurfaceEligibleType (some (.str data.type)) = true)
    (hcontent : data.type = js "tool/result" → e.event.data.type = js "tool/result" ∧
      ∃ x, withoutContent (e.json.get? "data") = .ok x ∧
        withoutContent (some payload) = .ok x ∧ isDeepEqualJson x x = true) :
    ∃ next state', s.append (rewriteDraft seq data payload time) = .ok next ∧ next.Folds state' ∧
      next.events = s.events ++ [(rewriteDraft seq data payload time).event s.events.length] ∧
      state'.nodes = renumber seq s.events.length state.nodes := by
  have hfield {k : String} {v : Value}
      (hv : (k, v) ∈ (rewriteDraft seq data payload time).fields s.events.length) :
      ((rewriteDraft seq data payload time).event s.events.length).json.get? k = v :=
    (rewriteDraft seq data payload time).get?_json _ hv
  have htype := ((rewriteDraft seq data payload time).event s.events.length).type
  have hnumber := ((rewriteDraft seq data payload time).event s.events.length).seq
  have hrewrites : Rewrites (stored s.events) seq
      ((rewriteDraft seq data payload time).event s.events.length).json := by
    refine ⟨htype ▸ heligible, hnumber.trans (by rw [length_stored]; rfl),
      hfield (by simp [EventDraft.fields, rewriteDraft]),
      hfield (by simp [EventDraft.fields, rewriteDraft]), fun htool ↦ ?_⟩
    rw [htype, Option.some.injEq, text, Json.str.injEq] at htool
    obtain ⟨htool', x, hx, hx', heq⟩ := hcontent htool
    refine ⟨e.json, x, ?_, by rw [e.type, htool']; rfl, hx, ?_, heq⟩
    · rw [stored, List.getElem?_map, hget]
      rfl
    · have hdata : ((rewriteDraft seq data payload time).event s.events.length).json.get? "data"
          = some payload := hfield (by simp [EventDraft.fields, rewriteDraft])
      rw [hdata]
      exact hx'
  have hlt := h.lt_length hmem
  obtain ⟨plan, hplan, hnodes⟩ := hrewrites.plan hsafe hmem (by rwa [length_stored]) h.nodup
  rw [length_stored] at hnodes
  have hlegacy : assertSupportedRequestHeader
      (some (.str (rewriteDraft seq data payload time).data.type))
      (some (rewriteDraft seq data payload time).payload) = .ok () := by
    have hdata : (rewriteDraft seq data payload time).data = data := rfl
    rw [hdata, assertSupportedRequestHeader, if_neg, if_neg]
    · rintro ⟨hheader, -⟩
      rw [hheader] at heligible
      cases heligible
    · intro hdelta
      rw [hdelta] at heligible
      cases heligible
  obtain ⟨happend, hnext⟩ := h.append_planned hlegacy hplan
  refine ⟨_, _, happend, ⟨hnext, ?_⟩, rfl, hnodes⟩
  -- The number of the new event is on the surface nowhere else.
  rw [hnodes, renumber]
  refine h.nodup.map_on fun a ha b hb hab ↦ ?_
  have ha' := h.lt_length ha
  have hb' := h.lt_length hb
  split_ifs at hab with h1 h2 h2
  · rw [h1, h2]
  · omega
  · omega
  · exact hab

end Session.Folds

/-! ## A pass over the surface -/

/-- `session.surface.nodes` -/
def surfaceNodes (session : Session) : List ℕ :=
  match surfaceAfter (stored session.events) with
  | .ok state => state.nodes
  | .error _ => []

theorem surfaceNodes_eq {session : Session} {state : SurfaceFoldState}
    (h : surfaceAfter (stored session.events) = .ok state) :
    surfaceNodes session = state.nodes := by
  rw [surfaceNodes, h]

section Pass

variable {σ ε : Type*} (view : σ → Session) (rewrite : σ → ℕ → Except ε σ)
  (Candidate Pending : ℕ → StoredEvent → Prop) (Becomes : ℕ → StoredEvent → StoredEvent → Prop)

/-- What a pass does at a candidate: nothing, or it rewrites the node behind other events. -/
structure RewritesNode : Prop where
  skip : ∀ t seq e, (view t).events[seq]? = some e → Candidate seq e → ¬ Pending seq e →
    rewrite t seq = .ok t
  step : ∀ t state seq e, (view t).Folds state → seq ∈ state.nodes →
    (view t).events[seq]? = some e → Number.IsSafe seq → Candidate seq e → Pending seq e →
    ∃ t' before e', rewrite t seq = .ok t' ∧ (view t').events = (view t).events ++ before ++ [e'] ∧
      Becomes seq e e' ∧ ∃ state', (view t').Folds state' ∧
        state'.nodes = renumber seq ((view t).events ++ before).length state.nodes

variable {view rewrite Candidate Pending Becomes}

/-- What becomes of a node of the surface when a pass goes over some of them. -/
structure Passed (Pending : ℕ → StoredEvent → Prop)
    (Becomes : ℕ → StoredEvent → StoredEvent → Prop) (seqs : List ℕ)
    (before after : List StoredEvent) (seq seq' : ℕ) : Prop where
  rewritten : ∀ e, before[seq]? = some e → seq ∈ seqs → Pending seq e →
    ∃ e', after[seq']? = some e' ∧ Becomes seq e e'
  kept : ∀ e, before[seq]? = some e → ¬ (seq ∈ seqs ∧ Pending seq e) → seq' = seq

/-- **A pass comes to its end.** What it goes over is rewritten where it is pending, in its place,
and the surface keeps its length and order. -/
theorem RewritesNode.exists_pass (h : RewritesNode view rewrite Candidate Pending Becomes)
    (seqs : List ℕ) : ∀ t state, (view t).Folds state → seqs ⊆ state.nodes → seqs.Nodup →
      (∀ seq ∈ seqs, Number.IsSafe seq) →
      (∀ seq ∈ seqs, ∀ e, (view t).events[seq]? = some e → Candidate seq e) →
      ∃ t' state' added place, seqs.foldlM rewrite t = .ok t' ∧ (view t').Folds state' ∧
        (view t').events = (view t).events ++ added ∧ state'.nodes = state.nodes.map place ∧
        ∀ seq ∈ state.nodes,
          Passed Pending Becomes seqs (view t).events (view t').events seq (place seq) := by
  induction seqs with
  | nil =>
    intro t state hfolds _ _ _ _
    refine ⟨t, state, [], id, rfl, hfolds, (List.append_nil _).symm, (List.map_id _).symm, ?_⟩
    exact fun seq _ ↦ ⟨fun _ _ hc ↦ absurd hc List.not_mem_nil, fun _ _ _ ↦ rfl⟩
  | cons seq seqs ih =>
    intro t state hfolds hsub hnd hsafe hcandidate
    obtain ⟨hmem, hsub⟩ := List.cons_subset.mp hsub
    obtain ⟨hfresh, hnd⟩ := List.nodup_cons.mp hnd
    obtain ⟨hseq, hsafe⟩ := List.forall_mem_cons.mp hsafe
    obtain ⟨e, he⟩ := hfolds.exists_event hmem
    obtain ⟨hself, hcandidate⟩ := List.forall_mem_cons.mp hcandidate
    by_cases hpending : Pending seq e
    · obtain ⟨t₁, before, e', hrewrite, hevents, hbecomes, state₁, hfolds₁, hnodes⟩ :=
        h.step t state seq e hfolds hmem he hseq (hself e he) hpending
      set n := ((view t).events ++ before).length with hn
      -- The rest of the snapshot is on the surface still.
      have hlt : ∀ m ∈ state.nodes, m < n := fun m hm ↦ by
        have := hfolds.lt_length hm
        rw [hn, List.length_append]
        omega
      have hsub₁ : seqs ⊆ state₁.nodes := fun m hm ↦ by
        rw [hnodes, renumber, List.mem_map]
        exact ⟨m, hsub hm, if_neg fun hc : m = seq ↦ hfresh (hc ▸ hm)⟩
      have hget : ∀ m ∈ state.nodes, (view t₁).events[m]? = (view t).events[m]? := fun m hm ↦ by
        rw [hevents, List.append_assoc, List.getElem?_append_left (hfolds.lt_length hm)]
      obtain ⟨t', state', added, place, hpass, hfolds', hadded, hplace, hpassed⟩ :=
        ih t₁ state₁ hfolds₁ hsub₁ hnd hsafe
          fun m hm f hf ↦ hcandidate m hm f ((hget m (hsub hm)).symm.trans hf)
      refine ⟨t', state', before ++ [e'] ++ added, fun m ↦ place (if m = seq then n else m),
        ?_, hfolds', ?_, ?_, fun m hm ↦ ?_⟩
      · rw [List.foldlM_cons, hrewrite]
        exact hpass
      · rw [hadded, hevents]
        simp only [List.append_assoc]
      · rw [hplace, hnodes, renumber, List.map_map]
        rfl
      · have hm₁ : (if m = seq then n else m) ∈ state₁.nodes := by
          rw [hnodes, renumber]
          exact List.mem_map_of_mem hm
        have hrest := hpassed _ hm₁
        beta_reduce
        by_cases hmseq : m = seq
        · rw [if_pos hmseq] at hrest ⊢
          have hnew : (view t₁).events[n]? = some e' := by
            rw [hevents, hn]
            exact List.getElem?_concat_length
          -- The rewritten event is none of the snapshot, so the rest of the pass leaves it there.
          rw [hrest.kept e' hnew fun hc ↦ (hlt n (hsub hc.1)).false]
          refine ⟨fun f hf _ _ ↦ ⟨e', ?_, ?_⟩, fun f hf hc ↦ absurd ?_ hc⟩
          · rw [hadded, List.getElem?_append_left, hnew]
            exact (List.getElem?_eq_some_iff.mp hnew).1
          · rw [hmseq, he, Option.some.injEq] at hf
            rw [hmseq, ← hf]
            exact hbecomes
          · rw [hmseq, he, Option.some.injEq] at hf
            rw [hmseq, ← hf]
            exact ⟨List.mem_cons_self, hpending⟩
        · rw [if_neg hmseq] at hrest ⊢
          refine ⟨fun f hf hin ↦ ?_, fun f hf hc ↦ ?_⟩
          · exact hrest.rewritten f ((hget m hm).trans hf)
              ((List.mem_cons.mp hin).resolve_left hmseq)
          · exact hrest.kept f ((hget m hm).trans hf) fun h ↦ hc ⟨List.mem_cons_of_mem _ h.1, h.2⟩
    · have hskip := h.skip t seq e he (hself e he) hpending
      obtain ⟨t', state', added, place, hpass, hfolds', hadded, hplace, hpassed⟩ :=
        ih t state hfolds hsub hnd hsafe hcandidate
      refine ⟨t', state', added, place, ?_, hfolds', hadded, hplace, fun m hm ↦ ?_⟩
      · rw [List.foldlM_cons, hskip]
        exact hpass
      · have hrest := hpassed m hm
        refine ⟨fun f hf hin hf' ↦ ?_, fun f hf hc ↦ ?_⟩
        · refine hrest.rewritten f hf ((List.mem_cons.mp hin).resolve_left fun hmseq ↦ ?_) hf'
          rw [hmseq, he, Option.some.injEq] at hf
          rw [hmseq, ← hf] at hf'
          exact hpending hf'
        · exact hrest.kept f hf fun h ↦ hc ⟨List.mem_cons_of_mem _ h.1, h.2⟩

theorem foldlM_self {f : σ → ℕ → Except ε σ} {seqs : List ℕ} {t : σ}
    (h : ∀ seq ∈ seqs, f t seq = .ok t) : seqs.foldlM f t = .ok t := by
  induction seqs with
  | nil => rfl
  | cons seq seqs ih =>
    rw [List.forall_mem_cons] at h
    rw [List.foldlM_cons, h.1]
    exact ih h.2

end Pass

end XxAgent
