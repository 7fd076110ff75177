import XxAgent.Session.ContentRewrites

/-!
# Withdrawing the instructions of completed turns

A skill that was activated for a turn leaves its instructions on the surface: as the message of the
invocation, or as the result of the call that loaded it. When the turn is over they are replaced by
a marker. Which nodes hold instructions is read off the log: a map of admissions follows every
message and result through the rewrites of its node.

A result is matched to the call it answers by turn and call id only. `nameOf` is the name that the
code looks up that way, under which a later call of the turn may stand; `answered` is the name in
the call that the result does answer.
-/

namespace XxAgent.BusinessSkill

open Ecma

/-! ## Reading events -/

/-- `event.type === type` -/
def ofType (type : String) (e : StoredEvent) : Bool := decide (e.event.data.type = js type)

/-- `event.data[k]` -/
def datum (k : String) (e : StoredEvent) : Value := Value.get k (e.json.get? "data")

/-- `event.data.message.source.callId` -/
def callId (e : StoredEvent) : Value := ((datum "message" e).get "source").get "callId"

/-- `event.data.message.content[0].isError` -/
def isError (e : StoredEvent) : Bool :=
  decide ((resultBlock (e.json.get? "data")).get "isError" = some (.bool true))

/-- The name of the skill that a call loads; invalid arguments name none. -/
def skillName (argumentsJson : Value) : Value :=
  match argumentsJson with
  | some (.str s) =>
    match parse s with
    | some (.obj fields) => fieldOf (js "name") fields
    | _ => none
  | _ => none

/-- The last event of a kind: what a map keeps that is filled in the order of the log. -/
def lastWhere (p : StoredEvent → Bool) (log : List StoredEvent) : Option StoredEvent :=
  (log.filter p).getLast?

variable (log : List StoredEvent)

/-- `activations.get(turn)` -/
def activations (turn : Value) : Option StoredEvent :=
  lastWhere (fun e ↦ ofType "business-skill/activated" e && decide (datum "turn" e = turn)) log

/-- `completed.has(turn)` -/
def completed (turn : Value) : Bool :=
  log.any fun e ↦ ofType "turn/end" e && decide (datum "turn" e = turn)

/-- `calls.get(...)`; the key names turn and call id, which a colon parts. -/
def calls (turn callId : Value) : Value :=
  (lastWhere (fun e ↦ ofType "tool/call" e && decide (datum "name" e = some (text "skill")) &&
    decide (datum "turn" e = turn ∧ datum "callId" e = callId)) log).bind
      fun e ↦ skillName (datum "arguments" e)

/-- The name under which the code knows a result. -/
def nameOf (e : StoredEvent) : Value := calls log (datum "turn" e) (callId e)

/-- The skill that the call loads which a result answers: the last call before it with its id. -/
def answered (e : StoredEvent) : Value :=
  (lastWhere (fun c ↦ ofType "tool/call" c && decide (datum "callId" c = callId e))
    (log.take e.event.seq)).bind fun c ↦
      if datum "name" c = some (text "skill") then skillName (datum "arguments" c) else none

/-! ## Admissions -/

/-- The turn that is open behind an event. -/
def turnAfter (turn : Value) (e : StoredEvent) : Value :=
  if ofType "turn/start" e then datum "turn" e else if ofType "turn/end" e then none else turn

/-- Whether the source of a message is an invocation of the skill. -/
def isInvocation (slug : Value) (e : StoredEvent) : Bool :=
  decide ((datum "source" e).get "kind" = some (text "skill-invocation") ∧
    (datum "source" e).get "name" = slug)

/-- Whether an event brings the instructions of an activation to the surface, where results are
known by `named`. -/
def instructs (named : StoredEvent → Value) (activation : StoredEvent) (turn : Value)
    (e : StoredEvent) : Bool :=
  decide (activation.event.seq ≤ e.event.seq) && decide (e.event.surfaceOp = some .append) &&
    (ofType "user/message" e && isInvocation (datum "slug" activation) e ||
      ofType "tool/result" e && decide (datum "turn" e = turn) &&
        decide (named e = datum "slug" activation) && !isError e)

/-- Whether what replaces the node `start` is the same message or result. -/
def keepsInstructions (admission e : StoredEvent) (start : ℕ) : Bool :=
  ofType "tool/result" e || ofType "user/message" e &&
    (log[start]?.map fun original ↦
      ofType "user/message" original && decide (datum "id" e = datum "id" original)).getD false &&
    isInvocation (datum "slug" admission) e

/-- What the walk over the log carries. -/
structure Admissions where
  admissions : ℕ → Option StoredEvent := fun _ ↦ none
  turn : Value := none

/-- One turn of the loop. -/
def admitEvent (named : StoredEvent → Value) (st : Admissions) (e : StoredEvent) : Admissions :=
  let rewritten : Option StoredEvent :=
    match e.event.surfaceOp with
    | some (.replace start stop) =>
      if start = stop then
        (st.admissions start).filter fun admission ↦ keepsInstructions log admission e start
      else none
    | _ => none
  let turn := turnAfter st.turn e
  let appended : Option StoredEvent :=
    if turn.isSome && completed log turn then
      (activations log turn).filter fun activation ↦ instructs named activation turn e
    else none
  { turn
    admissions :=
      match appended.or rewritten with
      | some activation => fun seq ↦
        if seq = e.event.seq then some activation else st.admissions seq
      | none => st.admissions }

/-- The activations whose instructions stand under the seqs of a log. -/
def admissionsOf (named : StoredEvent → Value) : ℕ → Option StoredEvent :=
  (log.foldl (admitEvent log named) {}).admissions

/-! ## Replacing -/

variable {log}

/-- The text that stands for the instructions. -/
def markerText (activation : StoredEvent) : JsString :=
  js "Business Skill " ++ display (datum "slug" activation) ++ js " v" ++
    display (datum "version" activation) ++ js " was used in turn " ++
    display (datum "turn" activation) ++ js "."

/-- The block of the marker. -/
def markerBlock (activation : StoredEvent) : Json :=
  .obj [prop "type" (text "text"), prop "text" (.str (markerText activation))]

/-- The content of a message, or of the block of a result. -/
def contentOf (e : StoredEvent) : Value :=
  if ofType "user/message" e then datum "content" e
  else (resultBlock (e.json.get? "data")).get "content"

/-- Whether the content is the marker already. -/
def showsMarker (activation e : StoredEvent) : Bool :=
  match contentOf e with
  | some (.arr [first]) => decide (first.get? "type" = some (text "text") ∧
      first.get? "text" = some (.str (markerText activation)))
  | _ => false

/-- The data of an event with the marker for its content. -/
def markedData (activation e : StoredEvent) : Json :=
  let marker : Json := .arr [markerBlock activation]
  if ofType "user/message" e then
    .obj (setField (spread (e.json.get? "data")) (js "content") marker)
  else withContent (e.json.get? "data") marker

/-- The typed side of it. -/
def typedData (activation : StoredEvent) : EventData → EventData
  | .toolResult turn step message error => .toolResult turn step
      { message with block := { message.block with content := [markerBlock activation] } } error
  | data => data

/-- One turn of the loop over a snapshot of the surface. -/
def withdraw (clock : ℕ → SafeNat) (admissions : ℕ → Option StoredEvent) (session : Session)
    (seq : ℕ) : Except (AppendFault × Session) Session :=
  match admissions seq, session.events[seq]? with
  | some activation, some e =>
    if !(ofType "user/message" e || ofType "tool/result" e) || showsMarker activation e then
      .ok session
    else
      (session.append (rewriteDraft seq (typedData activation e.event.data)
        (markedData activation e) (clock session.events.length))).mapError fun fault ↦
          (fault, session)
  | _, _ => .ok session

/-- Replace completed admissions using durable activation and tool-call identities. -/
def replaceCompletedInstructions (clock : ℕ → SafeNat) (session : Session) :
    Except (AppendFault × Session) Session :=
  (surfaceNodes session).foldlM
    (withdraw clock (admissionsOf session.events (nameOf session.events))) session

/-! ## Where instructions stand -/

variable (log)

/-- The turn that is open when the event `k` is logged. -/
def turnAt (k : ℕ) : Value := (log.take (k + 1)).foldl turnAfter none

/-- An event that brought the instructions of an activation, in a turn that is over. -/
structure IsRoot (named : StoredEvent → Value) (activation : StoredEvent) (root : ℕ) : Prop where
  turn : (turnAt log root).isSome = true
  completed : completed log (turnAt log root) = true
  activated : activations log (turnAt log root) = some activation
  instructs : ∃ e, log[root]? = some e ∧ instructs named activation (turnAt log root) e = true

/-- A node that another became by rewrites of single nodes. -/
inductive Descends (activation : StoredEvent) : ℕ → ℕ → Prop
  | self (root : ℕ) : Descends activation root root
  | rewrite {root start seq : ℕ} {e : StoredEvent} (h : Descends activation root start)
      (hget : log[seq]? = some e) (hop : e.event.surfaceOp = some (.replace start start))
      (hkeeps : keepsInstructions log activation e start = true) : Descends activation root seq

/-- The node holds instructions that are to be withdrawn. -/
def Withdrawn (named : StoredEvent → Value) (seq : ℕ) (activation : StoredEvent) : Prop :=
  ∃ root, IsRoot log named activation root ∧ Descends log activation root seq

/-- A result whose call id leads to another call than the one it answers, and only one of the two
loads the skill. -/
def Confused (activation : StoredEvent) (root : ℕ) : Prop :=
  ¬ (IsRoot log (nameOf log) activation root ↔ IsRoot log (answered log) activation root)

/-! ## The purpose -/

/-- A node whose content became the marker. -/
structure Marked (activation e e' : StoredEvent) : Prop where
  type : e'.event.data.type = e.event.data.type
  data : e'.json.get? "data" = some (markedData activation e)

/-- What becomes of one node: it is changed only if it holds instructions, and if it does, it shows
the marker. -/
structure NodeExact (before after : Session) (seq seq' : ℕ) (e : StoredEvent) : Prop where
  changed : seq' ≠ seq → ∃ activation e',
    Withdrawn before.events (answered before.events) seq activation ∧
      after.events[seq']? = some e' ∧ Marked activation e e'
  marked : ∀ activation, Withdrawn before.events (answered before.events) seq activation →
    ∃ e', after.events[seq']? = some e' ∧ showsMarker activation e' = true

/-- Completed skill instructions are withdrawn exactly. -/
def WithdrawsExactly (clock : ℕ → SafeNat) (s : Session) (state : SurfaceFoldState) : Prop :=
  ∃ s' state' place, replaceCompletedInstructions clock s = .ok s' ∧
    (∃ added, s'.events = s.events ++ added) ∧ surfaceAfter (stored s'.events) = .ok state' ∧
    state'.nodes = state.nodes.map place ∧
    (∀ seq ∈ state.nodes, ∀ e, s.events[seq]? = some e → NodeExact s s' seq (place seq) e) ∧
    ∀ clock', replaceCompletedInstructions clock' s' = .ok s'

/-- No node descends from a confused result, unless it shows the marker already. -/
def Unconfused (s : Session) : Prop :=
  ∀ seq ∈ surfaceNodes s, ∀ e activation root, s.events[seq]? = some e →
    Confused s.events activation root → Descends s.events activation root seq →
      showsMarker activation e = true

/-!
## Completed instructions are withdrawn

The admissions are the activations whose instructions a node holds: one step of the walk decides it
for its own event, and an induction over the log for all. They differ from the true ones only at
nodes that descend from a confused result, which is the whole difference between what the pass does
and what it should do.

What the pass appends are messages and results. No later lookup finds them, so a second pass admits
the same nodes and finds their markers.
-/

/-! ## The admissions -/

/-- Events stand under their seqs, and replacements look back. -/
structure Placed (log : List StoredEvent) : Prop where
  seq : ∀ (k : ℕ) (e : StoredEvent), log[k]? = some e → e.event.seq = k
  back : ∀ (k : ℕ) (e : StoredEvent) (start stop : ℕ), log[k]? = some e →
    e.event.surfaceOp = some (.replace start stop) → start < k

theorem placed_of_surface {log : List StoredEvent}
    (h : ∃ state, surfaceAfter (stored log) = .ok state) : Placed log where
  seq k e hget := seq_of_getElem? h hget
  back k e start stop hget hop := by
    obtain ⟨hlt, rfl⟩ := List.getElem?_eq_some_iff.mp hget
    have hsplit : log = (log.take k ++ [log[k]]) ++ log.drop (k + 1) := by
      rw [List.append_assoc, List.singleton_append, List.getElem_cons_drop, List.take_append_drop]
    rw [hsplit] at h
    obtain ⟨state, hstate, hplan⟩ := Replay.bind_eq_ok.mp
      (validateNext_eq_ok.mpr (exists_surfaceAfter_of_append h))
    obtain ⟨plan, hplan, -⟩ := Replay.map_eq_ok.mp hplan
    have hsurfaced := (surfaced_of_planNext hplan).2
    rw [hop] at hsurfaced
    generalize commitPlan state plan = next at hsurfaced
    cases hsurfaced with
    | replace range =>
      obtain ⟨hlt', hget', -⟩ := List.idxOf?_eq_some_iff.mp (replacementRange_eq_ok range).1
      have hbelow := below_surfaceAfter hstate start (hget' ▸ List.getElem_mem hlt')
      rw [length_stored, List.length_take] at hbelow
      omega

variable {log} {named named' : StoredEvent → Value}

theorem instructs_append {activation e : StoredEvent} {turn : Value}
    (h : instructs named activation turn e = true) : e.event.surfaceOp = some .append := by
  rw [instructs, Bool.and_eq_true, Bool.and_eq_true, decide_eq_true_iff, decide_eq_true_iff] at h
  exact h.1.2

theorem IsRoot.append {activation : StoredEvent} {root : ℕ} (h : IsRoot log named activation root)
    {e : StoredEvent} (hget : log[root]? = some e) : e.event.surfaceOp = some .append := by
  obtain ⟨e', hget', hinstructs⟩ := h.instructs
  rw [hget, Option.some.injEq] at hget'
  rw [hget']
  exact instructs_append hinstructs

/-- A node descends from one root, under one activation. -/
theorem Descends.root_unique {a a' : StoredEvent} {root root' seq : ℕ}
    (h : Descends log a root seq) (hroot : IsRoot log named a root)
    (h' : Descends log a' root' seq) (hroot' : IsRoot log named' a' root') :
    root = root' ∧ a = a' := by
  induction h with
  | self =>
    cases h' with
    | self => exact ⟨rfl, Option.some.inj (hroot.activated.symm.trans hroot'.activated)⟩
    | rewrite _ hget hop _ => cases (hroot.append hget).symm.trans hop
  | rewrite _ hget hop _ ih =>
    cases h' with
    | self => cases (hroot'.append hget).symm.trans hop
    | rewrite h'' hget' hop' _ =>
      rw [hget, Option.some.injEq] at hget'
      rw [← hget', hop] at hop'
      simp only [Option.some.injEq, SurfaceOp.replace.injEq, and_self] at hop'
      exact ih (hop' ▸ h'')

/-- The walk behind `k` events. -/
structure Walked (log : List StoredEvent) (named : StoredEvent → Value) (k : ℕ)
    (st : Admissions) : Prop where
  turn : st.turn = (log.take k).foldl turnAfter none
  admissions : ∀ seq a, st.admissions seq = some a ↔ seq < k ∧ Withdrawn log named seq a

/-- What a node is admitted under is decided by its own event. -/
theorem Walked.own {k : ℕ} {st : Admissions} (h : Walked log named k st) (hplaced : Placed log)
    {e : StoredEvent} (hget : log[k]? = some e) (a : StoredEvent) :
    (Option.or
      (if (turnAt log k).isSome && completed log (turnAt log k) then
        (activations log (turnAt log k)).filter fun activation ↦
          instructs named activation (turnAt log k) e
      else none)
      (match e.event.surfaceOp with
      | some (.replace start stop) =>
        if start = stop then
          (st.admissions start).filter fun admission ↦ keepsInstructions log admission e start
        else none
      | _ => none)) = some a ↔ Withdrawn log named k a := by
  have hnone (hop : e.event.surfaceOp ≠ some .append) :
      (activations log (turnAt log k)).filter (fun activation ↦
        instructs named activation (turnAt log k) e) = none := by
    rw [Option.filter_eq_none_iff]
    exact fun activation _ hinstructs ↦ hop (instructs_append hinstructs)
  rcases hop : e.event.surfaceOp with _ | _ | ⟨start, stop⟩
  · rw [hnone (by simp [hop]), ite_self]
    refine iff_of_false (by simp) ?_
    rintro ⟨root, hroot, hdescends⟩
    cases hdescends with
    | self => cases hop.symm.trans (hroot.append hget)
    | rewrite _ hget' hop' _ =>
      rw [hget, Option.some.injEq] at hget'
      cases hop.symm.trans (hget' ▸ hop')
  · simp only [Option.or_none]
    constructor
    · intro howned
      split_ifs at howned with hcompleted
      obtain ⟨hactivated, hinstructs⟩ := Option.filter_eq_some_iff.mp howned
      rw [Bool.and_eq_true] at hcompleted
      exact ⟨k, ⟨hcompleted.1, hcompleted.2, hactivated, e, hget, hinstructs⟩, .self k⟩
    · rintro ⟨root, hroot, hdescends⟩
      cases hdescends with
      | self =>
        obtain ⟨e', hget', hinstructs⟩ := hroot.instructs
        rw [hget, Option.some.injEq] at hget'
        rw [if_pos (by rw [hroot.turn, hroot.completed]; rfl)]
        exact Option.filter_eq_some_iff.mpr ⟨hroot.activated, hget' ▸ hinstructs⟩
      | rewrite _ hget' hop' _ =>
        rw [hget, Option.some.injEq] at hget'
        cases hop.symm.trans (hget' ▸ hop')
  · rw [hnone (by simp [hop]), ite_self, Option.none_or]
    simp only
    constructor
    · intro howned
      split_ifs at howned with heq
      obtain ⟨hadmitted, hkeeps⟩ := Option.filter_eq_some_iff.mp howned
      obtain ⟨-, root, hroot, hdescends⟩ := (h.admissions start a).mp hadmitted
      exact ⟨root, hroot, .rewrite hdescends hget (heq ▸ hop) hkeeps⟩
    · rintro ⟨root, hroot, hdescends⟩
      cases hdescends with
      | self => cases hop.symm.trans (hroot.append hget)
      | rewrite hdescends' hget' hop' hkeeps =>
        rw [hget, Option.some.injEq] at hget'
        subst hget'
        rw [hop, Option.some.injEq, SurfaceOp.replace.injEq] at hop'
        obtain ⟨rfl, rfl⟩ := hop'
        rw [if_pos rfl]
        exact Option.filter_eq_some_iff.mpr ⟨(h.admissions _ a).mpr
          ⟨hplaced.back k e _ _ hget hop, root, hroot, hdescends'⟩, hkeeps⟩

theorem Walked.step {k : ℕ} {st : Admissions} (h : Walked log named k st) (hplaced : Placed log)
    {e : StoredEvent} (hget : log[k]? = some e) :
    Walked log named (k + 1) (admitEvent log named st e) := by
  have htake : log.take (k + 1) = log.take k ++ [e] := by
    rw [List.take_add_one, hget]
    rfl
  have hturn : turnAfter st.turn e = turnAt log k := by
    rw [turnAt, htake, List.foldl_concat, h.turn]
  refine ⟨by rw [admitEvent, hturn]; rfl, fun seq a ↦ ?_⟩
  have hown := h.own hplaced hget a
  rw [admitEvent]
  simp only [hturn, hplaced.seq k e hget]
  generalize Option.or _ _ = own at hown ⊢
  by_cases hseq : seq = k
  · subst hseq
    have hnone : st.admissions seq = none := by
      cases hst : st.admissions seq with
      | none => rfl
      | some b => exact absurd ((h.admissions seq b).mp hst).1 (Nat.lt_irrefl seq)
    rw [← hown]
    cases own with
    | none => simp [hnone]
    | some b => simp
  · have hrest : st.admissions seq = some a ↔ seq < k + 1 ∧ Withdrawn log named seq a := by
      rw [h.admissions seq a]
      refine and_congr_left fun _ ↦ ?_
      omega
    cases own with
    | none => exact hrest
    | some b =>
      simp only [hseq, if_false]
      exact hrest

theorem walked_take (hplaced : Placed log) (k : ℕ) (hk : k ≤ log.length) :
    Walked log named k ((log.take k).foldl (admitEvent log named) {}) := by
  induction k with
  | zero => exact ⟨rfl, fun seq a ↦ by simp⟩
  | succ k ih =>
    have hget := List.getElem?_eq_getElem hk
    rw [List.take_add_one, hget, Option.toList_some, List.foldl_concat]
    exact (ih (Nat.le_of_succ_le hk)).step hplaced hget

theorem Descends.lt_length {a : StoredEvent} {root seq : ℕ} (h : Descends log a root seq)
    (hroot : root < log.length) : seq < log.length := by
  cases h with
  | self => exact hroot
  | rewrite _ hget _ _ => exact (List.getElem?_eq_some_iff.mp hget).1

/-- **The admissions are the nodes with instructions.** -/
theorem admissionsOf_eq_some (hplaced : Placed log) {seq : ℕ} {a : StoredEvent} :
    admissionsOf log named seq = some a ↔ Withdrawn log named seq a := by
  have hwalked := @walked_take log named hplaced log.length le_rfl
  rw [List.take_length] at hwalked
  rw [admissionsOf, hwalked.admissions seq a]
  refine and_iff_right_of_imp ?_
  rintro ⟨root, hroot, hdescends⟩
  obtain ⟨e, hget, -⟩ := hroot.instructs
  exact hdescends.lt_length (List.getElem?_eq_some_iff.mp hget).1

/-! ## Rewriting one node -/

theorem showsMarker_of_markedData {activation e e' : StoredEvent}
    (hdata : e'.json.get? "data" = some (markedData activation e))
    (htype : e'.event.data.type = e.event.data.type) : showsMarker activation e' = true := by
  have hcontent : contentOf e' = some (.arr [markerBlock activation]) := by
    have hsame : ofType "user/message" e' = ofType "user/message" e := by
      rw [ofType, ofType, htype]
    rw [contentOf, datum, hdata, markedData, hsame]
    split_ifs
    · rw [Value.get_some, Json.get?_obj, fieldOf_setField_self]
    · have hfirst := firstElement_withContent (e.json.get? "data") (.arr [markerBlock activation])
      rw [resultBlock, Value.get_some, hfirst]
      simp only [Value.get_some, Json.get?_obj, fieldOf_setField_self]
  rw [showsMarker, hcontent]
  simp [markerBlock, fieldOf]

@[simp] theorem type_typedData (activation : StoredEvent) (data : EventData) :
    (typedData activation data).type = data.type := by
  cases data <;> rfl

/-- A tool result has its block, and no object of an event has a key twice. -/
structure TypedEvent (e : StoredEvent) : Prop where
  block : ofType "tool/result" e = true → (resultBlock (e.json.get? "data")).isSome = true
  wf : e.json.WF

/-- The node is rewritten. -/
def Pending (admissions : ℕ → Option StoredEvent) (seq : ℕ) (e : StoredEvent) : Prop :=
  (ofType "user/message" e || ofType "tool/result" e) = true ∧
    ∃ a, admissions seq = some a ∧ showsMarker a e = false

/-- What it becomes. -/
def Becomes (admissions : ℕ → Option StoredEvent) (seq : ℕ) (e e' : StoredEvent) : Prop :=
  e'.event.surfaceOp = some (.replace seq seq) ∧
    ∃ a, admissions seq = some a ∧ Marked a e e'

variable {clock : ℕ → SafeNat} {admissions : ℕ → Option StoredEvent}

theorem withdraw_of_not_pending {s : Session} {seq : ℕ} {e : StoredEvent}
    (hget : s.events[seq]? = some e) (h : ¬ Pending admissions seq e) :
    withdraw clock admissions s seq = .ok s := by
  rw [withdraw, hget]
  cases hadmitted : admissions seq with
  | none => rfl
  | some a =>
    simp only
    refine if_pos ?_
    by_contra hc
    rw [Bool.or_eq_true, not_or, Bool.not_eq_true, Bool.not_eq_true, Bool.not_eq_false'] at hc
    exact h ⟨hc.1, a, hadmitted, hc.2⟩

theorem rewritesNode : RewritesNode (fun s : Session ↦ s) (withdraw clock admissions)
    (fun _ e ↦ TypedEvent e) (Pending admissions) (Becomes admissions) where
  skip s seq e hget _ hpending := withdraw_of_not_pending hget hpending
  step s state seq e hfolds hmem hget hsafe htyped hpending := by
    obtain ⟨htype, a, hadmitted, hmarker⟩ := hpending
    have hdata : ∀ x ∈ e.json.get? "data", Json.WF x := fun x hx ↦ htyped.wf.of_get? hx
    have heligible :
        isSurfaceEligibleType (some (.str (typedData a e.event.data).type)) = true := by
      rw [type_typedData]
      rw [Bool.or_eq_true, ofType, ofType, decide_eq_true_iff, decide_eq_true_iff] at htype
      rcases htype with htype | htype
      · rw [htype]
        decide +kernel
      · rw [htype]
        decide +kernel
    have hcontent : (typedData a e.event.data).type = js "tool/result" →
        e.event.data.type = js "tool/result" ∧ ∃ x, withoutContent (e.json.get? "data") = .ok x ∧
          withoutContent (some (markedData a e)) = .ok x ∧ isDeepEqualJson x x = true := by
      intro htool
      rw [type_typedData] at htool
      have hnot : ofType "user/message" e = false := by simp [ofType, htool]
      have hblock := htyped.block (by simp [ofType, htool])
      obtain ⟨block, hfirst⟩ : ∃ block, firstElement
          (Value.get "content" (Value.get "message" (e.json.get? "data"))) = .ok block := by
        cases hfirst : firstElement
            (Value.get "content" (Value.get "message" (e.json.get? "data"))) with
        | ok block => exact ⟨block, rfl⟩
        | error fault =>
          rw [resultBlock, hfirst] at hblock
          cases hblock
      obtain ⟨x, hx⟩ := exists_withoutContent hfirst
      refine ⟨htool, x, hx, ?_, isDeepEqualJson_withoutContent hdata hx⟩
      rw [markedData, hnot]
      exact (withoutContent_withContent hfirst _).trans hx
    obtain ⟨next, state', happend, hfolds', hevents, hnodes⟩ := hfolds.append_rewrite
      (typedData a e.event.data) (markedData a e) (clock s.events.length) hsafe hmem hget
      heligible hcontent
    have hwithdraw : withdraw clock admissions s seq = .ok next := by
      rw [withdraw, hadmitted, hget]
      simp only [htype, hmarker, happend]
      rfl
    refine ⟨next, [], _, hwithdraw, by rw [List.append_nil]; exact hevents, ⟨?_, a, hadmitted, ?_,
      ?_⟩, state', hfolds', by rw [List.append_nil]; exact hnodes⟩
    · exact surfaceOp_rewriteDraft _ _ _ hsafe heligible
    · exact type_typedData a e.event.data
    · exact EventDraft.get?_json _ _ (by simp [EventDraft.fields, rewriteDraft])

/-! ## What a pass leaves as it was -/

/-- The type of the events that the pass appends. -/
def isInstruction (e : StoredEvent) : Bool := ofType "user/message" e || ofType "tool/result" e

theorem type_of_instructs {a e : StoredEvent} {turn : Value}
    (h : instructs named a turn e = true) : isInstruction e = true := by
  simp only [instructs, Bool.and_eq_true, Bool.or_eq_true] at h
  rw [isInstruction, Bool.or_eq_true]
  exact h.2.imp And.left fun hresult ↦ hresult.1.1.1

theorem type_of_keeps {a e : StoredEvent} {start : ℕ}
    (h : keepsInstructions log a e start = true) : isInstruction e = true := by
  rw [keepsInstructions, Bool.or_eq_true, Bool.and_eq_true, Bool.and_eq_true] at h
  rw [isInstruction, Bool.or_eq_true]
  exact h.symm.imp (fun hmessage ↦ hmessage.1.1) id

/-- Instructions are messages or results. -/
theorem Withdrawn.type {seq : ℕ} {a e : StoredEvent} (h : Withdrawn log named seq a)
    (hget : log[seq]? = some e) : isInstruction e = true := by
  obtain ⟨root, hroot, hdescends⟩ := h
  cases hdescends with
  | self =>
    obtain ⟨e', hget', hinstructs⟩ := hroot.instructs
    rw [hget, Option.some.injEq] at hget'
    exact hget' ▸ type_of_instructs hinstructs
  | rewrite _ hget' _ hkeeps =>
    rw [hget, Option.some.injEq] at hget'
    exact hget' ▸ type_of_keeps hkeeps

theorem ofType_eq_false {e : StoredEvent} (h : isInstruction e = true) {type : String}
    (huser : "user/message" ≠ type) (hresult : "tool/result" ≠ type) : ofType type e = false := by
  rw [isInstruction, Bool.or_eq_true, ofType, ofType, decide_eq_true_iff, decide_eq_true_iff] at h
  rw [ofType, decide_eq_false_iff_not]
  rcases h with h | h
  · rw [h, js_inj]
    exact huser
  · rw [h, js_inj]
    exact hresult

theorem lastWhere_append {p : StoredEvent → Bool} {added : List StoredEvent}
    (h : ∀ e ∈ added, p e = false) : lastWhere p (log ++ added) = lastWhere p log := by
  have hnone : added.filter p = [] := List.filter_eq_nil_iff.mpr fun e he ↦ by simp [h e he]
  rw [lastWhere, List.filter_append, hnone, List.append_nil]
  rfl

section Added

variable {added : List StoredEvent} (hadded : ∀ e ∈ added, isInstruction e = true)

include hadded

theorem activations_append (turn : Value) :
    activations (log ++ added) turn = activations log turn :=
  lastWhere_append fun e he ↦ by
    rw [ofType_eq_false (hadded e he) (by simp) (by simp), Bool.false_and]

theorem completed_append (turn : Value) : completed (log ++ added) turn = completed log turn := by
  rw [completed, List.any_append, Bool.or_eq_left_iff_imp.mpr]
  · rfl
  · rw [List.any_eq_true]
    rintro ⟨e, he, hend⟩
    rw [ofType_eq_false (hadded e he) (by simp) (by simp)] at hend
    cases hend

theorem nameOf_append : nameOf (log ++ added) = nameOf log := by
  funext e
  rw [nameOf, nameOf, calls, calls, lastWhere_append]
  intro e he
  rw [ofType_eq_false (hadded e he) (by simp) (by simp), Bool.false_and, Bool.false_and]

omit hadded in
theorem turnAt_append {k : ℕ} (hk : k < log.length) : turnAt (log ++ added) k = turnAt log k := by
  rw [turnAt, List.take_append_of_le_length hk]
  rfl

omit hadded in
theorem Descends.le {a : StoredEvent} {root seq : ℕ} (hplaced : Placed log)
    (h : Descends log a root seq) : root ≤ seq := by
  induction h with
  | self => exact le_rfl
  | rewrite _ hget hop _ ih => exact ih.trans (hplaced.back _ _ _ _ hget hop).le

omit hadded in
theorem Descends.of_append {a : StoredEvent} {root seq : ℕ} (hplaced : Placed (log ++ added))
    (h : Descends (log ++ added) a root seq) (hseq : seq < log.length) :
    Descends log a root seq := by
  induction h with
  | self => exact .self _
  | @rewrite start seq e _ hget hop hkeeps ih =>
    have hback := hplaced.back _ _ _ _ hget hop
    have hstart := hback.trans hseq
    rw [List.getElem?_append_left hseq] at hget
    rw [keepsInstructions, List.getElem?_append_left hstart] at hkeeps
    exact .rewrite (ih hstart) hget hop hkeeps

/-- What is appended admits nothing among the old nodes. -/
theorem Withdrawn.of_append {seq : ℕ} {a : StoredEvent} (hplaced : Placed (log ++ added))
    (h : Withdrawn (log ++ added) named seq a) (hseq : seq < log.length) :
    Withdrawn log named seq a := by
  obtain ⟨root, hroot, hdescends⟩ := h
  have hlt := (hdescends.le hplaced).trans_lt hseq
  obtain ⟨hturn, hcompleted, hactivated, e, hget, hinstructs⟩ := hroot
  rw [turnAt_append hlt] at hturn hcompleted hactivated hinstructs
  rw [completed_append hadded] at hcompleted
  rw [activations_append hadded] at hactivated
  rw [List.getElem?_append_left hlt] at hget
  exact ⟨root, ⟨hturn, hcompleted, hactivated, e, hget, hinstructs⟩,
    hdescends.of_append hplaced hseq⟩

end Added

theorem withdraw_added {s next : Session} {seq : ℕ}
    (h : withdraw clock admissions s seq = .ok next) :
    ∃ added, next.events = s.events ++ added ∧ ∀ e ∈ added, isInstruction e = true := by
  have hsame : s = next → ∃ added, next.events = s.events ++ added ∧
      ∀ e ∈ added, isInstruction e = true := by
    rintro rfl
    exact ⟨[], (List.append_nil _).symm, fun _ he ↦ absurd he List.not_mem_nil⟩
  rw [withdraw] at h
  cases hadmitted : admissions seq with
  | none =>
    rw [hadmitted] at h
    exact hsame (Except.ok.inj h)
  | some a =>
    cases hget : s.events[seq]? with
    | none =>
      rw [hadmitted, hget] at h
      exact hsame (Except.ok.inj h)
    | some e =>
      rw [hadmitted, hget] at h
      simp only at h
      split_ifs at h with hskip
      · exact hsame (Except.ok.inj h)
      · obtain ⟨-, -, rfl⟩ := Session.append_eq_ok.mp (mapError_eq_ok.mp h)
        refine ⟨_, rfl, fun x hx ↦ ?_⟩
        rw [Bool.or_eq_true, not_or, Bool.not_eq_true, Bool.not_eq_false'] at hskip
        have htype : ((rewriteDraft seq (typedData a e.event.data) (markedData a e)
            (clock s.events.length)).event s.events.length).event.data.type = e.event.data.type :=
          type_typedData a e.event.data
        rw [List.mem_singleton.mp hx, isInstruction, ofType, ofType, htype]
        exact hskip.1

theorem foldlM_added {seqs : List ℕ} : ∀ {s s' : Session},
    seqs.foldlM (withdraw clock admissions) s = .ok s' →
    ∃ added, s'.events = s.events ++ added ∧ ∀ e ∈ added, isInstruction e = true := by
  induction seqs with
  | nil =>
    rintro s s' ⟨⟩
    exact ⟨[], (List.append_nil _).symm, fun _ he ↦ absurd he List.not_mem_nil⟩
  | cons seq seqs ih =>
    intro s s' h
    rw [List.foldlM_cons] at h
    obtain ⟨next, hnext, h⟩ := Replay.bind_eq_ok.mp h
    obtain ⟨front, hfront, htyped⟩ := withdraw_added hnext
    obtain ⟨back, hback, htyped'⟩ := ih h
    refine ⟨front ++ back, by rw [hback, hfront, List.append_assoc], fun e he ↦ ?_⟩
    exact (List.mem_append.mp he).elim (htyped e) (htyped' e)

/-! ## The pass -/

/-- A session whose log is accepted, with typed events. -/
structure Ready (s : Session) (state : SurfaceFoldState) : Prop where
  surface : surfaceAfter (stored s.events) = .ok state
  length : s.events.length < 2 ^ 32
  typed : ∀ e ∈ s.events, TypedEvent e

variable {s : Session} {state : SurfaceFoldState}

/-- The pass behind some session. -/
structure PassedOver (s s' : Session) (state state' : SurfaceFoldState) (place : ℕ → ℕ) :
    Prop where
  surface : surfaceAfter (stored s'.events) = .ok state'
  nodes : state'.nodes = state.nodes.map place
  log : ∃ added, s'.events = s.events ++ added ∧ ∀ e ∈ added, isInstruction e = true
  passed : ∀ seq ∈ state.nodes, Passed (Pending (admissionsOf s.events (nameOf s.events)))
    (Becomes (admissionsOf s.events (nameOf s.events))) state.nodes s.events s'.events seq
    (place seq)

/-- **The pass is never refused.** -/
theorem exists_replace (clock : ℕ → SafeNat) (h : Ready s state) : ∃ s' state' place,
    replaceCompletedInstructions clock s = .ok s' ∧ PassedOver s s' state state' place := by
  have hfolds := Session.Folds.of_surface (fun e he ↦ (h.typed e he).wf) h.surface
  have hsafe : ∀ seq ∈ state.nodes, Number.IsSafe seq := by
    intro seq hseq
    have := hfolds.lt_length hseq
    have := h.length
    rw [Number.IsSafe, Number.maxSafe]
    omega
  obtain ⟨s', state', -, place, hpass, hfolds', -, hplace, hpassed⟩ :=
    (@rewritesNode clock (admissionsOf s.events (nameOf s.events))).exists_pass state.nodes s state
      hfolds (List.Subset.refl _) hfolds.nodup hsafe
      fun seq _ e he ↦ h.typed e (List.mem_of_getElem? he)
  exact ⟨s', state', place, by rw [replaceCompletedInstructions, surfaceNodes_eq h.surface, hpass],
    hfolds'.surface, hplace, foldlM_added hpass, hpassed⟩

/-- **A second pass appends nothing.** -/
theorem PassedOver.again {s' : Session} {state' : SurfaceFoldState} {place : ℕ → ℕ}
    (h : PassedOver s s' state state' place) (hready : Ready s state) (clock : ℕ → SafeNat) :
    replaceCompletedInstructions clock s' = .ok s' := by
  obtain ⟨added, hadded, htyped⟩ := h.log
  have hplaced := placed_of_surface ⟨_, hready.surface⟩
  have hplaced' := placed_of_surface ⟨_, h.surface⟩
  have hold : ∀ seq < s.events.length, ∀ a,
      admissionsOf s'.events (nameOf s'.events) seq = some a →
      admissionsOf s.events (nameOf s.events) seq = some a := by
    intro seq hseq a ha
    rw [admissionsOf_eq_some hplaced'] at ha
    rw [admissionsOf_eq_some hplaced]
    rw [hadded, nameOf_append htyped] at ha
    rw [hadded] at hplaced'
    exact ha.of_append htyped hplaced' hseq
  refine foldlM_self fun seq' hseq' ↦ ?_
  rw [surfaceNodes_eq h.surface, h.nodes, List.mem_map] at hseq'
  obtain ⟨seq, hseq, rfl⟩ := hseq'
  have hlt := (below_surfaceAfter hready.surface seq hseq).trans_eq (length_stored _)
  obtain ⟨e, he⟩ : ∃ e, s.events[seq]? = some e := ⟨_, List.getElem?_eq_getElem hlt⟩
  by_cases hpending : Pending (admissionsOf s.events (nameOf s.events)) seq e
  · obtain ⟨e', he', hop, a, ha, hmarked⟩ := (h.passed seq hseq).rewritten e he hseq hpending
    refine withdraw_of_not_pending he' ?_
    rintro ⟨-, a', ha', hmarker⟩
    -- The rewritten node is admitted under the activation of the node it replaced.
    obtain ⟨root, hroot, hdescends⟩ := (admissionsOf_eq_some hplaced').mp ha'
    have ha'' : admissionsOf s'.events (nameOf s'.events) seq = some a' := by
      cases hdescends with
      | self => cases (hroot.append he').symm.trans hop
      | rewrite hdescends' hget hop' _ =>
        rw [he', Option.some.injEq] at hget
        rw [← hget, hop] at hop'
        simp only [Option.some.injEq, SurfaceOp.replace.injEq, and_self] at hop'
        exact (admissionsOf_eq_some hplaced').mpr ⟨root, hroot, hop' ▸ hdescends'⟩
    have hsame := ha.symm.trans (hold seq hlt a' ha'')
    rw [Option.some.injEq] at hsame
    rw [← hsame, showsMarker_of_markedData hmarked.data hmarked.type] at hmarker
    cases hmarker
  · rw [(h.passed seq hseq).kept e he fun hc ↦ hpending hc.2]
    have he' : s'.events[seq]? = some e := by
      rw [hadded, List.getElem?_append_left hlt, he]
    refine withdraw_of_not_pending he' ?_
    rintro ⟨htype, a, ha, hmarker⟩
    exact hpending ⟨htype, a, hold seq hlt a ha, hmarker⟩

/-! ## Exactness -/

theorem surfaced_iff (hready : Ready s state) {seq : ℕ} {a : StoredEvent} :
    admissionsOf s.events (nameOf s.events) seq = some a ↔
      Withdrawn s.events (nameOf s.events) seq a :=
  admissionsOf_eq_some (placed_of_surface ⟨_, hready.surface⟩)

theorem not_confused {a : StoredEvent} {root : ℕ} (h : ¬ Confused log a root) :
    IsRoot log (nameOf log) a root ↔ IsRoot log (answered log) a root := not_not.mp h

/-- Without confusion the pass does what it is for. -/
theorem withdrawsExactly_of_unconfused (clock : ℕ → SafeNat) (hready : Ready s state)
    (h : Unconfused s) : WithdrawsExactly clock s state := by
  obtain ⟨s', state', place, hreplace, hpass⟩ := exists_replace clock hready
  obtain ⟨added, hadded, -⟩ := hpass.log
  refine ⟨s', state', place, hreplace, ⟨added, hadded⟩, hpass.surface, hpass.nodes,
    fun seq hseq e he ↦ ?_, fun clock' ↦ hpass.again hready clock'⟩
  have hnode : seq ∈ surfaceNodes s := surfaceNodes_eq hready.surface ▸ hseq
  have hlt := (below_surfaceAfter hready.surface seq hseq).trans_eq (length_stored _)
  have hpassed := hpass.passed seq hseq
  refine ⟨fun hchanged ↦ ?_, fun a ⟨root, hroot, hdescends⟩ ↦ ?_⟩
  · by_cases hpending : Pending (admissionsOf s.events (nameOf s.events)) seq e
    · obtain ⟨e', he', -, a, ha, hmarked⟩ := hpassed.rewritten e he hseq hpending
      obtain ⟨root, hroot, hdescends⟩ := (surfaced_iff hready).mp ha
      obtain ⟨-, a', ha', hmarker⟩ := hpending
      obtain rfl : a = a' := Option.some.inj (ha.symm.trans ha')
      by_cases hconfused : Confused s.events a root
      · rw [h seq hnode e a root he hconfused hdescends] at hmarker
        cases hmarker
      · exact ⟨a, e', ⟨root, (not_confused hconfused).mp hroot, hdescends⟩, he', hmarked⟩
    · exact absurd (hpassed.kept e he fun hc ↦ hpending hc.2) hchanged
  · have htype := Withdrawn.type ⟨root, hroot, hdescends⟩ he
    by_cases hmarker : showsMarker a e = true
    · by_cases hpending : Pending (admissionsOf s.events (nameOf s.events)) seq e
      · obtain ⟨-, a', ha', hmarker'⟩ := hpending
        obtain ⟨root', hroot', hdescends'⟩ := (surfaced_iff hready).mp ha'
        obtain ⟨-, rfl⟩ := hdescends.root_unique hroot hdescends' hroot'
        rw [hmarker] at hmarker'
        cases hmarker'
      · rw [hpassed.kept e he fun hc ↦ hpending hc.2]
        exact ⟨e, by rw [hadded, List.getElem?_append_left hlt, he], hmarker⟩
    · rw [Bool.not_eq_true] at hmarker
      have hnot : ¬ Confused s.events a root := fun hconfused ↦ by
        rw [h seq hnode e a root he hconfused hdescends] at hmarker
        cases hmarker
      have ha := (surfaced_iff hready).mpr ⟨root, (not_confused hnot).mpr hroot, hdescends⟩
      obtain ⟨e', he', -, a', ha', hmarked⟩ := hpassed.rewritten e he hseq ⟨htype, a, ha, hmarker⟩
      obtain rfl : a = a' := Option.some.inj (ha.symm.trans ha')
      exact ⟨e', he', showsMarker_of_markedData hmarked.data hmarked.type⟩

/-- What the pass does exactly, it does without confusion. -/
theorem unconfused_of_withdrawsExactly {clock : ℕ → SafeNat} (hready : Ready s state)
    (h : WithdrawsExactly clock s state) : Unconfused s := by
  obtain ⟨s', state', place, hreplace, -, hsurface', hnodes', hexact, -⟩ := h
  obtain ⟨t, state'', place', hreplace', hpass⟩ := exists_replace clock hready
  obtain rfl : s' = t := Except.ok.inj (hreplace.symm.trans hreplace')
  obtain rfl : state' = state'' := Except.ok.inj (hsurface'.symm.trans hpass.surface)
  have hplace : ∀ seq ∈ state.nodes, place seq = place' seq :=
    List.map_inj_left.mp (hnodes'.symm.trans hpass.nodes)
  intro seq hnode e a root he hconfused hdescends
  have hseq : seq ∈ state.nodes := surfaceNodes_eq hready.surface ▸ hnode
  have hpassed := hpass.passed seq hseq
  have hexact := hexact seq hseq e he
  rw [hplace seq hseq] at hexact
  obtain ⟨added, hadded, -⟩ := hpass.log
  have hlt := (below_surfaceAfter hready.surface seq hseq).trans_eq (length_stored _)
  by_contra hmarker
  rw [Bool.not_eq_true] at hmarker
  by_cases hroot : IsRoot s.events (nameOf s.events) a root
  · -- The pass changes the node, which holds no instructions.
    have ha := (surfaced_iff hready).mpr ⟨root, hroot, hdescends⟩
    have htype := Withdrawn.type ⟨root, hroot, hdescends⟩ he
    obtain ⟨e', he', -, a', ha', hmarked⟩ := hpassed.rewritten e he hseq ⟨htype, a, ha, hmarker⟩
    have hchanged : place' seq ≠ seq := by
      intro hsame
      rw [hsame, hadded, List.getElem?_append_left hlt, he, Option.some.injEq] at he'
      obtain rfl : a = a' := Option.some.inj (ha.symm.trans ha')
      rw [he', showsMarker_of_markedData hmarked.data hmarked.type] at hmarker
      cases hmarker
    obtain ⟨b, -, ⟨root', hroot', hdescends'⟩, -, -⟩ := hexact.changed hchanged
    obtain ⟨rfl, rfl⟩ := hdescends.root_unique hroot hdescends' hroot'
    exact hconfused (iff_of_true hroot hroot')
  · -- It holds instructions, and the pass leaves it.
    have hanswered : IsRoot s.events (answered s.events) a root := by
      by_contra hnot
      exact hconfused (iff_of_false hroot hnot)
    obtain ⟨e', he', hmarker'⟩ := hexact.marked a ⟨root, hanswered, hdescends⟩
    have hkept := hpassed.kept e he fun ⟨_, _, b, hb, _⟩ ↦ by
      obtain ⟨root', hroot', hdescends'⟩ := (surfaced_iff hready).mp hb
      obtain ⟨rfl, rfl⟩ := hdescends.root_unique hanswered hdescends' hroot'
      exact hroot hroot'
    rw [hkept, hadded, List.getElem?_append_left hlt, he, Option.some.injEq] at he'
    rw [he', hmarker'] at hmarker
    cases hmarker

/-- Where every result is known by the call that it answers, there is no confusion. -/
theorem unconfused_of_agree (h : ∀ e ∈ s.events, nameOf s.events e = answered s.events e) :
    Unconfused s := by
  have hroot : ∀ {named named' : StoredEvent → Value} {a root},
      (∀ e ∈ s.events, named e = named' e) → IsRoot s.events named a root →
        IsRoot s.events named' a root := by
    rintro named named' a root hagree ⟨hturn, hcompleted, hactivated, e, hget, hinstructs⟩
    refine ⟨hturn, hcompleted, hactivated, e, hget, ?_⟩
    rwa [instructs, ← hagree e (List.mem_of_getElem? hget)]
  intro _ _ _ _ _ _ hconfused _
  exact absurd ⟨hroot h, hroot fun e he ↦ (h e he).symm⟩ hconfused

/-- **Completed skill instructions are withdrawn exactly** if no node descends from a confused
result, and only then. -/
theorem withdrawsExactly_iff (clock : ℕ → SafeNat) {fold : SurfaceFoldResult}
    (hfold : foldSurface (stored s.events) = .ok fold) (hlength : s.events.length < 2 ^ 32)
    (htyped : ∀ e ∈ s.events, TypedEvent e) :
    WithdrawsExactly clock s fold.state ↔ Unconfused s := by
  have hsurface : surfaceAfter (stored s.events) = .ok fold.state := by
    rw [← foldSurface_eq, hfold]
    rfl
  have hready : Ready s fold.state := ⟨hsurface, hlength, htyped⟩
  exact ⟨unconfused_of_withdrawsExactly hready, withdrawsExactly_of_unconfused clock hready⟩

/-! ## Two turns -/

/-- A draft with these properties. -/
def draftOf (data : EventData) (fields : Fields) : EventDraft where
  data := data
  payload := .obj fields
  time := .zero

/-- A call in a step of the first turn. -/
def callDraft (step : ℕ) (id name arguments : String) : EventDraft :=
  draftOf (.toolCall 1 step (js id)) [prop "turn" (integer 1), prop "step" (integer step),
    prop "callId" (text id), prop "name" (text name), prop "arguments" (text arguments)]

/-- Its result. -/
def resultDraft (step : ℕ) (id content : String) : EventDraft :=
  let block : Json := .obj [prop "type" (text "text"), prop "text" (text content)]
  { draftOf (.toolResult 1 step ⟨js "m", js id, ⟨js id, [block], none⟩⟩ none) [
      prop "turn" (integer 1), prop "step" (integer step), prop "message" (.obj [
        prop "source" (.obj [prop "kind" (text "tool"), prop "callId" (text id)]),
        prop "content" (.arr [.obj [prop "type" (text "tool-result"),
          prop "content" (.arr [block])]])])] with
    surfaceOp := some (text "append") }

/-- A turn that loads a skill in its first step and runs another tool in its second. -/
def skillTurn (second : String) : Session :=
  let step (n : ℕ) : Fields := [prop "turn" (integer 1), prop "step" (integer n)]
  let drafts : List EventDraft := [
    draftOf (.turnStart 1) [prop "turn" (integer 1)],
    draftOf (.other (js "business-skill/activated")) [prop "slug" (text "s"),
      prop "version" (integer 1), prop "turn" (integer 1)],
    draftOf (.stepStart 1 1) (step 1), callDraft 1 "c" "skill" "\x7b\"name\":\"s\"\x7d",
    resultDraft 1 "c" "Do it", draftOf (.stepEnd 1 1) (step 1),
    draftOf (.stepStart 1 2) (step 2), callDraft 2 second "bash" "\x7b\x7d",
    resultDraft 2 second "done", draftOf (.stepEnd 1 2) (step 2),
    draftOf (.turnEnd 1 (.loop (js "completed"))) [prop "turn" (integer 1)]]
  ⟨.topLevel "s" .zero, drafts.zipIdx.map fun p ↦ p.1.event p.2, 0⟩

/-- What is read from its own text is well formed. -/
theorem typed_of_checks {events : List StoredEvent}
    (hblock : (events.all fun e ↦ !ofType "tool/result" e ||
      (resultBlock (e.json.get? "data")).isSome) = true)
    (hparse : (events.all fun e ↦ decide (parse (stringify e.json) = some e.json)) = true) :
    ∀ e ∈ events, TypedEvent e := by
  intro e he
  have hblock' := List.all_eq_true.mp hblock e he
  refine ⟨fun htype ↦ ?_, wf_of_parse (of_decide_eq_true (List.all_eq_true.mp hparse e he))⟩
  rw [htype] at hblock'
  exact hblock'

theorem withdrawsExactly_skillTurn : ∃ fold,
    foldSurface (stored (skillTurn "d").events) = .ok fold ∧
      WithdrawsExactly (fun _ ↦ .zero) (skillTurn "d") fold.state := by
  have hfold : foldSurface (stored (skillTurn "d").events) = .ok ⟨[4, 8], []⟩ := by rfl
  have hagree : ((skillTurn "d").events.all fun e ↦
      decide (nameOf (skillTurn "d").events e = answered (skillTurn "d").events e)) = true := by
    decide +kernel
  refine ⟨_, hfold, (withdrawsExactly_iff _ hfold (by decide)
    (typed_of_checks (by decide +kernel) (by decide +kernel))).mpr (unconfused_of_agree ?_)⟩
  exact fun e he ↦ of_decide_eq_true (List.all_eq_true.mp hagree e he)

/-- The result of the second call is known by the first, and does not show the marker. -/
theorem confused_skillTurn : ∃ e activation, (skillTurn "c").events[8]? = some e ∧
    Confused (skillTurn "c").events activation 8 ∧ showsMarker activation e = false := by
  generalize hlog : (skillTurn "c").events = log
  have hturn : (turnAt log 8).isSome = true := by
    rw [← hlog]
    decide +kernel
  have hcompleted : completed log (turnAt log 8) = true := by
    rw [← hlog]
    decide +kernel
  have hchecks : ((activations log (turnAt log 8)).any fun a ↦ log[8]?.any fun e ↦
      instructs (nameOf log) a (turnAt log 8) e && !instructs (answered log) a (turnAt log 8) e &&
        !showsMarker a e) = true := by
    rw [← hlog]
    decide +kernel
  obtain ⟨a, hactivated, hchecks⟩ := (Option.any_eq_true _ _).mp hchecks
  obtain ⟨e, hget, hchecks⟩ := (Option.any_eq_true _ _).mp hchecks
  rw [Bool.and_eq_true, Bool.and_eq_true, Bool.not_eq_true', Bool.not_eq_true'] at hchecks
  obtain ⟨⟨hnamed, hanswered⟩, hmarker⟩ := hchecks
  refine ⟨e, a, hget, fun hsame ↦ ?_, hmarker⟩
  obtain ⟨e', hget', hinstructs⟩ :=
    (hsame.mp ⟨hturn, hcompleted, hactivated, e, hget, hnamed⟩).instructs
  rw [hget, Option.some.injEq] at hget'
  rw [← hget', hanswered] at hinstructs
  cases hinstructs

/-- The second call has the id of the first: its result is withdrawn, though it loads no skill. -/
theorem not_withdrawsExactly_reused : ∃ fold trace,
    foldSurface (stored (skillTurn "c").events) = .ok fold ∧
      seedSession (typed (skillTurn "c").events) = .ok trace ∧
      ¬ WithdrawsExactly (fun _ ↦ .zero) (skillTurn "c") fold.state := by
  have hfold : foldSurface (stored (skillTurn "c").events) = .ok ⟨[4, 8], []⟩ := by rfl
  refine ⟨_, _, hfold, rfl, fun h ↦ ?_⟩
  have hsurface : surfaceAfter (stored (skillTurn "c").events) = .ok ⟨[4, 8], 0⟩ := by
    rw [← foldSurface_eq, hfold]
    rfl
  have hunconfused := unconfused_of_withdrawsExactly ⟨hsurface, by decide,
    typed_of_checks (by decide +kernel) (by decide +kernel)⟩ h
  obtain ⟨e, a, hget, hconfused, hmarker⟩ := confused_skillTurn
  have hnode : 8 ∈ surfaceNodes (skillTurn "c") := by
    rw [surfaceNodes_eq hsurface]
    decide
  rw [hunconfused 8 hnode e a 8 hget hconfused (.self 8)] at hmarker
  cases hmarker

end XxAgent.BusinessSkill
