import XxAgent.Log.Replay
import XxAgent.Session.Event

/-!
# The session surface

The ordered view of the events that produce model messages. An event that is eligible either appends
itself or replaces a range of what is there, and `planSurfaceEvent` decides whether it may. Its
plan is committed in a second step that cannot fail, so a refused event leaves the surface as it was.

`foldSurface` replays a complete log. A fold only ever looks back: the events that planning reads
are those on the surface, and these stand earlier in the log.
-/

namespace XxAgent

open Ecma

/-- What is wrong with an event that wants to join the surface. -/
inductive SurfaceFault where
  | gap (seq : Value) (expected : ℕ)
  | ineligible (type : Value) (field : String)
  | unmarked (type : Value)
  | invalidOp (type : Value)
  | invalidReplaceOp (type : Value)
  | sourcesNotArray (seq : Value)
  | emptySources
  | invalidSource (type : Value)
  | duplicateSources
  | laterSource (source : ℕ) (seq : Value)
  | missingSources (missing : List ℕ)
  | startNotFound (start : ℕ)
  | endNotFound (stop : ℕ)
  | reversedRange (start startIdx stop endIdx : ℕ)
  | rewritesRange
  | rewritesOther
  | rewritesMore
  /-- A property of nothing is read; the text is the engine's. -/
  | typeError

/-- `Array.prototype.join(', ')`. -/
def joinSeqs (seqs : List ℕ) : JsString :=
  js (", ".intercalate (seqs.map toString))

/-- The message of a fault; the engine words its own. -/
def SurfaceFault.message : SurfaceFault → Option JsString
  | gap seq expected => some (js "session event seq " ++ display seq ++
      js s!" is not contiguous; expected {expected}")
  | ineligible type field => some (js "session event \"" ++ display type ++
      js s!"\" is not surface-eligible and cannot carry {field}")
  | unmarked type => some (js "session event \"" ++ display type ++
      js "\" is surface-eligible and requires a surfaceOp marker")
  | invalidOp type => some (js "session event \"" ++ display type ++
      js "\" carries an invalid surfaceOp")
  | invalidReplaceOp type => some (js "session event \"" ++ display type ++
      js "\" carries an invalid replace surfaceOp")
  | sourcesNotArray seq => some (js "sourceEventSeqs on event at seq " ++ display seq ++
      js " must be an array when present")
  | emptySources => some (js "sourceEventSeqs must not be empty except on assistant/message")
  | invalidSource type => some (js "session event \"" ++ display type ++
      js "\" sourceEventSeqs must densely contain non-negative safe integers")
  | duplicateSources => some (js "sourceEventSeqs must not contain duplicates")
  | laterSource source seq => some (js "sourceEventSeqs must reference earlier events: " ++
      js s!"{source} >= current seq " ++ display seq)
  | missingSources missing => some (js "surface replace: sourceEventSeqs must include every " ++
      js "shadowed surface node; missing " ++ joinSeqs missing)
  | startNotFound start => some (js s!"surface replace: start seq {start} not found in surface")
  | endNotFound stop => some (js s!"surface replace: end seq {stop} not found in surface")
  | reversedRange start startIdx stop endIdx => some (js s!"surface replace: start seq {start} " ++
      js s!"(index {startIdx}) is after end seq {stop} (index {endIdx})")
  | rewritesRange =>
      some (js "tool/result surface replacement must rewrite exactly one current node")
  | rewritesOther => some (js "tool/result surface replacement must target a current tool/result")
  | rewritesMore => some (js "tool/result surface replacement may change only content")
  | typeError => none

/-! ## Markers -/

/-- Runtime counterpart of the message-producing event union. -/
def SURFACE_EVENT_TYPES : List String := ["user/message", "assistant/message", "tool/result"]

/-- Whether an event type can join the model-visible surface. -/
def isSurfaceEligibleType (type : Value) : Bool :=
  SURFACE_EVENT_TYPES.any fun t ↦ type = some (text t)

/-- Whether a runtime value is a non-negative safe event sequence. -/
def isEventSeq (value : Value) : Bool := value.isSafeInteger && decide (0 ≤ value.toInt)

/-- The sequence a value is, once `isEventSeq` has accepted it. -/
def toSeq (value : Value) : ℕ := value.toInt.toNat

/-- How an event joins the surface. -/
inductive SurfaceOp where
  | append
  | replace (start stop : ℕ)
deriving DecidableEq

/-- Whether a runtime value is the exact positional-replacement shape. -/
def isReplaceOp (value : Value) : Bool :=
  value.hasExactKeys ["op", "start", "end"] && decide (value.get "op" = some (text "replace")) &&
    isEventSeq (value.get "start") && isEventSeq (value.get "end")

/-- Validate event-local surface eligibility and return its operation. -/
def surfaceOpOf (event : Json) : Except SurfaceFault (Option SurfaceOp) :=
  let type := event.get? "type"
  let op : Value := event.get? "surfaceOp"
  if isSurfaceEligibleType type = false then
    if op.isSome then .error (.ineligible type "surfaceOp")
    else if (event.get? "sourceEventSeqs").isSome then .error (.ineligible type "sourceEventSeqs")
    else .ok none
  else if op = none then .error (.unmarked type)
  else if op = some (text "append") then .ok (some .append)
  else if op.isRecord = false ∨ op.isArray = true then .error (.invalidOp type)
  else if isReplaceOp op = false then .error (.invalidReplaceOp type)
  else .ok (some (.replace (toSeq (op.get "start")) (toSeq (op.get "end"))))

/-- The seqs that `sourceEventSeqs` cites. -/
def citedSources (event : Json) : Except SurfaceFault (List ℕ) :=
  let type := event.get? "type"
  let seq := event.get? "seq"
  match event.get? "sourceEventSeqs" with
  | none => .ok []
  | some (.arr raw) =>
    let sources := raw.map fun source ↦ toSeq (some source)
    if raw = [] ∧ type ≠ some (text "assistant/message") then .error .emptySources
    else if (raw.all fun source ↦ isEventSeq (some source)) = false then .error (.invalidSource type)
    else if ¬ sources.Nodup then .error .duplicateSources
    else
      match sources.find? fun source ↦ toSeq seq ≤ source with
      | some source => .error (.laterSource source seq)
      | none => .ok sources
  | some _ => .error (.sourcesNotArray seq)

/-- Validate cited source-event seqs against prior log entries and the replacement range. -/
def assertProvenance (event : Json) (shadowedSeqs : List ℕ) : Except SurfaceFault Unit :=
  match citedSources event with
  | .error fault => .error fault
  | .ok sources =>
    let missing := shadowedSeqs.filter (· ∉ sources)
    if missing = [] then .ok () else .error (.missingSources missing)

/-! ## Tool-result rewrites -/

mutual

/-- Deep structural equality over the session-event JSON value domain. The shortcut for one and the
same object is left out: it answers what the comparison answers. -/
def isDeepEqualJson : Json → Json → Bool
  | .arr xs, .arr ys => decide (xs.length = ys.length) && isDeepEqualElements xs ys
  | .obj fs, .obj gs => decide (fs.length = gs.length) && isDeepEqualMembers fs gs
  | x, y => decide (x = y)

/-- The elements of an array against those of another. -/
def isDeepEqualElements : List Json → List Json → Bool
  | x :: xs, y :: ys => isDeepEqualJson x y && isDeepEqualElements xs ys
  | _, _ => true

/-- The properties of an object against those of the same name. -/
def isDeepEqualMembers : Fields → Fields → Bool
  | [], _ => true
  | (k, x) :: fs, gs =>
    match fieldOf k gs with
    | none => false
    | some y => isDeepEqualJson x y && isDeepEqualMembers fs gs

end

/-- `{ ...value }`. -/
def spread : Value → Fields
  | some (.obj fs) => fs
  | some (.arr xs) => xs.zipIdx.map fun p ↦ (js (toString p.2), p.1)
  | some (.str s) => s.zipIdx.map fun p ↦ (js (toString p.2), .str [p.1])
  | _ => []

/-- `value[0]`, where `value` is not nullish. -/
def firstElement : Value → Except SurfaceFault Value
  | none | some .null => .error .typeError
  | some (.arr xs) => .ok xs.head?
  | some (.str s) => .ok (s.head?.map fun u ↦ .str [u])
  | some (.obj fs) => .ok (fieldOf (js "0") fs)
  | some _ => .ok none

/-- A payload with the content of its first block blanked. -/
def withoutContent (data : Value) : Except SurfaceFault Json :=
  let message := data.get "message"
  match firstElement (message.get "content") with
  | .error fault => .error fault
  | .ok result =>
    let block : Json := .obj (setField (spread result) (js "content") .null)
    .ok (.obj (setField (spread data) (js "message")
      (.obj (setField (spread message) (js "content") (.arr [block])))))

/-- `events[seq - baseSeq]`. -/
def eventAt (events : List Json) (baseSeq seq : ℕ) : Value :=
  if baseSeq ≤ seq then events[seq - baseSeq]? else none

/-- Restrict a tool-result replacement to one current result's content. -/
def assertToolResultRewrite (event : Json) (shadowedSeqs : List ℕ) (events : List Json)
    (baseSeq : ℕ) : Except SurfaceFault Unit :=
  if event.get? "type" ≠ some (text "tool/result") then .ok ()
  else
    match shadowedSeqs with
    | [originalSeq] =>
      let original := eventAt events baseSeq originalSeq
      if original.get "type" ≠ some (text "tool/result") then .error .rewritesOther
      else
        match withoutContent (original.get "data"), withoutContent (event.get? "data") with
        | .ok originalRest, .ok replacementRest =>
          if isDeepEqualJson originalRest replacementRest then .ok () else .error .rewritesMore
        | _, _ => .error .typeError
    | _ => .error .rewritesRange

/-! ## Planning and committing -/

/-- Mutable state shared by complete and incremental folds. -/
structure SurfaceFoldState where
  nodes : List ℕ
  replaceGeneration : ℕ
deriving DecidableEq

/-- Create an empty surface fold state. -/
def createFoldState : SurfaceFoldState := ⟨[], 0⟩

/-- One replacement operation observed while folding a session surface. -/
structure SurfaceFoldReplacement where
  seq : ℕ
  start : ℕ
  stop : ℕ
  shadowedSeqs : List ℕ
deriving DecidableEq

/-- One validated surface transition that has not mutated fold state yet. -/
inductive SurfacePlan where
  | append (seq : ℕ)
  | replace (replacement : SurfaceFoldReplacement) (startIdx endIdx : ℕ)
deriving DecidableEq

/-- Locate one replacement range without mutating the current fold state. -/
def replacementRange (state : SurfaceFoldState) (start stop : ℕ) :
    Except SurfaceFault (ℕ × ℕ × List ℕ) :=
  match state.nodes.idxOf? start, state.nodes.idxOf? stop with
  | none, _ => .error (.startNotFound start)
  | _, none => .error (.endNotFound stop)
  | some startIdx, some endIdx =>
    if endIdx < startIdx then .error (.reversedRange start startIdx stop endIdx)
    else .ok (startIdx, endIdx, (state.nodes.drop startIdx).take (endIdx + 1 - startIdx))

/-- Validate one event at its replay boundary and prepare its atomic fold transition. -/
def planSurfaceEvent (state : SurfaceFoldState) (event : Json) (expectedSeq : ℕ)
    (events : List Json) (baseSeq : ℕ) : Except SurfaceFault (Option SurfacePlan) :=
  let seq := event.get? "seq"
  if seq ≠ some (integer expectedSeq) then .error (.gap seq expectedSeq)
  else
    match surfaceOpOf event with
    | .error fault => .error fault
    | .ok none => .ok none
    | .ok (some .append) => (assertProvenance event []).map fun _ ↦ some (.append (toSeq seq))
    | .ok (some (.replace start stop)) =>
      (replacementRange state start stop).bind fun (startIdx, endIdx, shadowedSeqs) ↦
        (assertProvenance event shadowedSeqs).bind fun _ ↦
          (assertToolResultRewrite event shadowedSeqs events baseSeq).map fun _ ↦
            some (.replace ⟨toSeq seq, start, stop, shadowedSeqs⟩ startIdx endIdx)

/-- Commit one previously validated surface transition. -/
def applySurfacePlan (state : SurfaceFoldState) : Option SurfacePlan →
    SurfaceFoldState × Option SurfaceFoldReplacement
  | none => (state, none)
  | some (.append seq) => ({ state with nodes := state.nodes ++ [seq] }, none)
  | some (.replace replacement startIdx endIdx) =>
    ({ nodes := state.nodes.take startIdx ++ replacement.seq :: state.nodes.drop (endIdx + 1)
       replaceGeneration := state.replaceGeneration + 1 }, some replacement)

/-- Apply one event and return replacement metadata only when one occurred. -/
def applySurfaceEvent (state : SurfaceFoldState) (event : Json) (expectedSeq : ℕ)
    (events : List Json) (baseSeq : ℕ) :
    Except SurfaceFault (SurfaceFoldState × Option SurfaceFoldReplacement) :=
  (planSurfaceEvent state event expectedSeq events baseSeq).map (applySurfacePlan state)

/-- Complete result of replaying the surface operations in a session log. -/
structure SurfaceFoldResult where
  nodes : List ℕ
  replacements : List SurfaceFoldReplacement
deriving DecidableEq

/-- The loop of `foldSurface`, at `index`. -/
def foldSurfaceLoop (events : List Json) :
    SurfaceFoldState → List SurfaceFoldReplacement → ℕ → List Json →
      Except SurfaceFault SurfaceFoldResult
  | state, replacements, _, [] => .ok ⟨state.nodes, replacements⟩
  | state, replacements, index, event :: rest =>
    match applySurfaceEvent state event index events 0 with
    | .error fault => .error fault
    | .ok (state, replacement) =>
      foldSurfaceLoop events state (replacements ++ replacement.toList) (index + 1) rest

/-- Replay a complete session log through the canonical surface fold. -/
def foldSurface (events : List Json) : Except SurfaceFault SurfaceFoldResult :=
  foldSurfaceLoop events createFoldState [] 0 events

/-! ## Replay -/

/-- The surface as a replay: plan against the log before the event, then commit. -/
def planNext (state : SurfaceFoldState) (log : List Json) (event : Json) :
    Except SurfaceFault (Option SurfacePlan) := planSurfaceEvent state event log.length log 0

/-- The state that a plan leads to. -/
def commitPlan (state : SurfaceFoldState) (plan : Option SurfacePlan) : SurfaceFoldState :=
  (applySurfacePlan state plan).1

/-- The surface state after a complete log. -/
def surfaceAfter (log : List Json) : Except SurfaceFault SurfaceFoldState :=
  Replay.replay planNext commitPlan createFoldState log

/-- Everything on the surface stands earlier in a log of `n` events. -/
def SurfaceFoldState.Below (n : ℕ) (state : SurfaceFoldState) : Prop := ∀ seq ∈ state.nodes, seq < n

theorem shadowed_subset {state : SurfaceFoldState} {start stop : ℕ} {range : ℕ × ℕ × List ℕ}
    (h : replacementRange state start stop = .ok range) :
    ∀ seq ∈ range.2.2, seq ∈ state.nodes := by
  rw [replacementRange] at h
  split at h
  · exact absurd h nofun
  · exact absurd h nofun
  · split_ifs at h
    rw [← Except.ok.inj h]
    exact fun seq hseq ↦ List.mem_of_mem_drop (List.mem_of_mem_take hseq)

/-- What a plan can be. -/
theorem planSurfaceEvent_eq_ok {state : SurfaceFoldState} {event : Json} {n baseSeq : ℕ}
    {events : List Json} {plan : Option SurfacePlan}
    (h : planSurfaceEvent state event n events baseSeq = .ok plan) :
    plan = none ∨ plan = some (.append n) ∨ ∃ replacement startIdx endIdx,
      replacement.seq = n ∧ plan = some (.replace replacement startIdx endIdx) := by
  rw [planSurfaceEvent] at h
  by_cases hseq : event.get? "seq" = some (integer n)
  · rw [if_neg (not_not.mpr hseq), hseq] at h
    split at h
    · exact absurd h nofun
    · exact .inl (Except.ok.inj h).symm
    · obtain ⟨-, -, rfl⟩ := Replay.map_eq_ok.mp h
      exact .inr (.inl rfl)
    · obtain ⟨range, -, h⟩ := Replay.bind_eq_ok.mp h
      obtain ⟨-, -, h⟩ := Replay.bind_eq_ok.mp h
      obtain ⟨-, -, rfl⟩ := Replay.map_eq_ok.mp h
      exact .inr (.inr ⟨_, _, _, rfl, rfl⟩)
  · rw [if_pos hseq] at h
    exact absurd h nofun

/-- A rewrite is checked against the shadowed events only. -/
theorem assertToolResultRewrite_congr {events events' : List Json} {shadowed : List ℕ}
    (h : ∀ seq ∈ shadowed, events[seq]? = events'[seq]?) (event : Json) :
    assertToolResultRewrite event shadowed events 0
      = assertToolResultRewrite event shadowed events' 0 := by
  rcases shadowed with _ | ⟨seq, _ | ⟨seq', shadowed⟩⟩
  · rfl
  · rw [assertToolResultRewrite, assertToolResultRewrite, eventAt, eventAt,
      if_pos (Nat.zero_le _), if_pos (Nat.zero_le _), Nat.sub_zero,
      h seq (List.mem_singleton_self seq)]
  · rfl

/-- Planning looks up events on the surface only. -/
theorem planSurfaceEvent_congr {state : SurfaceFoldState} {events events' : List Json} {m : ℕ}
    (hbelow : state.Below m) (h : ∀ seq < m, events[seq]? = events'[seq]?) (event : Json) (n : ℕ) :
    planSurfaceEvent state event n events 0 = planSurfaceEvent state event n events' 0 := by
  rw [planSurfaceEvent, planSurfaceEvent]
  congr 1
  rcases surfaceOpOf event with fault | _ | _ | ⟨start, stop⟩
  · rfl
  · rfl
  · rfl
  · rcases hrange : replacementRange state start stop with fault | ⟨i, j, shadowed⟩
    · simp only [hrange, Except.bind]
    · have hsame : ∀ seq ∈ shadowed, events[seq]? = events'[seq]? :=
        fun seq hseq ↦ h seq (hbelow seq (shadowed_subset hrange seq hseq))
      have hrewrite := assertToolResultRewrite_congr hsame event
      simp only [hrange, Except.bind, hrewrite]

/-- Committing the plan of event `n` keeps the surface within the log. -/
theorem below_commitPlan {state : SurfaceFoldState} {log : List Json} {event : Json}
    {plan : Option SurfacePlan} (hbelow : state.Below log.length)
    (h : planNext state log event = .ok plan) : (commitPlan state plan).Below (log.length + 1) := by
  have hold (seq : ℕ) (hseq : seq ∈ state.nodes) : seq < log.length + 1 :=
    Nat.lt_succ_of_lt (hbelow seq hseq)
  rcases planSurfaceEvent_eq_ok h with rfl | rfl | ⟨replacement, i, j, hseq, rfl⟩
  · exact hold
  · intro seq hmem
    rcases List.mem_append.mp hmem with hmem | hmem
    · exact hold seq hmem
    · rw [List.mem_singleton.mp hmem]
      exact Nat.lt_succ_self _
  · intro seq hmem
    rcases List.mem_append.mp hmem with hmem | hmem
    · exact hold seq (List.mem_of_mem_take hmem)
    · rcases List.mem_cons.mp hmem with rfl | hmem
      · rw [hseq]
        exact Nat.lt_succ_self _
      · exact hold seq (List.mem_of_mem_drop hmem)

theorem below_surfaceAfter {log : List Json} {state : SurfaceFoldState}
    (h : surfaceAfter log = .ok state) : state.Below log.length :=
  Replay.replay_invariant SurfaceFoldState.Below (fun _ hseq ↦ absurd hseq List.not_mem_nil)
    (fun _ _ _ _ hbelow hp ↦ below_commitPlan hbelow hp) h

/-- A plan replaces exactly when it yields a replacement. -/
theorem commitPlan_replaceGeneration (state : SurfaceFoldState) (plan : Option SurfacePlan) :
    (commitPlan state plan).replaceGeneration
      = state.replaceGeneration + (applySurfacePlan state plan).2.toList.length := by
  rcases plan with _ | ⟨seq⟩ | ⟨replacement, i, j⟩
  · rfl
  · rfl
  · rfl

/-- The state that a fold result stands for. -/
def SurfaceFoldResult.state (fold : SurfaceFoldResult) : SurfaceFoldState :=
  ⟨fold.nodes, fold.replacements.length⟩

theorem foldSurfaceLoop_eq (rest : List Json) : ∀ (state : SurfaceFoldState)
    (replacements : List SurfaceFoldReplacement) (log : List Json),
    state.Below log.length → state.replaceGeneration = replacements.length →
    (foldSurfaceLoop (log ++ rest) state replacements log.length rest).map SurfaceFoldResult.state
      = Replay.replayFrom planNext commitPlan state log rest := by
  induction rest with
  | nil =>
    intro state replacements log _ hgen
    rw [foldSurfaceLoop, Replay.replayFrom, Except.map, SurfaceFoldResult.state, ← hgen]
  | cons event rest ih =>
    intro state replacements log hbelow hgen
    have hplan : planSurfaceEvent state event log.length (log ++ event :: rest) 0
        = planNext state log event :=
      planSurfaceEvent_congr hbelow (fun seq hseq ↦ List.getElem?_append_left hseq) event _
    rw [foldSurfaceLoop, applySurfaceEvent, hplan, Replay.replayFrom, Replay.take]
    rcases hp : planNext state log event with fault | plan
    · rfl
    · have hlog : log ++ event :: rest = (log ++ [event]) ++ rest := by
        rw [List.append_assoc, List.singleton_append]
      have hlen : log.length + 1 = (log ++ [event]).length := by
        rw [List.length_append, List.length_singleton]
      change Except.map _ (foldSurfaceLoop _ (commitPlan state plan) _ _ _) = _
      rw [hlog, hlen, ih (commitPlan state plan)]
      · rfl
      · rw [← hlen]
        exact below_commitPlan hbelow hp
      · rw [commitPlan_replaceGeneration, List.length_append, ← hgen]
        rfl

/-- **The complete fold is the replay.** -/
theorem foldSurface_eq (log : List Json) :
    (foldSurface log).map SurfaceFoldResult.state = surfaceAfter log :=
  foldSurfaceLoop_eq log createFoldState [] [] (fun _ hseq ↦ absurd hseq List.not_mem_nil) rfl

end XxAgent
