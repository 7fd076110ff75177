import XxAgent.Session.TurnInvariant

/-!
# Crash repair

`interruptedTurnClosers` supplies what a log lacks whose last turn was cut off: an error result for
every unmatched tool call, the end of the open step and the end of the turn.
-/

namespace XxAgent

open Ecma

/-- Recovery code for a recorded tool call whose completed outcome was not durably recorded. -/
def TOOL_OUTCOME_UNKNOWN : String := "TOOL_OUTCOME_UNKNOWN"

/-- A call that waits for its result. -/
structure PendingCall where
  step : ℕ
  /-- The seq of its `tool/call`, once it started. -/
  callSeq : Option ℕ
deriving DecidableEq

/-- What the scan knows of the tail of the log. -/
structure RepairScan where
  openTurn : Option ℕ
  openStep : Option ℕ
  pendingCalls : OrderedMap CallId PendingCall

/-- Nothing is open. -/
def RepairScan.initial : RepairScan := ⟨none, none, .empty⟩

/-- Move the turn/step boundary cursor over one event. -/
def scanEvent (scan : RepairScan) (event : LogEvent) : RepairScan :=
  match event.data with
  | .turnStart turn => { openTurn := some turn, openStep := none, pendingCalls := .empty }
  | .turnEnd _ _ => { openTurn := none, openStep := none, pendingCalls := .empty }
  | .stepStart _ step => { scan with openStep := some step }
  | .stepEnd _ _ => { scan with pendingCalls := .empty, openStep := none }
  | .assistantMessage _ step _ => { scan with
      pendingCalls := event.requests.foldl (fun m id ↦ m.set id ⟨step, none⟩) scan.pendingCalls }
  | .toolCall _ _ callId =>
    match scan.pendingCalls.get? callId with
    | some entry => { scan with
        pendingCalls := scan.pendingCalls.set callId { entry with callSeq := some event.seq } }
    | none => scan
  | .toolResult _ _ message _ =>
      { scan with pendingCalls := scan.pendingCalls.delete message.callId }
  | _ => scan

/-- The scan of a whole log. -/
def scanEvents (events : List LogEvent) : RepairScan := events.foldl scanEvent .initial

/-- What the model is told about a call that was interrupted after it was recorded. -/
def outcomeUnknownText : String :=
  "The tool call was interrupted after it was recorded, but no result was durably recorded. " ++
  "Its outcome is unknown. Decide whether to retry from the tool semantics: retry only if the " ++
  "operation is read-only or idempotent; if it may have side effects, first verify external " ++
  "state or ask the user. Do not retry blindly."

/-- What the model is told about a call that never started. -/
def notStartedText : String :=
  "The tool call was interrupted before the Harness recorded it as started. " ++
  "Retry it if it is still needed."

/-- The synthetic result of a pending call. -/
def resultCloser (turn : ℕ) (time : Number) (seq : ℕ) (callId : CallId) (entry : PendingCall) :
    LogEvent where
  seq := seq
  time := time
  data := .toolResult turn entry.step
    { id := js "interrupted-tool-result-" ++ callId ++ js s!"-{seq}"
      callId := callId
      block := {
        toolCallId := callId
        isError := some true
        content := [.obj [prop "type" (text "text"), prop "text"
          (text (if entry.callSeq.isSome then outcomeUnknownText else notStartedText))]] } }
    (some (if entry.callSeq.isSome then ⟨js "ToolOutcomeUnknownError", js TOOL_OUTCOME_UNKNOWN⟩
      else ⟨js "ToolNotStartedError", js TOOL_NOT_STARTED⟩))
  surfaceOp := some .append
  sourceEventSeqs := entry.callSeq.map fun callSeq ↦ [callSeq]

/-- The synthetic results, in the order of the calls; the first carries `seq`. -/
def resultClosers (turn : ℕ) (time : Number) :
    ℕ → List (CallId × PendingCall) → List LogEvent
  | _, [] => []
  | seq, (callId, entry) :: rest =>
    resultCloser turn time seq callId entry :: resultClosers turn time (seq + 1) rest

/-- The end of a step. -/
def stepCloser (turn step : ℕ) (time : Number) (seq : ℕ) : LogEvent where
  seq := seq
  time := time
  data := .stepEnd turn step

/-- The end of an interrupted turn. -/
def turnCloser (turn : ℕ) (time : Number) (seq : ℕ) : LogEvent where
  seq := seq
  time := time
  data := .turnEnd turn .interrupted

/-- The boundaries that follow the results; the first carries `seq`. -/
def boundaryClosers (turn : ℕ) (time : Number) (seq : ℕ) : Option ℕ → List LogEvent
  | some step => [stepCloser turn step time seq, turnCloser turn time (seq + 1)]
  | none => [turnCloser turn time seq]

/-- Return deterministic synthetic events that close an open tail turn. -/
def interruptedTurnClosers (events : List LogEvent) : List LogEvent :=
  let scan := scanEvents events
  match scan.openTurn, events.getLast? with
  | some turn, some last =>
    -- The last real event supplies the seq base and the timestamp.
    let entries := scan.pendingCalls.entries
    resultClosers turn last.time (last.seq + 1) entries ++
      boundaryClosers turn last.time (last.seq + 1 + entries.length) scan.openStep
  | _, _ => []

/-!
## Crash repair is resumable

The repair scanner and the invariant checker each keep their own account of what is open. `Agrees`
relates the two: the same turn and step are open, and every call the scanner takes for started is
one the checker has recorded. It holds after every log that the checker accepts, because no event
breaks it.

One closer is then a step of both: the checker accepts it, and what the repair would supply after it
is the rest of what it supplied before. So a repair that was cut off after any number of closers is
continued where it stopped.
-/

/-- The scanner's account of the tail against the checker's. -/
structure RepairScan.Agrees (scan : RepairScan) (trace : SessionTrace) : Prop where
  turn : scan.openTurn = trace.openTurn
  step : scan.openStep = trace.openStep
  enclosed : trace.openTurn = none → trace.openStep = none
  pending : ∀ callId entry, (callId, entry) ∈ scan.pendingCalls.entries →
    some entry.step = trace.openStep ∧ (entry.callSeq.isSome → callId ∈ trace.pendingCalls)

theorem agrees_initial : RepairScan.initial.Agrees freshTrace where
  turn := rfl
  step := rfl
  enclosed _ := rfl
  pending _ _ h := absurd h List.not_mem_nil

theorem requireOpenStep_eq_ok {trace : SessionTrace} {kind : String} {turn step : ℕ} {u : Unit} :
    requireOpenStep trace kind turn step = .ok u ↔
      trace.openTurn = some turn ∧ trace.openStep = some step := by
  rw [requireOpenStep]
  split_ifs with h
  · exact ⟨nofun, fun hopen ↦ (not_or_intro (not_not.mpr hopen.1) (not_not.mpr hopen.2) h).elim⟩
  · rw [not_or, not_not, not_not] at h
    exact ⟨fun _ ↦ h, fun _ ↦ rfl⟩

/-- An accepted event comes later, and its relations hold. -/
theorem validateEvent_eq_ok {trace : SessionTrace} {event : LogEvent}
    {transition : SessionTraceTransition} : validateEvent trace event = .ok transition ↔
      trace.lastSeq < event.seq ∧ validateData trace event = .ok transition := by
  rw [validateEvent]
  split_ifs with h
  · exact ⟨nofun, fun hlt ↦ absurd hlt.1 (not_lt.mpr h)⟩
  · exact ⟨fun hv ↦ ⟨not_le.mp h, hv⟩, fun hv ↦ hv.2⟩

/-- A transition moves the last seq to its event. -/
theorem lastSeq_of_validateData {trace : SessionTrace} {event : LogEvent}
    {transition : SessionTraceTransition} (h : validateData trace event = .ok transition) :
    transition.lastSeq = event.seq := by
  grind [validateData, requireOpenStep, requireOpenTurn, SessionTrace.idle, Except.map, Except.bind]

section Step

variable {scan : RepairScan} {trace : SessionTrace} {event : LogEvent}

/-- An event that neither account takes notice of. -/
private theorem agrees_idle (h : scan.Agrees trace) :
    scan.Agrees (applyTransition trace (trace.idle event)) := ⟨h.turn, h.step, h.enclosed, h.pending⟩

/-- No call is pending where no step is open. -/
theorem RepairScan.Agrees.entries_eq_nil (h : scan.Agrees trace) (hstep : trace.openStep = none) :
    scan.pendingCalls.entries = [] := by
  rw [List.eq_nil_iff_forall_not_mem]
  rintro ⟨callId, entry⟩ hmem
  have hentry := (h.pending callId entry hmem).1
  rw [hstep] at hentry
  exact absurd hentry nofun

/-- **No accepted event breaks the agreement.** -/
theorem agrees_step (h : scan.Agrees trace) {transition : SessionTraceTransition}
    (hv : validateData trace event = .ok transition) :
    (scanEvent scan event).Agrees (applyTransition trace transition) := by
  rw [validateData] at hv
  rw [scanEvent]
  cases hd : event.data with
  | turnStart turn =>
    simp only [hd] at hv ⊢
    rcases ht : trace.openTurn with _ | openTurn
    · simp only [ht] at hv
      split_ifs at hv
      rw [← Except.ok.inj hv]
      exact ⟨rfl, (h.enclosed ht).symm, nofun, fun _ _ hmem ↦ absurd hmem List.not_mem_nil⟩
    · simp only [ht] at hv
      exact absurd hv nofun
  | turnEnd turn reason =>
    simp only [hd] at hv ⊢
    split_ifs at hv
    rcases hs : trace.openStep with _ | openStep
    · simp only [hs] at hv
      rw [← Except.ok.inj hv]
      exact ⟨rfl, hs.symm, fun _ ↦ hs, fun _ _ hmem ↦ absurd hmem List.not_mem_nil⟩
    · simp only [hs] at hv
      exact absurd hv nofun
  | stepStart turn step =>
    simp only [hd] at hv ⊢
    rcases hs : trace.openStep with _ | openStep
    · simp only [hs] at hv
      split_ifs at hv with hturn
      rw [← Except.ok.inj hv]
      refine ⟨h.turn, rfl, fun hnone ↦ ?_, fun callId entry hmem ↦ ?_⟩
      · exact absurd (not_not.mp hturn) (hnone ▸ nofun)
      · rw [h.entries_eq_nil hs] at hmem
        exact absurd hmem List.not_mem_nil
    · simp only [hs] at hv
      split_ifs at hv
  | stepEnd turn step =>
    simp only [hd] at hv ⊢
    obtain ⟨-, -, rfl⟩ := Replay.map_eq_ok.mp hv
    exact ⟨h.turn, rfl, fun _ ↦ rfl, fun _ _ hmem ↦ absurd hmem List.not_mem_nil⟩
  | assistantMessage turn step content =>
    simp only [hd] at hv ⊢
    obtain ⟨u, hopen, rfl⟩ := Replay.map_eq_ok.mp hv
    refine ⟨h.turn, h.step, h.enclosed, fun callId entry hmem ↦ ?_⟩
    rcases OrderedMap.mem_foldl_set.mp hmem with ⟨-, rfl⟩ | ⟨-, hmem⟩
    · exact ⟨(requireOpenStep_eq_ok.mp hopen).2.symm, nofun⟩
    · exact h.pending callId entry hmem
  | toolCall turn step callId =>
    simp only [hd] at hv ⊢
    obtain ⟨-, -, rfl⟩ := Replay.map_eq_ok.mp hv
    -- The checker records every call, the scanner only one it already expects.
    have hmono (id : CallId) (hid : id ∈ trace.pendingCalls) :
        id ∈ insert callId trace.pendingCalls := Finset.mem_insert_of_mem hid
    rcases hget : scan.pendingCalls.get? callId with _ | entry
    · exact ⟨h.turn, h.step, h.enclosed, fun id entry hmem ↦
        ⟨(h.pending id entry hmem).1, fun hsome ↦ hmono id ((h.pending id entry hmem).2 hsome)⟩⟩
    · refine ⟨h.turn, h.step, h.enclosed, fun id entry' hmem ↦ ?_⟩
      rcases OrderedMap.mem_set.mp hmem with ⟨rfl, rfl⟩ | ⟨-, hmem⟩
      · exact ⟨(h.pending id entry (OrderedMap.mem_of_get? hget)).1,
          fun _ ↦ Finset.mem_insert_self id trace.pendingCalls⟩
      · exact ⟨(h.pending id entry' hmem).1, fun hs ↦ hmono id ((h.pending id entry' hmem).2 hs)⟩
  | toolResult turn step message error =>
    simp only [hd] at hv ⊢
    by_cases hop : event.surfaceOp = some .append
    · rw [if_neg (not_not.mpr hop)] at hv
      obtain ⟨-, -, hv⟩ := Replay.bind_eq_ok.mp hv
      split_ifs at hv
      rw [← Except.ok.inj hv]
      refine ⟨h.turn, h.step, h.enclosed, fun id entry hmem ↦ ?_⟩
      obtain ⟨hne, hmem⟩ := OrderedMap.mem_delete.mp hmem
      exact ⟨(h.pending id entry hmem).1,
        fun hs ↦ Finset.mem_erase_of_ne_of_mem hne ((h.pending id entry hmem).2 hs)⟩
    · rw [if_pos hop] at hv
      obtain ⟨-, -, rfl⟩ := Replay.map_eq_ok.mp hv
      exact ⟨h.turn, h.step, h.enclosed, fun id entry hmem ↦
        h.pending id entry (OrderedMap.mem_delete.mp hmem).2⟩
  | assistantChunk turn step =>
    simp only [hd] at hv ⊢
    obtain ⟨-, -, rfl⟩ := Replay.map_eq_ok.mp hv
    exact agrees_idle h
  | userMessage | endSeed | other type =>
    simp only [hd] at hv ⊢
    rw [← Except.ok.inj hv]
    exact agrees_idle h
  | todoWrite | requestHeader | requestContext =>
    simp only [hd] at hv ⊢
    obtain ⟨-, -, rfl⟩ := Replay.map_eq_ok.mp hv
    exact agrees_idle h

end Step

/-! ## Whole logs -/

/-- Both accounts of a log that the checker accepts. -/
structure Accounts (log : List LogEvent) (trace : SessionTrace) : Prop where
  accepted : seedSession log = .ok trace
  agrees : (scanEvents log).Agrees trace
  lastSeq : ∀ last, log.getLast? = some last → trace.lastSeq = last.seq

theorem scanEvents_concat (log : List LogEvent) (event : LogEvent) :
    scanEvents (log ++ [event]) = scanEvent (scanEvents log) event := by
  rw [scanEvents, List.foldl_concat]
  rfl

/-- An event that the checker accepts is one more step of both accounts. -/
theorem Accounts.concat {log : List LogEvent} {trace : SessionTrace} (h : Accounts log trace)
    {event : LogEvent} {transition : SessionTraceTransition}
    (hv : validateEvent trace event = .ok transition) :
    Accounts (log ++ [event]) (applyTransition trace transition) where
  accepted := by
    rw [seedSession, Replay.replay_concat_of_ok h.accepted, Replay.take, hv]
    rfl
  agrees := by
    rw [scanEvents_concat]
    exact agrees_step h.agrees (validateEvent_eq_ok.mp hv).2
  lastSeq last hlast := by
    rw [List.getLast?_concat] at hlast
    rw [← Option.some.inj hlast]
    exact lastSeq_of_validateData (validateEvent_eq_ok.mp hv).2

/-- Every accepted log has both accounts. -/
theorem accounts_of_seedSession {log : List LogEvent} :
    ∀ {trace : SessionTrace}, seedSession log = .ok trace → Accounts log trace := by
  induction log using List.reverseRecOn with
  | nil =>
    intro trace h
    rw [← Except.ok.inj h]
    exact ⟨rfl, agrees_initial, fun _ hlast ↦ by cases hlast⟩
  | append_singleton log event ih =>
    intro trace h
    rw [seedSession, Replay.replay_concat] at h
    obtain ⟨before, hbefore, hadmit⟩ := Replay.bind_eq_ok.mp h
    obtain ⟨transition, hv, rfl⟩ := Replay.map_eq_ok.mp hadmit
    exact (ih hbefore).concat hv

/-! ## One closer -/

/-- The closers of a log whose tail turn is open. -/
theorem interruptedTurnClosers_eq {log : List LogEvent} {last : LogEvent} {turn : ℕ}
    (hturn : (scanEvents log).openTurn = some turn) (hlast : log.getLast? = some last) :
    interruptedTurnClosers log
      = resultClosers turn last.time (last.seq + 1) (scanEvents log).pendingCalls.entries ++
        boundaryClosers turn last.time
          (last.seq + 1 + (scanEvents log).pendingCalls.entries.length)
          (scanEvents log).openStep := by
  rw [interruptedTurnClosers]
  simp only [hturn, hlast]

/-- A log whose tail turn is closed needs no closers. -/
theorem interruptedTurnClosers_of_closed {log : List LogEvent}
    (hturn : (scanEvents log).openTurn = none) : interruptedTurnClosers log = [] := by
  rw [interruptedTurnClosers]
  simp only [hturn]

/-- An open turn has a last event. -/
theorem exists_getLast_of_openTurn {log : List LogEvent} {turn : ℕ}
    (hturn : (scanEvents log).openTurn = some turn) : ∃ last, log.getLast? = some last := by
  rcases log.eq_nil_or_concat with rfl | ⟨init, last, rfl⟩
  · exact absurd hturn nofun
  · exact ⟨last, List.concat_eq_append ▸ List.getLast?_concat⟩

/-- The checker accepts an event right behind the log whose relations hold. -/
theorem validateEvent_next {log : List LogEvent} {trace : SessionTrace} (h : Accounts log trace)
    {last event : LogEvent} (hlast : log.getLast? = some last) (hseq : event.seq = last.seq + 1)
    {transition : SessionTraceTransition} (hv : validateData trace event = .ok transition) :
    validateEvent trace event = .ok transition := by
  refine validateEvent_eq_ok.mpr ⟨?_, hv⟩
  rw [h.lastSeq last hlast, hseq]
  exact Int.lt_add_one_of_le le_rfl

/-- The checker accepts the result of a pending call. -/
theorem exists_validateData_result {scan : RepairScan} {trace : SessionTrace}
    (h : scan.Agrees trace) {turn : ℕ} (hturn : trace.openTurn = some turn) {callId : CallId}
    {entry : PendingCall} (hentry : (callId, entry) ∈ scan.pendingCalls.entries) (time : Number)
    (seq : ℕ) : ∃ transition,
      validateData trace (resultCloser turn time seq callId entry) = .ok transition := by
  obtain ⟨hstep, hstarted⟩ := h.pending callId entry hentry
  have hopen : requireOpenStep trace "tool/result" turn entry.step = .ok () :=
    requireOpenStep_eq_ok.mpr ⟨hturn, hstep.symm⟩
  refine ⟨{ trace.idle (resultCloser turn time seq callId entry) with
    pendingCalls := .delete callId }, ?_⟩
  simp only [validateData, resultCloser, hopen, Except.bind]
  rw [if_neg (by simp), if_neg]
  rintro ⟨hmiss, hmark⟩
  -- A call that never started is marked as such, and the checker lets the mark pass.
  rcases entry with ⟨step, _ | callSeq⟩
  · exact absurd hmark (by simp [syntheticNotStarted])
  · exact hmiss (hstarted rfl)

/-- **One closer is one step of the repair.** The checker accepts the first closer, and the repair of
the log with it supplies the others. -/
theorem interruptedTurnClosers_step {log : List LogEvent} {trace : SessionTrace}
    (h : Accounts log trace) {closer : LogEvent} {closers : List LogEvent}
    (hcloser : interruptedTurnClosers log = closer :: closers) :
    (∃ trace', Accounts (log ++ [closer]) trace') ∧
      interruptedTurnClosers (log ++ [closer]) = closers := by
  rcases hturn : (scanEvents log).openTurn with _ | turn
  · rw [interruptedTurnClosers_of_closed hturn] at hcloser
    exact absurd hcloser nofun
  obtain ⟨last, hlast⟩ := exists_getLast_of_openTurn hturn
  have hopen : trace.openTurn = some turn := h.agrees.turn ▸ hturn
  rw [interruptedTurnClosers_eq hturn hlast] at hcloser
  have hnext (event : LogEvent) : (log ++ [event]).getLast? = some event := List.getLast?_concat
  rcases hentries : (scanEvents log).pendingCalls.entries with _ | ⟨⟨callId, entry⟩, rest⟩
  · have hscan (event : LogEvent) := scanEvents_concat log event
    rcases hstep : (scanEvents log).openStep with _ | step
    · rw [hentries, hstep] at hcloser
      obtain ⟨rfl, rfl⟩ := List.cons.inj hcloser
      have hclosed : trace.openStep = none := h.agrees.step ▸ hstep
      obtain ⟨transition, hv⟩ : ∃ transition, validateData trace
          (turnCloser turn last.time (last.seq + 1)) = .ok transition := by
        simp [validateData, turnCloser, hopen, hclosed]
      refine ⟨⟨_, h.concat (validateEvent_next h hlast rfl hv)⟩, ?_⟩
      apply interruptedTurnClosers_of_closed
      rw [List.length_nil, Nat.add_zero, hscan]
      rfl
    · rw [hentries, hstep] at hcloser
      obtain ⟨rfl, rfl⟩ := List.cons.inj hcloser
      have hclosed : trace.openStep = some step := h.agrees.step ▸ hstep
      obtain ⟨transition, hv⟩ : ∃ transition, validateData trace
          (stepCloser turn step last.time (last.seq + 1)) = .ok transition := by
        simp [validateData, stepCloser, requireOpenStep, hopen, hclosed, Except.map]
      refine ⟨⟨_, h.concat (validateEvent_next h hlast rfl hv)⟩, ?_⟩
      rw [List.length_nil, Nat.add_zero]
      have hturn' : (scanEvents (log ++ [stepCloser turn step last.time (last.seq + 1)])).openTurn
          = some turn := (hscan _).symm ▸ hturn
      rw [interruptedTurnClosers_eq hturn' (hnext _), hscan]
      rfl
  · rw [hentries] at hcloser
    obtain ⟨rfl, rfl⟩ := List.cons.inj hcloser
    have hmem : (callId, entry) ∈ (scanEvents log).pendingCalls.entries :=
      hentries ▸ List.mem_cons_self
    obtain ⟨transition, hv⟩ :=
      exists_validateData_result h.agrees hopen hmem last.time (last.seq + 1)
    have hscan : scanEvents (log ++ [resultCloser turn last.time (last.seq + 1) callId entry])
        = { scanEvents log with pendingCalls := (scanEvents log).pendingCalls.delete callId } :=
      scanEvents_concat log _
    refine ⟨⟨_, h.concat (validateEvent_next h hlast rfl hv)⟩, ?_⟩
    have hturn' : (scanEvents
        (log ++ [resultCloser turn last.time (last.seq + 1) callId entry])).openTurn = some turn := by
      rw [hscan]
      exact hturn
    rw [interruptedTurnClosers_eq hturn' (hnext _), hscan]
    simp only [OrderedMap.entries_delete_of_head hentries]
    have hlen : last.seq + 1 + (rest.length + 1) = last.seq + 1 + 1 + rest.length := by omega
    rw [List.length_cons, hlen]
    rfl

/-! ## The whole repair -/

/-- A log without closers has nothing open. -/
theorem Accounts.closed {log : List LogEvent} {trace : SessionTrace} (h : Accounts log trace)
    (hnone : interruptedTurnClosers log = []) : trace.openTurn = none ∧ trace.openStep = none := by
  have hturn : trace.openTurn = none := by
    rw [← h.agrees.turn]
    by_contra hopen
    obtain ⟨turn, hturn⟩ := Option.ne_none_iff_exists'.mp hopen
    obtain ⟨last, hlast⟩ := exists_getLast_of_openTurn hturn
    rw [interruptedTurnClosers_eq hturn hlast, List.append_eq_nil_iff] at hnone
    rcases hstep : (scanEvents log).openStep with _ | step
    · exact absurd (hstep ▸ hnone.2) nofun
    · exact absurd (hstep ▸ hnone.2) nofun
  exact ⟨hturn, h.agrees.enclosed hturn⟩

/-- The repair of a log with some of its closers supplies the others. -/
theorem interruptedTurnClosers_append_take (closers : List LogEvent) :
    ∀ {log : List LogEvent} {trace : SessionTrace}, Accounts log trace →
      interruptedTurnClosers log = closers → ∀ k,
        (∃ trace', Accounts (log ++ closers.take k) trace') ∧
          interruptedTurnClosers (log ++ closers.take k) = closers.drop k := by
  induction closers with
  | nil =>
    intro log trace h hclosers k
    rw [List.take_nil, List.drop_nil, List.append_nil]
    exact ⟨⟨trace, h⟩, hclosers⟩
  | cons closer closers ih =>
    rintro log trace h hclosers (_ | k)
    · rw [List.take_zero, List.drop_zero, List.append_nil]
      exact ⟨⟨trace, h⟩, hclosers⟩
    · obtain ⟨⟨trace', h'⟩, hrest⟩ := interruptedTurnClosers_step h hclosers
      rw [List.take_succ_cons, List.drop_succ_cons, ← List.singleton_append, ← List.append_assoc]
      exact ih h' hrest k

theorem map_seq_resultClosers (turn : ℕ) (time : Number) (seq : ℕ)
    (entries : List (CallId × PendingCall)) :
    (resultClosers turn time seq entries).map (·.seq) = List.range' seq entries.length := by
  induction entries generalizing seq with
  | nil => rfl
  | cons entry entries ih =>
    rw [resultClosers, List.map_cons, ih, List.length_cons, List.range'_succ]
    rfl

/-- The closers carry the seqs that follow the log. -/
theorem map_seq_interruptedTurnClosers {log : List LogEvent}
    (hseqs : log.map (·.seq) = List.range log.length) :
    (interruptedTurnClosers log).map (·.seq)
      = List.range' log.length (interruptedTurnClosers log).length := by
  rw [interruptedTurnClosers]
  rcases (scanEvents log).openTurn with _ | turn
  · rfl
  rcases hlast : log.getLast? with _ | last
  · rfl
  have hseq : last.seq + 1 = log.length := by
    have hmap : (log.map (·.seq)).getLast? = some last.seq := by rw [List.getLast?_map, hlast]; rfl
    rw [hseqs, List.getLast?_range] at hmap
    split_ifs at hmap with hzero
    have heq := Option.some.inj hmap
    omega
  simp only [hseq, List.map_append, List.length_append, map_seq_resultClosers]
  have hlength : (resultClosers turn last.time log.length
      (scanEvents log).pendingCalls.entries).length
      = (scanEvents log).pendingCalls.entries.length := by
    have hmap := congrArg List.length (map_seq_resultClosers turn last.time log.length
      (scanEvents log).pendingCalls.entries)
    simpa using hmap
  rw [hlength, ← List.range'_append_1]
  congr 1
  rcases (scanEvents log).openStep with _ | step
  · rfl
  · rfl

/-- **Crash repair is resumable and closes the log.** After any number of its closers, the repair of
an accepted log supplies exactly the rest; the completed log needs nothing more, is accepted again,
and has no turn and no step open. -/
theorem interruptedTurnClosers_resumes {log : List LogEvent} {trace : SessionTrace}
    (h : seedSession log = .ok trace) :
    (∀ k ≤ (interruptedTurnClosers log).length,
      interruptedTurnClosers (log ++ (interruptedTurnClosers log).take k)
        = (interruptedTurnClosers log).drop k) ∧
    interruptedTurnClosers (log ++ interruptedTurnClosers log) = [] ∧
    ∃ trace', seedSession (log ++ interruptedTurnClosers log) = .ok trace' ∧
      trace'.openTurn = none ∧ trace'.openStep = none := by
  have hall := interruptedTurnClosers_append_take _ (accounts_of_seedSession h) rfl
  obtain ⟨⟨trace', h'⟩, hnone⟩ := hall (interruptedTurnClosers log).length
  rw [List.take_length] at h' hnone
  rw [List.drop_length] at hnone
  exact ⟨fun k _ ↦ (hall k).2, hnone, trace', h'.accepted, h'.closed hnone⟩

/-- A step with one started and one waiting call, cut off before any result. -/
def interruptedStep : List LogEvent := [
  { seq := 0, time := .int 1, data := .turnStart 1 },
  { seq := 1, time := .int 2, data := .stepStart 1 1 },
  { seq := 2, time := .int 3, surfaceOp := some .append,
    data := .assistantMessage 1 1 [.toolCall (js "a"), .toolCall (js "b")] },
  { seq := 3, time := .int 4, data := .toolCall 1 1 (js "a") }]

/-- The repair of `interruptedStep`, cut off after its first result. -/
theorem interruptedTurnClosers_resumes_step :
    (interruptedTurnClosers interruptedStep).length = 4 ∧
    interruptedTurnClosers (interruptedStep ++ (interruptedTurnClosers interruptedStep).take 1)
      = (interruptedTurnClosers interruptedStep).drop 1 := by
  have hlen : (interruptedTurnClosers interruptedStep).length = 4 := by decide
  obtain ⟨trace, htrace⟩ : ∃ trace, seedSession interruptedStep = .ok trace := ⟨_, rfl⟩
  exact ⟨hlen, (interruptedTurnClosers_resumes htrace).1 1 (by omega)⟩

end XxAgent
