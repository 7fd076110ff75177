import XxAgent.Session.LogEvent
import XxAgent.Session.SurfacePartition

/-!
# Typed events and what is stored of them

A session event is read in two ways: the surface fold looks at the stored object, the relational
checks and the tool pairing at the typed event. A stored event is both.
-/

namespace XxAgent

open Ecma

/-- The type of an event. -/
def EventData.type : EventData → JsString
  | turnStart _ => js "turn/start"
  | turnEnd .. => js "turn/end"
  | stepStart .. => js "step/start"
  | stepEnd .. => js "step/end"
  | userMessage => js "user/message"
  | assistantChunk .. => js "assistant/chunk"
  | assistantMessage .. => js "assistant/message"
  | toolCall .. => js "tool/call"
  | toolResult .. => js "tool/result"
  | endSeed => js "session/end-seed"
  | todoWrite => js "todo/write"
  | requestHeader => js "request/header"
  | requestContext => js "request/context"
  | other type => type

/-- A typed event with the object that it is read from. -/
structure StoredEvent where
  event : LogEvent
  json : Json
  seq : json.get? "seq" = some (integer event.seq)
  type : json.get? "type" = some (.str event.data.type)
  op : ∀ op, surfaceOpOf json = .ok op → event.surfaceOp = op

/-- The typed events. -/
def typed (events : List StoredEvent) : List LogEvent := events.map StoredEvent.event

/-- The stored objects. -/
def stored (events : List StoredEvent) : List Json := events.map StoredEvent.json

@[simp] theorem typed_append (front back : List StoredEvent) :
    typed (front ++ back) = typed front ++ typed back := List.map_append

@[simp] theorem stored_append (front back : List StoredEvent) :
    stored (front ++ back) = stored front ++ stored back := List.map_append

@[simp] theorem length_typed (events : List StoredEvent) :
    (typed events).length = events.length := List.length_map _

@[simp] theorem length_stored (events : List StoredEvent) :
    (stored events).length = events.length := List.length_map _

/-! ## Surfaces of stored events -/

theorem replacementRange_eq_ok {state : SurfaceFoldState} {start stop i j : ℕ} {shadowed : List ℕ}
    (h : replacementRange state start stop = .ok (i, j, shadowed)) :
    state.nodes.idxOf? start = some i ∧ state.nodes.idxOf? stop = some j ∧ i ≤ j ∧
      shadowed = (state.nodes.drop i).take (j + 1 - i) := by
  rw [replacementRange] at h
  split at h
  case h_1 => cases h
  case h_2 => cases h
  case h_3 startIdx endIdx hstart hend =>
    split_ifs at h with hlt
    cases h
    exact ⟨hstart, hend, not_lt.mp hlt, rfl⟩

/-- What committing an accepted event makes of the surface. -/
inductive Surfaced (state : SurfaceFoldState) (n : ℕ) : Option SurfaceOp → SurfaceFoldState → Prop
  | skip : Surfaced state n none state
  | append : Surfaced state n (some .append) { state with nodes := state.nodes ++ [n] }
  | replace {start stop i j : ℕ} {shadowed : List ℕ}
      (range : replacementRange state start stop = .ok (i, j, shadowed)) :
      Surfaced state n (some (.replace start stop))
        ⟨state.nodes.take i ++ n :: state.nodes.drop (j + 1), state.replaceGeneration + 1⟩

/-- An event that is planned has the next number, and does what its marker says. -/
theorem surfaced_of_planNext {state : SurfaceFoldState} {log : List Json} {e : StoredEvent}
    {plan : Option SurfacePlan} (h : planNext state log e.json = .ok plan) :
    e.event.seq = log.length ∧
      Surfaced state log.length e.event.surfaceOp (commitPlan state plan) := by
  rw [planNext, planSurfaceEvent] at h
  simp only at h
  split_ifs at h with hseq
  rw [not_not] at hseq
  rw [hseq] at h
  have hnumber : e.event.seq = log.length := by
    have := e.seq.symm.trans hseq
    rw [Option.some.injEq, integer_inj] at this
    exact_mod_cast this
  refine ⟨hnumber, ?_⟩
  split at h
  case h_1 => cases h
  case h_2 hop =>
    cases h
    rw [e.op _ hop]
    exact .skip
  case h_3 hop =>
    obtain ⟨-, -, rfl⟩ := Replay.map_eq_ok.mp h
    rw [e.op _ hop]
    exact .append
  case h_4 start stop hop =>
    obtain ⟨⟨i, j, shadowed⟩, hrange, h⟩ := Replay.bind_eq_ok.mp h
    obtain ⟨-, -, h⟩ := Replay.bind_eq_ok.mp h
    obtain ⟨-, -, rfl⟩ := Replay.map_eq_ok.mp h
    rw [e.op _ hop]
    exact .replace hrange

/-- An event that is planned has a marker exactly if it is of a type that joins the surface. -/
theorem eligible_of_planNext {state : SurfaceFoldState} {log : List Json} {e : StoredEvent}
    {plan : Option SurfacePlan} (h : planNext state log e.json = .ok plan) :
    isSurfaceEligibleType (some (.str e.event.data.type)) = e.event.surfaceOp.isSome := by
  rw [planNext, planSurfaceEvent] at h
  simp only at h
  split_ifs at h
  cases hop : surfaceOpOf e.json with
  | error fault =>
    rw [hop] at h
    cases h
  | ok op => rw [e.op op hop, ← eligible_of_surfaceOp hop, e.type]

/-- A surface of a log: no event is on it twice, and every one is in the log under its number. -/
structure OnLog (log : List LogEvent) (nodes : List ℕ) : Prop where
  nodup : nodes.Nodup
  numbered : ∀ seq ∈ nodes, ∃ e, log[seq]? = some e ∧ e.seq = seq

theorem OnLog.lt_length {log : List LogEvent} {nodes : List ℕ} (h : OnLog log nodes) {seq : ℕ}
    (hseq : seq ∈ nodes) : seq < log.length := by
  obtain ⟨e, he, -⟩ := h.numbered seq hseq
  exact (List.getElem?_eq_some_iff.mp he).1

theorem OnLog.concat {log : List LogEvent} {nodes : List ℕ} (h : OnLog log nodes) (e : LogEvent) :
    OnLog (log ++ [e]) nodes where
  nodup := h.nodup
  numbered seq hseq := by
    rw [List.getElem?_append_left (h.lt_length hseq)]
    exact h.numbered seq hseq

theorem OnLog.surfaced {log : List LogEvent} {state state' : SurfaceFoldState} {e : LogEvent}
    (h : OnLog log state.nodes) (hseq : e.seq = log.length)
    (hsurfaced : Surfaced state log.length e.surfaceOp state') :
    OnLog (log ++ [e]) state'.nodes := by
  have hnew : (log ++ [e])[log.length]? = some e := by simp
  have hfresh : log.length ∉ state.nodes := fun hin ↦ Nat.lt_irrefl _ (h.lt_length hin)
  have hold := (h.concat e).numbered
  generalize e.surfaceOp = op at hsurfaced
  cases hsurfaced with
  | skip => exact h.concat e
  | append =>
    refine ⟨?_, fun seq hin ↦ ?_⟩
    · rw [List.nodup_append]
      refine ⟨h.nodup, List.nodup_singleton _, ?_⟩
      rintro a ha b hb rfl
      exact hfresh (List.mem_singleton.mp hb ▸ ha)
    · rcases List.mem_append.mp hin with hin | hin
      · exact hold seq hin
      · rw [List.mem_singleton.mp hin]
        exact ⟨e, hnew, hseq⟩
  | replace range =>
    rename_i start stop i j shadowed
    have hsub : (state.nodes.take i ++ state.nodes.drop (j + 1)).Sublist state.nodes := by
      obtain ⟨-, hrun⟩ := replacementRange_run range
      conv_rhs => rw [hrun]
      exact (List.Sublist.refl _).append (List.sublist_append_right _ _)
    refine ⟨?_, fun seq hin ↦ ?_⟩
    · rw [List.nodup_middle, List.nodup_cons]
      exact ⟨fun hin ↦ hfresh (hsub.subset hin), h.nodup.sublist hsub⟩
    · rw [List.mem_append, List.mem_cons] at hin
      rcases hin with hin | rfl | hin
      · exact hold seq (List.mem_of_mem_take hin)
      · exact ⟨e, hnew, hseq⟩
      · exact hold seq (List.mem_of_mem_drop hin)

end XxAgent
