import XxAgent.Jsonl.StoredLog
import XxAgent.Persistence.StoredEvents
import XxAgent.Sqlite.StoredTable

/-!
# Reading through the coordinator

A backend hands over a stored prefix, and a backend that can seek a suffix as well. The coordinator
checks what it gets and upgrades it. A suffix is upgraded by itself unless one of its events needs
the log before it; then the whole prefix is read and cut.
-/

namespace XxAgent

open Ecma

/-- What a backend hands over: a header and events. -/
abbrev Stored := Json × List Json

/-- Why a backend cannot read a session. -/
inductive BackendError where
  /-- The JSONL backend failed. -/
  | jsonl (e : Jsonl.FileError)
  /-- The SQLite backend failed. -/
  | sqlite (e : Sqlite.TableError)

/-- The message of an error. -/
def BackendError.message : BackendError → JsString
  | jsonl e => e.message
  | sqlite e => e.message

/-- A backend, as the coordinator reads from it. -/
structure Backend where
  /-- Read a stored prefix by id. -/
  loadStored : JsString → Except BackendError (Option Stored)
  /-- Read a stored suffix, if the backend can seek. -/
  loadStoredFrom : Option (JsString → ℕ → Except BackendError (Option Stored))
  /-- Where the artifact of a session is, if it has one. -/
  locate : Json → Option JsString

/-- Why a session cannot be read. -/
inductive ReadError where
  /-- The backend failed. -/
  | backend (e : BackendError)
  /-- No session has this id. -/
  | notFound (id : JsString)
  /-- The header carries another id. -/
  | identity (requested : JsString) (found : Value)
  /-- `SessionFormatUnsupportedError`. -/
  | unsupported (reason : JsString) (location : Option JsString)
  /-- An event cannot be read. -/
  | stored (e : StoredEventError)
  /-- The start is no position. -/
  | fromSeq (value : Number)

/-- The message of an error. -/
def ReadError.message : ReadError → JsString
  | backend e => e.message
  | notFound id => js "session \"" ++ id ++ js "\" not found"
  | identity requested found => js "stored session identity mismatch: requested \"" ++ requested ++
      js "\", header contains \"" ++ display found ++ js "\""
  | unsupported reason none => reason
  | unsupported reason (some path) => reason ++ js " (raw log: " ++ path ++ js ")"
  | stored e => e.message
  | fromSeq value => js "readFrom fromSeq must be a non-negative safe integer, got " ++ value.text

/-- Every event type this build understands. -/
def KNOWN_SESSION_EVENT_TYPES : List String := [
  "agent-preset/selected", "agent/inbox/spliced", "approval/asked", "approval/decided",
  "approval/policy", "assistant/chunk", "assistant/message", "business-skill/activated",
  "command/done", "command/run", "compaction/end", "compaction/prune", "compaction/start",
  "compaction/summary", "fact/proposal-decided", "feedback/record", "goal/change", "hook/invoked",
  "hook/result", "llm/retry", "llm/retry-started", "permission/preset", "plan/mode",
  "request/context", "request/header", "sandbox/mode", "schedule/change", "session/end-seed",
  "session/title", "session/title-llm-request", "step/end", "step/start", "subagent/descriptor",
  "todo/write", "tool-workflow/agent-end", "tool-workflow/agent-start", "tool-workflow/run-end",
  "tool-workflow/run-start", "tool/call", "tool/code-dispatch", "tool/code-dispatch-start",
  "tool/result", "turn/end", "turn/start", "user/message", "web/deepseek-search-llm-request"]

/-- An event this build can interpret, or may skip. -/
def isSupportedEvent (event : Json) : Bool :=
  KNOWN_SESSION_EVENT_TYPES.any (fun type ↦ hasType type event) ||
    decide (event.get? "ignorable" = some (.bool true))

theorem isSupportedEvent_of_hasType (type : String) {event : Json}
    (hknown : type ∈ KNOWN_SESSION_EVENT_TYPES) (htype : hasType type event = true) :
    isSupportedEvent event = true := by
  rw [isSupportedEvent, List.any_eq_true.mpr ⟨type, hknown, htype⟩, Bool.true_or]

section Reads

variable (backend : Backend)

/-- `this.unsupported(meta, reason)`. -/
def unsupported (header : Json) (reason : JsString) : ReadError :=
  .unsupported reason (backend.locate header)

/-- Reject metadata that is not bound to the requested id. -/
def assertStoredId (id : JsString) (header : Json) : Except ReadError Unit :=
  if header.get? "id" ≠ some (.str id) then .error (.identity id (header.get? "id")) else .ok ()

/-- Reject a format version this build does not read. -/
def assertVersion (header : Json) : Except ReadError Unit :=
  if header.get? "version" = some (integer SESSION_FORMAT_VERSION) then .ok ()
  else .error (unsupported backend header
    (sessionFormatVersionRefusal (display (header.get? "id")) (header.get? "version")))

/-- The message about an event this build does not know. -/
def unknownEventReason (header event : Json) : JsString :=
  js "session \"" ++ display (header.get? "id") ++ js "\" contains event type \"" ++
    display (event.get? "type") ++ js "\" (seq " ++ display (event.get? "seq") ++
    js ") unknown to this harness and not marked ignorable; refusing to interpret the log — " ++
    js "it was likely written by a newer harness"

/-- Refuse a log with an unknown event that is not marked ignorable. -/
def assertEventsSupported (header : Json) : List Json → Except ReadError Unit
  | [] => .ok ()
  | event :: rest =>
    if isSupportedEvent event then assertEventsSupported header rest
    else .error (unsupported backend header (unknownEventReason header event))

theorem assertEventsSupported_eq_ok {header : Json} {events : List Json} :
    assertEventsSupported backend header events = .ok () ↔
      ∀ event ∈ events, isSupportedEvent event = true := by
  induction events with
  | nil => simp [assertEventsSupported]
  | cons event rest ih =>
    rw [assertEventsSupported, List.forall_mem_cons, ← ih]
    cases isSupportedEvent event <;> simp

/-- The checks that every stored result passes, and the upgrade of its events. -/
def acceptStored (id : JsString) (stored : Stored) : Except ReadError Stored :=
  match snapshotStoredEvents stored.2 id with
  | .error e => .error (.stored e)
  | .ok events =>
    match assertEventsSupported backend stored.1 events with
    | .error e => .error e
    | .ok () => .ok (stored.1, events)

/-- The checks of a header. -/
def acceptHeader (id : JsString) (header : Json) : Except ReadError Unit :=
  match assertStoredId id header with
  | .error e => .error e
  | .ok () => assertVersion backend header

/-- Read one detached physical prefix. -/
def readStoredPrefix (id : JsString) : Except ReadError Stored :=
  match backend.loadStored id with
  | .error e => .error (.backend e)
  | .ok none => .error (.notFound id)
  | .ok (some stored) =>
    match acceptHeader backend id stored.1 with
    | .error e => .error e
    | .ok () => acceptStored backend id stored

/-- `event.seq >= fromSeq`. -/
def seqFrom (fromSeq : ℕ) (event : Json) : Bool :=
  match event.get? "seq" with
  | some (.num seq) => decide ((fromSeq : ℚ) ≤ seq.val)
  | _ => false

/-- Read a suffix, through the backend's own suffix read where it has one. -/
def readFromCore (id : JsString) (fromSeq : ℕ) : Except ReadError Stored :=
  match backend.loadStoredFrom with
  | some loadStoredFrom =>
    match loadStoredFrom id fromSeq with
    | .error e => .error (.backend e)
    | .ok none => .error (.notFound id)
    | .ok (some suffix) =>
      match acceptHeader backend id suffix.1 with
      | .error e => .error e
      | .ok () =>
        if suffix.2.any needsLegacyPrefix then
          match readStoredPrefix backend id with
          | .error e => .error e
          | .ok whole => .ok (whole.1, whole.2.filter (seqFrom fromSeq))
        else acceptStored backend id suffix
  | none =>
    match readStoredPrefix backend id with
    | .error e => .error e
    | .ok whole => .ok (whole.1, whole.2.drop fromSeq)

/-- Read the stored events from a position on. -/
def readFrom (id : JsString) (fromSeq : Number) : Except ReadError Stored :=
  if fromSeq.isSafeInteger = false ∨ fromSeq.val < 0 then .error (.fromSeq fromSeq)
  else readFromCore backend id (fromSeq.toInt?.getD 0).toNat

end Reads

/-! ## The two backends -/

/-- A result of a backend, as it is handed over. -/
def handOver {ε : Type} (wrap : ε → BackendError) :
    Except ε Stored → Except BackendError (Option Stored)
  | .error e => .error (wrap e)
  | .ok stored => .ok (some stored)

/-- The JSONL backend: it reads the file found for an id. -/
def jsonlBackend (findLog : JsString → Option Jsonl.LogFile) (logPath : Json → JsString) :
    Backend where
  loadStored id :=
    match findLog id with
    | none => .ok none
    | some file =>
      handOver .jsonl ((Jsonl.readPrefix file).map fun scan ↦ (scan.header, scan.events))
  loadStoredFrom := none
  locate header := some (logPath header)

/-- `rowFor(id)`. -/
def rowFor (database : List Sqlite.StoredSession) (id : JsString) : Option Sqlite.StoredSession :=
  database.find? fun s ↦ decide (s.row.id = id)

/-- The SQLite backend: it can seek, and has no artifact for a single session. -/
def sqliteBackend (database : List Sqlite.StoredSession) : Backend where
  loadStored id :=
    match rowFor database id with
    | none => .ok none
    | some s => handOver .sqlite (Sqlite.readPrefix s)
  loadStoredFrom := some fun id fromSeq ↦
    match rowFor database id with
    | none => .ok none
    | some s => handOver .sqlite (Sqlite.loadStoredFrom s fromSeq)
  locate _ := none

theorem handOver_eq_ok {ε : Type} {wrap : ε → BackendError} {result : Except ε Stored}
    {stored : Stored} : handOver wrap result = .ok (some stored) ↔ result = .ok stored := by
  cases result <;> simp [handOver]

theorem loadStored_sqlite {database : List Sqlite.StoredSession} {id : JsString} {stored : Stored} :
    (sqliteBackend database).loadStored id = .ok (some stored) ↔
      ∃ s, rowFor database id = some s ∧ Sqlite.readPrefix s = .ok stored := by
  rw [sqliteBackend]
  dsimp only
  cases rowFor database id with
  | none => simp
  | some s => simp [handOver_eq_ok]

theorem loadStored_jsonl {findLog : JsString → Option Jsonl.LogFile} {logPath : Json → JsString}
    {id : JsString} {stored : Stored} :
    (jsonlBackend findLog logPath).loadStored id = .ok (some stored) ↔ ∃ file scan,
      findLog id = some file ∧ Jsonl.readPrefix file = .ok scan ∧
        stored = (scan.header, scan.events) := by
  rw [jsonlBackend]
  dsimp only
  cases findLog id with
  | none => simp
  | some file =>
    dsimp only
    rw [handOver_eq_ok]
    cases hr : Jsonl.readPrefix file with
    | error e => simp [Except.map, hr]
    | ok scan => simp [Except.map, hr, eq_comm]

/-- A store of sessions. -/
inductive Store where
  /-- The files found for ids, and where the file of a header is. -/
  | jsonl (findLog : JsString → Option Jsonl.LogFile) (logPath : Json → JsString)
  /-- A database. -/
  | sqlite (database : List Sqlite.StoredSession)

/-- The backend of a store. -/
def Store.backend : Store → Backend
  | jsonl findLog logPath => jsonlBackend findLog logPath
  | sqlite database => sqliteBackend database

end XxAgent
