import XxAgent.Persistence.LiveSession
import XxAgent.Persistence.StoredReads

/-!
# The key order of events

Storage keeps an event as a JSON value. It does not keep the order of its keys: a row store writes
the envelope back in column order, and a packed run is rebuilt in the order of the row decoder.
Whoever compares JSON text compares key order too, so this says when the order survives.
-/

namespace XxAgent

open Ecma

namespace SessionEvent

end SessionEvent

/-!
## Live adoption

A session that is live when its persistence is reloaded finds its own log in storage. The coordinator
adopts the stored prefix if the live log covers it and reports an id collision otherwise, and it
compares the JSON text of events. Text tells different values apart (`seedCoversPrefix_eq_true_iff`),
but it tells key orders apart as well, and neither store keeps the key order of every event.
-/

open Jsonl Sqlite

/-- Why a stored log is not adopted. -/
inductive AdoptError where
  /-- It cannot be read. -/
  | read (e : ReadError)
  /-- It belongs to another directory. -/
  | cwd (id : JsString) (persisted live : Value)
  /-- It is not the log of this session. -/
  | collision (id : JsString)

/-- The message of an error. -/
def AdoptError.message : AdoptError → JsString
  | read e => e.message
  | cwd id persisted live => js "session \"" ++ id ++
      js "\" is already persisted at a different cwd (persisted: " ++ display persisted ++
      js ", live: " ++ display live ++ js ") (id collision)"
  | collision id => js "session \"" ++ id ++
      js "\" already has a persisted log on disk that does not match this live session (id collision)"

/-- How a prefix of a session's log was written. -/
inductive Written (session : LiveSession) where
  /-- In batches of packed records, as plaintext or compressed. -/
  | jsonl (batches : List Batch) (compressed : Bool)
      (packed : ∀ batch ∈ batches, batch.packChunks = true)
      (durable : batches.flatMap Batch.events <+: session.events)
  /-- As rows. -/
  | sqlite (events : List SessionEvent) (durable : events <+: session.events)

namespace Written

variable {session : LiveSession}

/-- The events written. -/
def events : Written session → List SessionEvent
  | jsonl batches _ _ _ => batches.flatMap Batch.events
  | sqlite events _ => events

theorem events_prefix (w : Written session) : w.events <+: session.events := by
  cases w with
  | jsonl batches compressed packed durable => exact durable
  | sqlite events durable => exact durable

/-- What reading the events back gives. -/
def stored : Written session → List Json
  | jsonl batches _ _ _ => batches.flatMap fun b ↦ (b.events.splitBy joins).flatMap rebuilt
  | sqlite events _ => events.map fun event ↦ .obj event.columns

/-- The written events, numbered. -/
theorem numbered (w : Written session) : ContiguousFrom 0 (w.events.map SessionEvent.json) := by
  obtain ⟨rest, hrest⟩ := w.events_prefix
  have hall := session.numbered
  rw [← hrest, List.map_append, contiguousFrom_append] at hall
  exact hall.1

private theorem rows_of_numbered {events : List SessionEvent} : ∀ {n : ℕ},
    ContiguousFrom n (events.map SessionEvent.json) →
      (events.map insertEvent).Pairwise (fun a b ↦ a.seq < b.seq) ∧
        ∀ r ∈ events.map insertEvent, (n : ℤ) ≤ r.seq := by
  induction events with
  | nil => exact fun _ ↦ ⟨.nil, by simp⟩
  | cons event rest ih =>
    intro n h
    rw [List.map_cons] at h ⊢
    obtain ⟨hsorted, hlow⟩ := ih h.2
    have hget : event.get "seq" = some (integer n) := h.1
    have hseq : (insertEvent event).seq = n := by
      rw [insertEvent]
      dsimp only
      rw [hget]
      rfl
    refine ⟨List.pairwise_cons.mpr ⟨fun r hr ↦ ?_, hsorted⟩, List.forall_mem_cons.mpr
      ⟨le_of_eq hseq.symm, fun r hr ↦ ?_⟩⟩
    · have hr' := hlow r hr
      push_cast at hr'
      omega
    · have hr' := hlow r hr
      push_cast at hr'
      omega

/-- The rows of a written prefix. -/
def storedSession (session : LiveSession) (events : List SessionEvent)
    (durable : events <+: session.events) : StoredSession where
  row := sessionRow session.header
  rows := events.map insertEvent
  sorted := (rows_of_numbered (numbered (.sqlite events durable))).1
  nonneg := (rows_of_numbered (numbered (.sqlite events durable))).2

/-- The store that holds the written prefix; `logPath` says where files are. -/
def store (logPath : Json → JsString) : Written session → Store
  | jsonl batches compressed _ _ =>
    .jsonl (fun id ↦
      if id = session.header.id then some (writtenFile session.header batches compressed)
      else none) logPath
  | sqlite events durable => .sqlite [storedSession session events durable]

end Written

/-! ## Adoption -/

end XxAgent
