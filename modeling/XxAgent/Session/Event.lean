import XxAgent.Ecma.Value
import XxAgent.Ecma.JsonText

/-!
# Session events as stored values

A session event is a lossless JSON object. Storage treats it as such: a backend may inspect any of
its properties, and the checks it makes are structural. So the event is kept as the object it is,
with the order of its properties, and with the proof that it is an object a program can have built.

The storage encoding has a vocabulary of its own, the row tags. They have no slash and are no event
types, so that a reader cannot take a row for an event; `SessionEvent.not_row` is that convention.
-/

namespace XxAgent

open Ecma

/-- A JSON string with a literal text. -/
def text (s : String) : Json := .str (js s)

/-- A JSON number that is an integer. -/
def integer (n : ℤ) : Json := .num (.int n)

@[simp] theorem text_inj {s t : String} : text s = text t ↔ s = t := by
  rw [text, text, Json.str.injEq, js_inj]

@[simp] theorem integer_inj {m n : ℤ} : integer m = integer n ↔ m = n := by
  rw [integer, integer, Json.num.injEq, Number.int.injEq]

/-! ## Storage rows -/

/-- The tags of the storage rows. -/
inductive RowTag where
  | textChunks
  | reasoningChunks
  | toolCallChunks
deriving DecidableEq, Repr

/-- The tag as the row carries it. -/
def RowTag.name : RowTag → String
  | .textChunks => "text-chunks"
  | .reasoningChunks => "reasoning-chunks"
  | .toolCallChunks => "tool-call-chunks"

/-- The tag of a row-tagged value. -/
def rowTag? (value : Json) : Option RowTag :=
  if value.get? "type" = some (text RowTag.textChunks.name) then some .textChunks
  else if value.get? "type" = some (text RowTag.reasoningChunks.name) then some .reasoningChunks
  else if value.get? "type" = some (text RowTag.toolCallChunks.name) then some .toolCallChunks
  else none

/-! ## Events -/

/-- A session event: a lossless JSON object that is no storage row. -/
structure SessionEvent where
  /-- Its properties, in the order in which they are enumerated. -/
  fields : Fields
  /-- Only an object that can exist: keys in order, none twice, at every depth. -/
  wf : (Json.obj fields).WF
  /-- Rows are an encoding vocabulary: their tags are no event types. -/
  not_row : rowTag? (.obj fields) = none

namespace SessionEvent

/-- The event as a JSON value. -/
def json (e : SessionEvent) : Json := .obj e.fields

/-- `event.k`. -/
def get (k : String) (e : SessionEvent) : Value := e.json.get? k

theorem json_wf (e : SessionEvent) : e.json.WF := e.wf

theorem json_injective {e f : SessionEvent} (h : e.json = f.json) : e = f := by
  obtain ⟨fs, _, _⟩ := e
  obtain ⟨gs, _, _⟩ := f
  obtain rfl : fs = gs := Json.obj.inj h
  rfl

@[simp] theorem json_inj {e f : SessionEvent} : e.json = f.json ↔ e = f :=
  ⟨json_injective, fun h ↦ by rw [h]⟩

instance : DecidableEq SessionEvent := fun e f ↦ decidable_of_iff (e.json = f.json) json_inj

/-- The properties every event has, in the order in which `append` writes them. -/
def envelope (type : String) (seq time : ℤ) (data : Json) : Fields :=
  [prop "type" (text type), prop "seq" (integer seq), prop "time" (integer time),
    prop "data" data]

private theorem orderedKeys_envelope : OrderedKeys [js "type", js "seq", js "time", js "data"] := by
  decide +kernel

theorem wf_envelope (type : String) (seq time : ℤ) {data : Json} (h : data.WF) :
    (Json.obj (envelope type seq time data)).WF := by
  rw [Json.WF]
  exact ⟨orderedKeys_envelope, trivial, trivial, trivial, h, trivial⟩

theorem rowTag?_envelope {type : String} (seq time : ℤ) (data : Json)
    (h : ∀ tag : RowTag, type ≠ tag.name) :
    rowTag? (.obj (envelope type seq time data)) = none := by
  have hget : (Json.obj (envelope type seq time data)).get? "type" = some (text type) := rfl
  rw [rowTag?, hget]
  simp [h]

/-- An event without options. -/
def ofEnvelope (type : String) (seq time : ℤ) (data : Json) (h : data.WF)
    (h' : ∀ tag : RowTag, type ≠ tag.name) : SessionEvent :=
  ⟨envelope type seq time data, wf_envelope type seq time h, rowTag?_envelope seq time data h'⟩

/-- The data of a text delta: the first block of the first step. -/
private theorem wf_textDelta (fragment : String) :
    (Json.obj [prop "turn" (integer 1), prop "step" (integer 1), prop "chunk" (.obj [
      prop "type" (text "text-delta"), prop "index" (integer 0),
      prop "text" (text fragment)])]).WF := by
  have hchunk : OrderedKeys [js "type", js "index", js "text"] := by decide +kernel
  have hdata : OrderedKeys [js "turn", js "step", js "chunk"] := by decide +kernel
  rw [Json.WF]
  exact ⟨hdata, trivial, trivial, ⟨hchunk, trivial, trivial, trivial, trivial⟩, trivial⟩

private theorem chunk_ne_rowTag (tag : RowTag) : "assistant/chunk" ≠ tag.name := by
  cases tag <;> decide +kernel

/-- A text delta, as a provider streams it. -/
def textDelta (seq time : ℤ) (fragment : String) : SessionEvent :=
  ofEnvelope "assistant/chunk" seq time
    (.obj [prop "turn" (integer 1), prop "step" (integer 1), prop "chunk" (.obj [
      prop "type" (text "text-delta"), prop "index" (integer 0), prop "text" (text fragment)])])
    (wf_textDelta fragment) chunk_ne_rowTag

end SessionEvent

/-!
## Session headers

The metadata of a session: validated when it is created, stored in front of the log, and never
changed afterwards. A reader refuses a header of another format version before it looks at anything
else.
-/

/-- The format version this build reads and writes. -/
def SESSION_FORMAT_VERSION : ℤ := 0

/-- A non-negative safe integer. -/
structure SafeNat where
  /-- The number. -/
  val : ℕ
  /-- It is within the safe range. -/
  safe : Number.IsSafe val

/-- The time at which sessions are created whose age does not matter. -/
def SafeNat.zero : SafeNat := ⟨0, by decide +kernel⟩

/-- Immutable validated storage metadata. -/
structure SessionHeader where
  /-- The format version. -/
  version : ℤ
  /-- The session's id. -/
  id : JsString
  /-- When the session was created. -/
  createdAt : SafeNat
  /-- The working directory, if any. -/
  cwd : Option JsString
  /-- The session this one was forked from, if any. -/
  parentSession : Option JsString
  /-- How many leading events were inherited through a seed. -/
  seedLength : Option SafeNat
  /-- Whether the session was created as a subagent child: `origin === 'subagent'`. -/
  subagent : Bool
  /-- Delegation depth; absent is zero. -/
  delegationDepth : Option SafeNat
  /-- The agent preset, if any. -/
  agentPreset : Option JsString
  /-- Creation stamps the current version. -/
  version_eq : version = SESSION_FORMAT_VERSION

/-- The header of a top-level session with nothing else set. -/
def SessionHeader.topLevel (id : String) (createdAt : SafeNat) : SessionHeader :=
  ⟨SESSION_FORMAT_VERSION, js id, createdAt, none, none, none, false, none, none, rfl⟩

/-- Whether a version is above the one this build reads. -/
def isNewerVersion : Value → Bool
  | some (.num version) => decide (SESSION_FORMAT_VERSION < version.val)
  | _ => false

/-- `sessionFormatVersionRefusal(id, version)`. -/
def sessionFormatVersionRefusal (id : JsString) (version : Value) : JsString :=
  if isNewerVersion version then
    js "session \"" ++ id ++ js "\" uses log format v" ++ display version ++
      js ", but this harness reads only v" ++ (Number.int SESSION_FORMAT_VERSION).text ++
      js ": the log was written by a newer harness — upgrade the harness to open it"
  else
    js "session \"" ++ id ++ js "\" uses log format v" ++ display version ++
      js ", older than the supported v" ++ (Number.int SESSION_FORMAT_VERSION).text ++
      js ", and this build ships no upgrade path for it"

end XxAgent
