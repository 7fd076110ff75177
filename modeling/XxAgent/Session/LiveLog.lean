import XxAgent.Session.DerivedCaches
import XxAgent.Session.LosslessJson
import XxAgent.Session.MessageShape
import XxAgent.Session.StoredEvent
import XxAgent.Session.TurnInvariant

/-!
# Sessions and their two ways in

An event enters a session through `append` or in the seed that the session is made from. Both refuse
the legacy request vocabulary and what does not fit on the surface. The seed is a load boundary as
well: its envelopes are checked, and so are the shapes of its messages and request headers, which
`append` takes from the types of its callers.
-/

namespace XxAgent

open Ecma

/-! ## Legacy request headers -/

/-- Request-header vocabulary removed with the legacy delta codec. -/
inductive LegacyHeader where
  | delta
  | fallback
deriving DecidableEq

/-- The second half of the message, behind the location. -/
def LegacyHeader.message : LegacyHeader → JsString
  | delta => js " uses unsupported legacy request/header-delta format"
  | fallback => js " uses unsupported legacy request/header reason \"fallback\""

/-- Reject request-header vocabulary removed with the legacy delta codec. -/
def assertSupportedRequestHeader (type data : Value) : Except LegacyHeader Unit :=
  if type = some (text "request/header-delta") then .error .delta
  else if type = some (text "request/header") ∧ data.isRecord = true ∧ data.isArray = false ∧
      data.get "reason" = some (text "fallback") then .error .fallback
  else .ok ()

/-! ## The load boundary -/

/-- What is wrong with an event of a seed. -/
inductive SeedFault where
  | legacy (header : LegacyHeader)
  | envelope
  | providerModel
  | reasoningEffort
  | adapterDefaults
  | shape (type : Value) (fault : ShapeFault)
  | seq (seq : Value)
  | surface (fault : SurfaceFault)

/-- The message of a fault at `index`; where the surface fold fails in the engine, the text is the
engine's. -/
def SeedFault.message (index : ℕ) : SeedFault → Option JsString
  | legacy header => some (js s!"seed event at index {index}" ++ header.message)
  | envelope => some (js s!"seed event at index {index} has an invalid event envelope")
  | providerModel => some (js s!"seed request/header at index {index} lacks provider/model")
  | reasoningEffort =>
      some (js s!"seed request/header at index {index} has an invalid reasoningEffort")
  | adapterDefaults =>
      some (js s!"seed request/header at index {index} has invalid adapterDefaults")
  | shape type fault =>
      some (js "seed " ++ display type ++ js s!" at index {index}" ++ fault.message)
  | .seq saw => some (js s!"seed event at index {index} has seq " ++ display saw ++
      js s!" (expected {index}); seed must be contiguous from 0")
  | surface fault => fault.message.map (js s!"invalid seed event at index {index}: " ++ ·)

/-- The keys that adapter-default markers may have. -/
def allowedAdapterKeys : List String := ["reasoningEffort", "maxTokens"]

/-- Validate adapter-default markers imported from a durable request header. -/
def assertAdapterDefaults (value config : Value) : Except SeedFault Unit :=
  match value with
  | none => .ok ()
  | some (.obj defaults) =>
    if (∃ k ∈ keys defaults, k ∉ allowedAdapterKeys.map js) ∨
        (∃ p ∈ defaults, p.2 ≠ .bool true) ∨
        (value.get "reasoningEffort" = some (.bool true) ∧ config.get "reasoningEffort" = none) ∨
        (value.get "maxTokens" = some (.bool true) ∧ config.get "maxTokens" = none) then
      .error .adapterDefaults
    else .ok ()
  | some _ => .error .adapterDefaults

/-- The part of the check that a request header adds. -/
def assertRequestHeader (data : Value) : Except SeedFault Unit :=
  let header := data.get "header"
  let headerRecord : Value :=
    if header.isRecord = true ∧ header.isArray = false then header else none
  let config := headerRecord.get "config"
  let reasoningEffort := config.get "reasoningEffort"
  if hasProviderModel config = false then .error .providerModel
  else if reasoningEffort ≠ none ∧ isNonemptyString reasoningEffort = false then
    .error .reasoningEffort
  else assertAdapterDefaults (headerRecord.get "adapterDefaults") config

/-- Reject obsolete request headers and malformed messages at the seed/load boundary. -/
def assertCurrentLlmShape (event : Json) : Except SeedFault Unit :=
  let type := event.get? "type"
  if type = some (text "request/header") then assertRequestHeader (event.get? "data")
  else (assertMessageEventShape event).mapError (.shape type)

/-- The fixed event envelope. -/
def hasEventEnvelope (event : Json) : Bool :=
  ((Value.keysOf (some event)).all fun k ↦
      (["type", "seq", "time", "data", "surfaceOp", "sourceEventSeqs", "ignorable"].map js).contains
        k) &&
    Value.isString (event.get? "type") &&
    (Value.isSafeInteger (event.get? "seq") && decide (0 ≤ Value.toInt (event.get? "seq"))) &&
    Value.isSafeInteger (event.get? "time") &&
    (event.get? "data").isSome &&
    decide (event.get? "ignorable" = none ∨ event.get? "ignorable" = some (.bool true))

/-- Validate the fixed event envelope after one-pass JSON materialization. -/
def assertSessionEventEnvelope (event : Json) : Except SeedFault Unit :=
  let type := event.get? "type"
  if type = some (text "request/header-delta") then .error (.legacy .delta)
  else if hasEventEnvelope event = false then .error .envelope
  else if type = some (text "request/header") ∨ isMessageType type = true then
    assertCurrentLlmShape event
  else .ok ()

/-! ## Sessions -/

/-- A session: its metadata and its append-only log. -/
structure Session where
  header : SessionHeader
  events : List StoredEvent
  /-- The first seq appended in this process. -/
  firstLiveSeq : ℕ

/-- `surfaceManager.validateNext`: the manager shows the fold of the log. -/
def validateNext (events : List StoredEvent) (event : StoredEvent) : Except SurfaceFault Unit :=
  (surfaceAfter (stored events)).bind fun state ↦
    (planNext state (stored events) event.json).map fun _ ↦ ()

/-- An event that a caller appends, before it has its number. -/
structure EventDraft where
  data : EventData
  /-- The snapshot of the data. -/
  payload : Json
  /-- The clock at the append. -/
  time : SafeNat
  ignorable : Bool := false
  sourceEventSeqs : Value := none
  surfaceOp : Value := none

namespace EventDraft

variable (draft : EventDraft) (seq : ℕ)

/-- The properties of the event, those that are undefined included. -/
def fields : List (String × Value) := [
  ("type", some (.str draft.data.type)),
  ("seq", some (integer seq)),
  ("time", some (integer draft.time.val)),
  ("data", some draft.payload),
  ("ignorable", if draft.ignorable then some (.bool true) else none),
  ("sourceEventSeqs", draft.sourceEventSeqs),
  ("surfaceOp", draft.surfaceOp)]

/-- The object that enters the log. -/
def json : Json := .obj (definedFields (draft.fields seq))

theorem nodup_fields : ((draft.fields seq).map Prod.fst).Nodup := by
  simp only [fields, List.map_cons, List.map_nil]
  decide

theorem get?_json {k : String} {v : Value} (h : (k, v) ∈ draft.fields seq) :
    (draft.json seq).get? k = v :=
  fieldOf_definedFields (draft.nodup_fields seq) h

/-- The event that enters the log. -/
def event : StoredEvent where
  event := {
    seq := seq
    time := .int draft.time.val
    data := draft.data
    sourceEventSeqs := draft.sourceEventSeqs.map fun seqs ↦
      (Value.toList (some seqs)).map fun source ↦ toSeq (some source)
    surfaceOp := (surfaceOpOf (draft.json seq)).toOption.join }
  json := draft.json seq
  seq := draft.get?_json seq (by simp [fields])
  type := draft.get?_json seq (by simp [fields])
  op op h := by rw [h]; rfl

end EventDraft

/-- Why an append is refused. -/
inductive AppendFault where
  | legacy (header : LegacyHeader)
  | surface (fault : SurfaceFault)

/-- The message of a refused append of an event of some type. -/
def AppendFault.message (type : JsString) : AppendFault → Option JsString
  | legacy header => some (js "session event \"" ++ type ++ js "\"" ++ header.message)
  | surface fault => fault.message

/-- The marker behind a seed. -/
def endSeedDraft (time : SafeNat) : EventDraft where
  data := .endSeed
  payload := .obj []
  time := time

/-- Whether a log ends in the marker. -/
def endsInEndSeed (events : List StoredEvent) : Bool :=
  match events.getLast? with
  | some last => decide (last.event.data = .endSeed)
  | none => false

/-- The checks of one event of a seed, behind the events before it. -/
def admitSeed (events : List StoredEvent) (e : StoredEvent) : Except SeedFault Unit :=
  let seq := e.json.get? "seq"
  (assertSessionEventEnvelope e.json).bind fun _ ↦
    ((assertSupportedRequestHeader (e.json.get? "type") (e.json.get? "data")).mapError
      .legacy).bind fun _ ↦
        if seq ≠ some (integer events.length) then .error (.seq seq)
        else (validateNext events e).mapError .surface

/-- The loop over a seed, behind the events that it has pushed. -/
def pushSeed (events : List StoredEvent) :
    List StoredEvent → Except (ℕ × SeedFault) (List StoredEvent)
  | [] => .ok events
  | e :: seed =>
    match admitSeed events e with
    | .error fault => .error (events.length, fault)
    | .ok () => pushSeed (events ++ [e]) seed

/-- Creation metadata, before the length of the seed is validated. -/
structure HeaderDraft where
  id : JsString
  createdAt : SafeNat
  cwd : Option JsString := none
  parentSession : Option JsString := none
  seedLength : Option ℕ := none
  subagent : Bool := false
  delegationDepth : Option SafeNat := none
  agentPreset : Option JsString := none

/-- Why a session cannot be made. -/
inductive CreateFault where
  | alreadyExists (id : JsString)
  | seed (index : ℕ) (fault : SeedFault)
  | seedLength
  | marker (fault : AppendFault)
  /-- A listener of `session/created` throws: the relational checks refuse the log. -/
  | vetoed (fault : InvariantFault)

/-- The message of a session that cannot be made; what a listener throws is its own. -/
def CreateFault.message : CreateFault → Option JsString
  | alreadyExists id => some (js "session \"" ++ id ++ js "\" already exists")
  | seed index fault => fault.message index
  | seedLength => some (js "session header seedLength must be a non-negative safe integer")
  | marker fault => fault.message (js "session/end-seed")
  | vetoed _ => none

/-- Validate the creation metadata published by a session. -/
def validateSessionHeader (header : HeaderDraft) : Except CreateFault SessionHeader :=
  let validated (seedLength : Option SafeNat) : SessionHeader :=
    ⟨SESSION_FORMAT_VERSION, header.id, header.createdAt, header.cwd, header.parentSession,
      seedLength, header.subagent, header.delegationDepth, header.agentPreset, rfl⟩
  match header.seedLength with
  | none => .ok (validated none)
  | some n => if h : Number.IsSafe n then .ok (validated (some ⟨n, h⟩)) else .error .seedLength

namespace Session

/-- Append one typed event to the log. -/
def append (s : Session) (draft : EventDraft) : Except AppendFault Session :=
  let event := draft.event s.events.length
  match assertSupportedRequestHeader (some (.str draft.data.type)) (some draft.payload) with
  | .error header => .error (.legacy header)
  | .ok () =>
    match validateNext s.events event with
    | .error fault => .error (.surface fault)
    | .ok () => .ok { s with events := s.events ++ [event] }

/-- Create a session from borrowed seed events, at a time. -/
def create (seed : Option (List StoredEvent)) (header : HeaderDraft) (now : SafeNat) :
    Except CreateFault Session :=
  match seed with
  | none => (validateSessionHeader header).map fun header ↦ ⟨header, [], 0⟩
  | some seed =>
    match pushSeed [] seed with
    | .error (index, fault) => .error (.seed index fault)
    | .ok events =>
      (validateSessionHeader header).bind fun header ↦
        let s : Session := ⟨header, events, events.length⟩
        -- A seed that ends in the marker is not marked again.
        if endsInEndSeed events then .ok s
        else (s.append (endSeedDraft now)).mapError .marker

/-- The messages that the first `n` events of the session derive to, read from its whole log. -/
def derivedMessagesAt (s : Session) (n : ℕ) : Except SurfaceFault (List Json) :=
  (surfaceAfter (stored (s.events.take n))).bind fun state ↦
    nodeMessages (stored s.events) state.nodes

/-- What `deriveMessages` computes; its cache keeps nothing else. -/
def derivedMessages (s : Session) : Except SurfaceFault (List Json) :=
  s.derivedMessagesAt s.events.length

/-- A session that was created, and appended to. -/
inductive Live : Session → Prop
  | create {seed : Option (List StoredEvent)} {header : HeaderDraft} {now : SafeNat} {s : Session}
      (h : create seed header now = .ok s) : Live s
  | append {s next : Session} {draft : EventDraft} (h : Live s)
      (happend : s.append draft = .ok next) : Live next

end Session

/-! ## The surface of a log -/

theorem validateNext_eq_ok {events : List StoredEvent} {e : StoredEvent} :
    validateNext events e = .ok () ↔
      ∃ state, surfaceAfter (stored (events ++ [e])) = .ok state := by
  rw [surfaceAfter, stored_append, show stored [e] = [e.json] from rfl, Replay.replay_concat]
  constructor
  · intro h
    obtain ⟨state, hstate, h⟩ := Replay.bind_eq_ok.mp h
    obtain ⟨plan, hplan, -⟩ := Replay.map_eq_ok.mp h
    exact ⟨_, Replay.bind_eq_ok.mpr ⟨state, hstate, Replay.map_eq_ok.mpr ⟨plan, hplan, rfl⟩⟩⟩
  · rintro ⟨next, h⟩
    obtain ⟨state, hstate, h⟩ := Replay.bind_eq_ok.mp h
    obtain ⟨plan, hplan, -⟩ := Replay.map_eq_ok.mp h
    exact Replay.bind_eq_ok.mpr ⟨state, hstate, Replay.map_eq_ok.mpr ⟨plan, hplan, rfl⟩⟩

/-- What was accepted as part of a log is accepted without the rest. -/
theorem exists_surfaceAfter_of_append {front back : List StoredEvent}
    (h : ∃ state, surfaceAfter (stored (front ++ back)) = .ok state) :
    ∃ state, surfaceAfter (stored front) = .ok state := by
  obtain ⟨state, h⟩ := h
  rw [stored_append] at h
  exact Replay.exists_replay_of_append h

/-- An event of an accepted log carries its position. -/
theorem seq_of_surfaceAfter {before after : List StoredEvent} {e : StoredEvent}
    (h : ∃ state, surfaceAfter (stored (before ++ e :: after)) = .ok state) :
    e.event.seq = before.length := by
  rw [List.append_cons] at h
  have hnext := validateNext_eq_ok.mpr (exists_surfaceAfter_of_append h)
  obtain ⟨state, -, hplan⟩ := Replay.bind_eq_ok.mp hnext
  obtain ⟨plan, hplan, -⟩ := Replay.map_eq_ok.mp hplan
  rw [(surfaced_of_planNext hplan).1, length_stored]

theorem seq_of_getElem? {events : List StoredEvent} {k : ℕ} {e : StoredEvent}
    (h : ∃ state, surfaceAfter (stored events) = .ok state) (hget : events[k]? = some e) :
    e.event.seq = k := by
  obtain ⟨hlt, rfl⟩ := List.getElem?_eq_some_iff.mp hget
  have hsplit : events = events.take k ++ events[k] :: events.drop (k + 1) := by
    rw [List.getElem_cons_drop, List.take_append_drop]
  rw [hsplit] at h
  rw [seq_of_surfaceAfter h, List.length_take, min_eq_left hlt.le]

theorem seq_lt_length {events : List StoredEvent} {e : StoredEvent}
    (h : ∃ state, surfaceAfter (stored events) = .ok state) (he : e ∈ events) :
    e.event.seq < events.length := by
  obtain ⟨k, hget⟩ := List.getElem?_of_mem he
  rw [seq_of_getElem? h hget]
  exact (List.getElem?_eq_some_iff.mp hget).1

/-! ## What both ways in demand -/

/-- An event that both ways in let pass, but for the shape of its payload. -/
structure Enveloped (e : StoredEvent) : Prop where
  legacy : assertSupportedRequestHeader (e.json.get? "type") (e.json.get? "data") = .ok ()
  envelope : Number.IsSafe e.event.seq → hasEventEnvelope e.json = true

theorem mapError_eq_ok {χ χ' α : Type*} {x : Except χ α} {f : χ → χ'} {a : α} :
    x.mapError f = .ok a ↔ x = .ok a := by
  rcases x with fault | b
  · exact ⟨nofun, nofun⟩
  · exact ⟨fun h ↦ congrArg _ (Except.ok.inj h), fun h ↦ congrArg _ (Except.ok.inj h)⟩

theorem bind_unit_eq_ok {χ α : Type*} {x : Except χ Unit} {f : Unit → Except χ α} {a : α} :
    x.bind f = .ok a ↔ x = .ok () ∧ f () = .ok a := by
  rw [Replay.bind_eq_ok]
  exact ⟨fun ⟨(), h⟩ ↦ h, fun h ↦ ⟨(), h⟩⟩

theorem type_ne_of_legacy {type data : Value}
    (h : assertSupportedRequestHeader type data = .ok ()) :
    type ≠ some (text "request/header-delta") := by
  intro htype
  rw [assertSupportedRequestHeader, if_pos htype] at h
  cases h

/-- A type that the envelope check passes on has no shape. -/
theorem assertCurrentLlmShape_of_other {event : Json}
    (h : ¬ (event.get? "type" = some (text "request/header") ∨
      isMessageType (event.get? "type") = true)) : assertCurrentLlmShape event = .ok () := by
  rw [not_or, Bool.not_eq_true] at h
  rw [assertCurrentLlmShape, if_neg h.1, assertMessageEventShape, if_pos h.2]
  rfl

theorem assertSessionEventEnvelope_eq_ok {event : Json} :
    assertSessionEventEnvelope event = .ok () ↔
      event.get? "type" ≠ some (text "request/header-delta") ∧ hasEventEnvelope event = true ∧
        assertCurrentLlmShape event = .ok () := by
  rw [assertSessionEventEnvelope]
  split_ifs with hdelta henvelope hshape
  · simp [hdelta]
  · simp [henvelope]
  · simp [hdelta, henvelope]
  · simp [hdelta, henvelope, assertCurrentLlmShape_of_other hshape]

theorem admitSeed_eq_ok {events : List StoredEvent} {e : StoredEvent} :
    admitSeed events e = .ok () ↔
      assertSessionEventEnvelope e.json = .ok () ∧
        assertSupportedRequestHeader (e.json.get? "type") (e.json.get? "data") = .ok () ∧
        e.event.seq = events.length ∧ validateNext events e = .ok () := by
  have hseq : e.json.get? "seq" = some (integer events.length) ↔ e.event.seq = events.length := by
    rw [e.seq, Option.some.injEq, integer_inj, Nat.cast_inj]
  rw [admitSeed, bind_unit_eq_ok, bind_unit_eq_ok, mapError_eq_ok]
  refine and_congr_right fun _ ↦ and_congr_right fun _ ↦ ?_
  by_cases h : e.event.seq = events.length
  · rw [if_neg (not_not.mpr (hseq.mpr h)), mapError_eq_ok]
    exact ⟨fun hnext ↦ ⟨h, hnext⟩, And.right⟩
  · rw [if_pos (mt hseq.mp h)]
    exact ⟨nofun, fun hnext ↦ absurd hnext.1 h⟩

/-- An event of a seed that was let in is enveloped. -/
theorem enveloped_of_admitSeed {events : List StoredEvent} {e : StoredEvent}
    (h : admitSeed events e = .ok ()) : Enveloped e := by
  obtain ⟨henvelope, hlegacy, -, -⟩ := admitSeed_eq_ok.mp h
  exact ⟨hlegacy, fun _ ↦ (assertSessionEventEnvelope_eq_ok.mp henvelope).2.1⟩

/-- Behind an accepted log, an enveloped event is let into a seed if its payload has the shape. -/
theorem Enveloped.admitSeed_iff {events : List StoredEvent} {e : StoredEvent} (h : Enveloped e)
    (hsafe : Number.IsSafe e.event.seq)
    (hsurface : ∃ state, surfaceAfter (stored (events ++ [e])) = .ok state) :
    admitSeed events e = .ok () ↔ assertCurrentLlmShape e.json = .ok () := by
  rw [admitSeed_eq_ok, assertSessionEventEnvelope_eq_ok]
  constructor
  · exact fun hadmit ↦ hadmit.1.2.2
  · intro hshape
    exact ⟨⟨type_ne_of_legacy h.legacy, h.envelope hsafe, hshape⟩, h.legacy,
      seq_of_surfaceAfter hsurface, validateNext_eq_ok.mpr hsurface⟩

namespace EventDraft

variable {draft : EventDraft} {seq : ℕ}

theorem keysOf_subset : ∀ k ∈ Value.keysOf (some (draft.json seq)),
    k ∈ ["type", "seq", "time", "data", "surfaceOp", "sourceEventSeqs", "ignorable"].map js := by
  intro k hk
  obtain ⟨p, hp, rfl⟩ := List.mem_map.mp hk
  obtain ⟨name, x, hmem, rfl⟩ := mem_definedFields.mp hp
  refine List.mem_map_of_mem ?_
  have hname : name ∈ (draft.fields seq).map Prod.fst := List.mem_map_of_mem hmem
  simp only [fields, List.map_cons, List.map_nil, List.mem_cons, List.not_mem_nil,
    or_false] at hname
  rcases hname with rfl | rfl | rfl | rfl | rfl | rfl | rfl <;> simp

theorem hasEventEnvelope_json (hsafe : Number.IsSafe seq) :
    hasEventEnvelope (draft.json seq) = true := by
  have htype : (draft.json seq).get? "type" = some (.str draft.data.type) :=
    draft.get?_json seq (by simp [fields])
  have hseq : (draft.json seq).get? "seq" = some (integer seq) :=
    draft.get?_json seq (by simp [fields])
  have htime : (draft.json seq).get? "time" = some (integer draft.time.val) :=
    draft.get?_json seq (by simp [fields])
  have hdata : (draft.json seq).get? "data" = some draft.payload :=
    draft.get?_json seq (by simp [fields])
  have hignorable : (draft.json seq).get? "ignorable" =
      if draft.ignorable then some (.bool true) else none :=
    draft.get?_json seq (by simp [fields])
  simp only [hasEventEnvelope, Bool.and_eq_true, List.all_eq_true, List.contains_iff_mem,
    decide_eq_true_iff]
  refine ⟨⟨⟨⟨⟨keysOf_subset, ?_⟩, ?_, ?_⟩, ?_⟩, ?_⟩, ?_⟩
  · rw [htype]
    rfl
  · rw [hseq]
    exact Value.isSafeInteger_iff.mpr ⟨seq, rfl, hsafe⟩
  · rw [hseq]
    exact Int.natCast_nonneg seq
  · rw [htime]
    exact Value.isSafeInteger_iff.mpr ⟨draft.time.val, rfl, draft.time.safe⟩
  · rw [hdata]
    rfl
  · rw [hignorable]
    cases draft.ignorable <;> simp

end EventDraft

namespace Session

variable {s next : Session} {draft : EventDraft}

theorem append_eq_ok : s.append draft = .ok next ↔
    assertSupportedRequestHeader (some (.str draft.data.type)) (some draft.payload) = .ok () ∧
      validateNext s.events (draft.event s.events.length) = .ok () ∧
      next = { s with events := s.events ++ [draft.event s.events.length] } := by
  rw [append]
  cases hlegacy : assertSupportedRequestHeader (some (.str draft.data.type))
      (some draft.payload) with
  | error header => simp
  | ok u =>
    cases hnext : validateNext s.events (draft.event s.events.length) with
    | error fault => simp
    | ok u => simp [eq_comm]

end Session

/-- A seed is pushed as it is, if each of its events is let in behind those before it. -/
theorem pushSeed_eq_ok {seed : List StoredEvent} : ∀ {events pushed : List StoredEvent},
    pushSeed events seed = .ok pushed ↔ pushed = events ++ seed ∧
      ∀ before e after, seed = before ++ e :: after → admitSeed (events ++ before) e = .ok () := by
  induction seed with
  | nil =>
    intro events pushed
    simp [pushSeed, eq_comm]
  | cons e seed ih =>
    intro events pushed
    rw [pushSeed]
    cases hadmitted : admitSeed events e with
    | error fault =>
      simp only [reduceCtorEq, false_iff, not_and, not_forall]
      exact fun _ ↦ ⟨[], e, seed, rfl, by simp [hadmitted]⟩
    | ok u =>
      simp only [ih, List.append_assoc, List.singleton_append]
      refine and_congr_right fun _ ↦
        ⟨fun h before x after hsplit ↦ ?_, fun h before x after hsplit ↦ ?_⟩
      · rcases List.cons_eq_append_iff.mp hsplit with ⟨rfl, hcons⟩ | ⟨before', rfl, hseed⟩
        · obtain ⟨rfl, -⟩ := List.cons.inj hcons
          rwa [List.append_nil]
        · exact h before' x after hseed
      · exact h (e :: before) x after (by rw [hsplit, List.cons_append])

/-! ## The invariant -/

/-- A log whose events fold to a surface, and are enveloped. -/
structure Sound (events : List StoredEvent) : Prop where
  surface : ∃ state, surfaceAfter (stored events) = .ok state
  enveloped : ∀ e ∈ events, Enveloped e

theorem sound_nil : Sound [] := ⟨⟨createFoldState, rfl⟩, fun _ hmem ↦ absurd hmem List.not_mem_nil⟩

theorem Sound.concat {events : List StoredEvent} (h : Sound events) {e : StoredEvent}
    (hnext : validateNext events e = .ok ()) (henveloped : Enveloped e) :
    Sound (events ++ [e]) where
  surface := validateNext_eq_ok.mp hnext
  enveloped x hx := by
    rcases List.mem_append.mp hx with hx | hx
    · exact h.enveloped x hx
    · rwa [List.mem_singleton.mp hx]

theorem Sound.take {events : List StoredEvent} (h : Sound events) (n : ℕ) :
    Sound (events.take n) where
  surface := by
    have hsurface := h.surface
    rw [← events.take_append_drop n] at hsurface
    exact exists_surfaceAfter_of_append hsurface
  enveloped e he := h.enveloped e (List.mem_of_mem_take he)

/-- Let in one by one behind a sound log, the events of a seed make a sound log. -/
theorem Sound.seed {seed : List StoredEvent} : ∀ {events : List StoredEvent}, Sound events →
    (∀ before e after, seed = before ++ e :: after → admitSeed (events ++ before) e = .ok ()) →
    Sound (events ++ seed) := by
  induction seed with
  | nil =>
    intro events h _
    rwa [List.append_nil]
  | cons e seed ih =>
    intro events h hadmits
    have hadmitted := hadmits [] e seed rfl
    rw [List.append_nil] at hadmitted
    rw [List.append_cons]
    refine ih (h.concat (admitSeed_eq_ok.mp hadmitted).2.2.2 (enveloped_of_admitSeed hadmitted)) ?_
    intro before x after hsplit
    rw [← List.append_cons]
    exact hadmits (e :: before) x after (by rw [hsplit, List.cons_append])

/-- A sound log is a seed exactly if its payloads have the shapes of the load boundary. -/
theorem Sound.pushSeed_iff {events pushed : List StoredEvent} (h : Sound events)
    (hsafe : Number.IsSafe events.length) : pushSeed [] events = .ok pushed ↔
      pushed = events ∧ ∀ e ∈ events, assertCurrentLlmShape e.json = .ok () := by
  rw [pushSeed_eq_ok]
  refine and_congr_right fun _ ↦ ?_
  have hiff : ∀ before e after, events = before ++ e :: after →
      (admitSeed before e = .ok () ↔ assertCurrentLlmShape e.json = .ok ()) := by
    intro before e after hsplit
    have hsurface := h.surface
    rw [hsplit] at hsurface
    refine (h.enveloped e (by simp [hsplit])).admitSeed_iff ?_ ?_
    · rw [seq_of_surfaceAfter hsurface]
      refine ⟨(neg_nonpos.mpr (by decide)).trans (Int.natCast_nonneg _), le_trans ?_ hsafe.2⟩
      rw [hsplit, List.length_append]
      exact_mod_cast Nat.le_add_right _ _
    · rw [List.append_cons] at hsurface
      exact exists_surfaceAfter_of_append hsurface
  constructor
  · intro hadmits e he
    obtain ⟨before, after, hsplit⟩ := List.append_of_mem he
    exact (hiff before e after hsplit).mp (hadmits before e after hsplit)
  · intro hshapes before e after hsplit
    exact (hiff before e after hsplit).mpr (hshapes e (by simp [hsplit]))

/-! ## The marker -/

/-- The marker behind a log. -/
def endSeedEvent (now : SafeNat) (events : List StoredEvent) : StoredEvent :=
  (endSeedDraft now).event events.length

theorem get?_endSeed {now : SafeNat} {events : List StoredEvent} {k : String} {v : Value}
    (h : (k, v) ∈ (endSeedDraft now).fields events.length) :
    (endSeedEvent now events).json.get? k = v :=
  EventDraft.get?_json _ _ h

theorem surfaceOpOf_endSeed (now : SafeNat) (events : List StoredEvent) :
    surfaceOpOf (endSeedEvent now events).json = .ok none := by
  have hop : (endSeedEvent now events).json.get? "surfaceOp" = none :=
    get?_endSeed (by simp [EventDraft.fields, endSeedDraft])
  have hsources : (endSeedEvent now events).json.get? "sourceEventSeqs" = none :=
    get?_endSeed (by simp [EventDraft.fields, endSeedDraft])
  have hineligible : isSurfaceEligibleType (some (.str EventData.endSeed.type)) = false := by decide
  rw [surfaceOpOf, (endSeedEvent now events).type, hop, hsources]
  exact if_pos hineligible

theorem planNext_endSeed (state : SurfaceFoldState) (now : SafeNat) (events : List StoredEvent) :
    planNext state (stored events) (endSeedEvent now events).json = .ok none := by
  have hseq := (endSeedEvent now events).seq
  rw [planNext, planSurfaceEvent, surfaceOpOf_endSeed, hseq]
  have hnumber : (endSeedEvent now events).event.seq = (stored events).length :=
    (length_stored events).symm
  rw [hnumber]
  exact if_neg (not_not.mpr rfl)

/-- The marker leaves the surface as it is. -/
theorem surfaceAfter_endSeed {events : List StoredEvent} {state : SurfaceFoldState} (now : SafeNat)
    (h : surfaceAfter (stored events) = .ok state) :
    surfaceAfter (stored (events ++ [endSeedEvent now events])) = .ok state := by
  rw [stored_append, surfaceAfter]
  refine (Replay.replay_concat_of_ok h _).trans ?_
  rw [Replay.take, planNext_endSeed]
  rfl

theorem enveloped_endSeed (now : SafeNat) (events : List StoredEvent) :
    Enveloped (endSeedEvent now events) where
  legacy := by
    have htype : (endSeedEvent now events).json.get? "type" = some (text "session/end-seed") :=
      (endSeedEvent now events).type
    rw [htype, assertSupportedRequestHeader]
    simp
  envelope hsafe := EventDraft.hasEventEnvelope_json hsafe

/-- What a session makes of a seed that it takes. -/
def seeded (now : SafeNat) (seed : List StoredEvent) : List StoredEvent :=
  if endsInEndSeed seed then seed else seed ++ [endSeedEvent now seed]

theorem Sound.seeded {seed : List StoredEvent} (h : Sound seed) (now : SafeNat) :
    Sound (seeded now seed) := by
  obtain ⟨state, hstate⟩ := h.surface
  rw [XxAgent.seeded]
  split_ifs
  · exact h
  · exact h.concat (validateNext_eq_ok.mpr ⟨state, surfaceAfter_endSeed now hstate⟩)
      (enveloped_endSeed now seed)

namespace Session

variable {s : Session} {header : HeaderDraft} {now : SafeNat}

theorem create_eq_ok {seed : List StoredEvent}
    (hseed : ∃ state, surfaceAfter (stored seed) = .ok state) :
    create (some seed) header now = .ok s ↔ pushSeed [] seed = .ok seed ∧
      ∃ validated, validateSessionHeader header = .ok validated ∧
        s = ⟨validated, seeded now seed, seed.length⟩ := by
  obtain ⟨state, hstate⟩ := hseed
  rw [create]
  cases hpush : pushSeed [] seed with
  | error fault => simp
  | ok pushed =>
    obtain rfl : pushed = seed := (pushSeed_eq_ok.mp hpush).1
    simp only [true_and, Replay.bind_eq_ok]
    refine exists_congr fun validated ↦ and_congr_right fun _ ↦ ?_
    rw [seeded]
    split_ifs
    · rw [Except.ok.injEq, eq_comm]
    · rw [mapError_eq_ok, append_eq_ok, validateNext_eq_ok]
      exact ⟨fun h ↦ h.2.2, fun h ↦ ⟨rfl, ⟨state, surfaceAfter_endSeed now hstate⟩, h⟩⟩

/-- **A live log is sound**: however it came about, it folds to a surface and is enveloped. -/
theorem Live.sound (h : Live s) : Sound s.events := by
  induction h with
  | @create seed header now s h =>
    rcases seed with _ | seed
    · obtain ⟨validated, -, rfl⟩ := Replay.map_eq_ok.mp h
      exact sound_nil
    · have hpush : ∃ pushed, pushSeed [] seed = .ok pushed := by
        cases hpush : pushSeed [] seed with
        | error fault =>
          rw [Session.create, hpush] at h
          cases h
        | ok pushed => exact ⟨pushed, rfl⟩
      obtain ⟨pushed, hpush⟩ := hpush
      have hseed : Sound seed := by
        have hsound := sound_nil.seed (pushSeed_eq_ok.mp hpush).2
        rwa [List.nil_append] at hsound
      obtain ⟨-, validated, -, rfl⟩ := (create_eq_ok hseed.surface).mp h
      exact hseed.seeded now
  | @append s next draft _ happend ih =>
    obtain ⟨hlegacy, hnext, rfl⟩ := append_eq_ok.mp happend
    refine ih.concat hnext ⟨?_, EventDraft.hasEventEnvelope_json⟩
    have htype := (draft.event s.events.length).type
    have hdata : (draft.event s.events.length).json.get? "data" = some draft.payload :=
      draft.get?_json _ (by simp [EventDraft.fields])
    rw [htype, hdata]
    exact hlegacy

end Session

end XxAgent
