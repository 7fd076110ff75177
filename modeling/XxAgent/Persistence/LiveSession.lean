import XxAgent.Jsonl.StoredLog
import XxAgent.Persistence.StoredEvents
import XxAgent.Sqlite.RowScan

/-!
# What upgrading keeps

An upgrade keeps the position of an event, so a log keeps its numbering. And an event that does not
need the log before it (`needsLegacyPrefix`) is upgraded alike whatever that log was: none of its
upgrades looks at the message ids. That is why a suffix can be upgraded by itself.
-/

namespace XxAgent

open Ecma Jsonl

theorem get?_withFields {k : String} {changes : Fields} (h : js k ∉ keys changes) (event : Json) :
    (withFields event changes).get? k = event.get? k := by
  cases event with
  | obj fs => exact fieldOf_setFields_of_not_mem h fs
  | _ => rfl

theorem get?_withFields_of_ne {changes : Fields}
    (h : keys changes = [js "data"] ∨ keys changes = [js "type", js "data"]) {k : String}
    (htype : k ≠ "type") (hdata : k ≠ "data") (event : Json) :
    (withFields event changes).get? k = event.get? k := by
  refine get?_withFields ?_ event
  rcases h with h | h <;> simp [h, js_inj, htype, hdata]

theorem hasType_withFields {changes : Fields} (h : keys changes = [js "data"]) (type : String)
    (event : Json) : hasType type (withFields event changes) = hasType type event := by
  rw [hasType, hasType, get?_withFields (by simp [h, js_inj])]

/-! ## One upgrade at a time -/

/-- Either nothing changes, or the payload of an event of the given type. -/
def KeepsEnvelope (type : String) (event result : Json) : Prop :=
  result = event ∨ hasType type event = true ∧ ∃ data, result = withFields event [prop "data" data]

theorem migrateLegacyTurnStartEvent_spec {event result : Json} {id : JsString}
    (h : migrateLegacyTurnStartEvent event id = .ok result) :
    KeepsEnvelope "turn/start" event result := by
  rw [migrateLegacyTurnStartEvent] at h
  split_ifs at h with htype
  · exact .inl (Except.ok.inj h).symm
  · cases hd : asRecord (event.get? "data") with
    | none =>
      simp only [hd] at h
      exact .inl (Except.ok.inj h).symm
    | some data =>
      simp only [hd] at h
      split_ifs at h
      · exact .inl (Except.ok.inj h).symm
      · exact .inr ⟨by simpa using htype, _, (Except.ok.inj h).symm⟩

theorem migrateLegacyTurnEndEvent_spec {event result : Json} {id : JsString}
    (h : migrateLegacyTurnEndEvent event id = .ok result) :
    KeepsEnvelope "turn/end" event result := by
  rw [migrateLegacyTurnEndEvent] at h
  split_ifs at h with htype
  · exact .inl (Except.ok.inj h).symm
  · cases hd : asRecord (event.get? "data") with
    | none =>
      simp only [hd] at h
      exact .inl (Except.ok.inj h).symm
    | some data =>
      cases hr : asRecord (fieldOf (js "reason") data) with
      | none => simp [hd, hr] at h
      | some reason =>
        simp only [hd, hr] at h
        split_ifs at h
        cases hreason : turnEndReason reason with
        | malformed => simp [hreason] at h
        | current =>
          simp only [hreason] at h
          exact .inl (Except.ok.inj h).symm
        | upgraded current =>
          simp only [hreason] at h
          exact .inr ⟨by simpa using htype, _, (Except.ok.inj h).symm⟩

theorem migrateLegacySteeringEvent_spec {event result : Json} {id : JsString}
    (h : migrateLegacySteeringEvent event id = .ok result) :
    result = event ∨ hasType "steering/message" event = true ∧
      ∃ data, result = withFields event [prop "type" (text "user/message"), prop "data" data] := by
  rw [migrateLegacySteeringEvent] at h
  dsimp only at h
  split_ifs at h with htype
  · exact .inl (Except.ok.inj h).symm
  · right
    refine ⟨by simpa using htype, ?_⟩
    cases hd : asRecord (event.get? "data") with
    | none => simp [hd] at h
    | some data =>
      simp only [hd] at h
      split_ifs at h
      · exact ⟨_, (Except.ok.inj h).symm⟩
      · exact ⟨_, (Except.ok.inj h).symm⟩

theorem migrateLegacyMessageEvent_spec (event : Json) (id : JsString) (ids : MessageIds) :
    migrateLegacyMessageEvent event id ids = event ∨
      ∃ data, migrateLegacyMessageEvent event id ids = withFields event [prop "data" data] := by
  rw [migrateLegacyMessageEvent]
  dsimp only
  cases asRecord (event.get? "data") with
  | none => exact .inl rfl
  | some data =>
    dsimp only
    split_ifs
    all_goals first
      | exact .inl rfl
      | exact .inr ⟨_, rfl⟩

/-! ## The envelope -/

/-- The upgrades of an event, one behind the other. -/
theorem snapshotStoredEvent_eq_ok {id : JsString} {ids : MessageIds} {event snapshot : Json}
    (h : snapshotStoredEvent id ids event = .ok snapshot) :
    ∃ started ended steered, migrateLegacyTurnStartEvent event id = .ok started ∧
      migrateLegacyTurnEndEvent started id = .ok ended ∧
      migrateLegacySteeringEvent ended id = .ok steered ∧
      snapshot = migrateLegacyMessageEvent steered id ids ∧
      assertMessageEventShape snapshot = .ok () := by
  rw [snapshotStoredEvent] at h
  cases h1 : migrateLegacyTurnStartEvent event id with
  | error e => simp [h1] at h
  | ok started =>
    cases h2 : migrateLegacyTurnEndEvent started id with
    | error e => simp [h1, h2] at h
    | ok ended =>
      cases h3 : migrateLegacySteeringEvent ended id with
      | error e => simp [h1, h2, h3] at h
      | ok steered =>
        cases h4 : assertMessageEventShape (migrateLegacyMessageEvent steered id ids) with
        | error fault => simp [h1, h2, h3, snapshotSessionEvent, h4] at h
        | ok u =>
          simp only [h1, h2, h3, snapshotSessionEvent, h4] at h
          obtain rfl := Except.ok.inj h
          exact ⟨started, ended, steered, rfl, h2, h3, rfl, h4⟩

theorem KeepsEnvelope.get? {type : String} {event result : Json}
    (h : KeepsEnvelope type event result) {k : String} (htype : k ≠ "type") (hdata : k ≠ "data") :
    result.get? k = event.get? k := by
  rcases h with rfl | ⟨-, data, rfl⟩
  · rfl
  · exact get?_withFields_of_ne (.inl rfl) htype hdata event

/-- **An upgrade touches nothing but the type and the payload.** -/
theorem snapshotStoredEvent_get? {id : JsString} {ids : MessageIds} {event snapshot : Json}
    (h : snapshotStoredEvent id ids event = .ok snapshot) {k : String} (htype : k ≠ "type")
    (hdata : k ≠ "data") : snapshot.get? k = event.get? k := by
  obtain ⟨started, ended, steered, h1, h2, h3, rfl, -⟩ := snapshotStoredEvent_eq_ok h
  have hsteered : steered.get? k = ended.get? k := by
    rcases migrateLegacySteeringEvent_spec h3 with rfl | ⟨-, data, rfl⟩
    · rfl
    · exact get?_withFields_of_ne (.inr rfl) htype hdata ended
  have hmessage : (migrateLegacyMessageEvent steered id ids).get? k = steered.get? k := by
    rcases migrateLegacyMessageEvent_spec steered id ids with hm | ⟨data, hm⟩
    · rw [hm]
    · rw [hm]
      exact get?_withFields_of_ne (.inl rfl) htype hdata steered
  rw [hmessage, hsteered, (migrateLegacyTurnEndEvent_spec h2).get? htype hdata,
    (migrateLegacyTurnStartEvent_spec h1).get? htype hdata]

/-- An upgraded event stands where it stood. -/
theorem snapshotStoredEvent_seq {id : JsString} {ids : MessageIds} {event snapshot : Json}
    (h : snapshotStoredEvent id ids event = .ok snapshot) :
    snapshot.get? "seq" = event.get? "seq" :=
  snapshotStoredEvent_get? h (by decide) (by decide)

/-- An upgraded log keeps its numbering. -/
theorem contiguous_snapshotStoredFrom {id : JsString} {events : List Json} :
    ∀ {ids : MessageIds} {n : ℕ} {snapshots : List Json},
      snapshotStoredFrom id ids events = .ok snapshots → ContiguousFrom n events →
        ContiguousFrom n snapshots := by
  induction events with
  | nil =>
    intro ids n snapshots h _
    exact Except.ok.inj h ▸ trivial
  | cons event rest ih =>
    intro ids n snapshots h hcontig
    rw [snapshotStoredFrom] at h
    cases h1 : snapshotStoredEvent id ids event with
    | error e => simp [h1] at h
    | ok snapshot =>
      cases h2 : snapshotStoredFrom id (ids.record snapshot) rest with
      | error e => simp [h1, h2] at h
      | ok others =>
        simp only [h1, h2] at h
        obtain rfl := Except.ok.inj h
        exact ⟨(snapshotStoredEvent_seq h1).trans hcontig.1, ih h2 hcontig.2⟩

/-! ## A suffix by itself -/

theorem needsLegacyPrefix_of_type {type : String} {event : Json}
    (h : hasType type event = true) (hne : type ∉ ["steering/message", "user/message",
      "assistant/message", "tool/result"]) : needsLegacyPrefix event = false := by
  have htype : event.get? "type" = some (text type) := of_decide_eq_true h
  have hother (other : String) (ho : other ∈ ["steering/message", "user/message",
      "assistant/message", "tool/result"]) : hasType other event = false := by
    rw [hasType, htype, decide_eq_false_iff_not]
    intro hc
    exact hne (text_inj.mp (Option.some.inj hc) ▸ ho)
  rw [needsLegacyPrefix, hother "steering/message" (by simp), hother "user/message" (by simp),
    hother "assistant/message" (by simp), hother "tool/result" (by simp)]
  cases asRecord (event.get? "data") <;> rfl

/-- The upgrades of a turn boundary make no event that needs the log before it. -/
theorem KeepsEnvelope.needsLegacyPrefix {type : String} {event result : Json}
    (h : KeepsEnvelope type event result) (hne : type ∉ ["steering/message", "user/message",
      "assistant/message", "tool/result"]) (hneeds : needsLegacyPrefix event = false) :
    XxAgent.needsLegacyPrefix result = false := by
  rcases h with rfl | ⟨htype, data, rfl⟩
  · exact hneeds
  · exact needsLegacyPrefix_of_type ((hasType_withFields rfl type event).trans htype) hne

theorem migrateLegacySteeringEvent_of_not_needs {event : Json} (id : JsString)
    (h : needsLegacyPrefix event = false) : migrateLegacySteeringEvent event id = .ok event := by
  have htype : hasType "steering/message" event = false := by
    rw [← Bool.not_eq_true]
    intro ht
    rw [needsLegacyPrefix, if_pos ht] at h
    cases h
  rw [migrateLegacySteeringEvent, if_pos htype]

theorem migrateLegacyMessageEvent_of_not_needs {event : Json} (id : JsString) (ids : MessageIds)
    (h : needsLegacyPrefix event = false) : migrateLegacyMessageEvent event id ids = event := by
  rw [migrateLegacyMessageEvent]
  dsimp only
  cases hd : asRecord (event.get? "data") with
  | none => rfl
  | some data =>
    have hsteering : hasType "steering/message" event ≠ true := by
      intro ht
      rw [needsLegacyPrefix, if_pos ht] at h
      cases h
    rw [needsLegacyPrefix, if_neg hsteering] at h
    simp only [hd] at h ⊢
    by_cases huser : hasType "user/message" event = true
    · rw [if_pos huser, Bool.and_eq_false_iff, Bool.not_eq_false'] at h
      rw [if_pos huser, if_pos]
      rcases h with h | h <;> simp [h]
    · rw [if_neg huser] at h ⊢
      by_cases hassistant : hasType "assistant/message" event = true
      · rw [if_pos hassistant, Bool.and_eq_false_iff, Bool.not_eq_false'] at h
        rw [if_pos hassistant, if_pos]
        rcases h with h | h <;> simp [h]
      · rw [if_neg hassistant] at h ⊢
        by_cases htool : hasType "tool/result" event = true
        · rw [if_pos htool, Bool.and_eq_false_iff, Bool.not_eq_false'] at h
          rw [if_pos htool, if_pos]
          rcases h with h | h <;> simp [h]
        · rw [if_neg htool]

/-- **An event that does not need the log before it is upgraded alike, whatever that log was.** -/
theorem snapshotStoredEvent_of_not_needs {event : Json} (id : JsString) (ids ids' : MessageIds)
    (h : needsLegacyPrefix event = false) :
    snapshotStoredEvent id ids event = snapshotStoredEvent id ids' event := by
  rw [snapshotStoredEvent, snapshotStoredEvent]
  cases h1 : migrateLegacyTurnStartEvent event id with
  | error e => rfl
  | ok started =>
    have hstarted := (migrateLegacyTurnStartEvent_spec h1).needsLegacyPrefix (by decide) h
    cases h2 : migrateLegacyTurnEndEvent started id with
    | error e => simp only [h2]
    | ok ended =>
      have hended := (migrateLegacyTurnEndEvent_spec h2).needsLegacyPrefix (by decide) hstarted
      simp only [h2, migrateLegacySteeringEvent_of_not_needs id hended,
        migrateLegacyMessageEvent_of_not_needs id _ hended]

/-- So is a list of such events. -/
theorem snapshotStoredFrom_of_not_needs {id : JsString} {events : List Json} :
    ∀ {ids ids' : MessageIds}, (∀ event ∈ events, needsLegacyPrefix event = false) →
      snapshotStoredFrom id ids events = snapshotStoredFrom id ids' events := by
  induction events with
  | nil => intros; rfl
  | cons event rest ih =>
    intro ids ids' h
    rw [snapshotStoredFrom, snapshotStoredFrom,
      snapshotStoredEvent_of_not_needs id ids ids' (h event List.mem_cons_self)]
    cases snapshotStoredEvent id ids' event with
    | error e => rfl
    | ok snapshot =>
      have hrest : snapshotStoredFrom id (ids.record snapshot) rest
          = snapshotStoredFrom id (ids'.record snapshot) rest :=
        ih fun e he ↦ h e (List.mem_cons_of_mem event he)
      simp only [hrest]

theorem snapshotStoredFrom_drop {id : JsString} {k : ℕ} :
    ∀ {ids : MessageIds} {events snapshots : List Json},
      snapshotStoredFrom id ids events = .ok snapshots →
        ∃ ids', snapshotStoredFrom id ids' (events.drop k) = .ok (snapshots.drop k) := by
  induction k with
  | zero => exact fun h ↦ ⟨_, h⟩
  | succ k ih =>
    intro ids events snapshots h
    cases events with
    | nil => exact ⟨ids, by rw [← Except.ok.inj h]; rfl⟩
    | cons event rest =>
      rw [snapshotStoredFrom] at h
      cases h1 : snapshotStoredEvent id ids event with
      | error e => simp [h1] at h
      | ok snapshot =>
        cases h2 : snapshotStoredFrom id (ids.record snapshot) rest with
        | error e => simp [h1, h2] at h
        | ok others =>
          simp only [h1, h2] at h
          obtain rfl := Except.ok.inj h
          exact ih h2

/-! ## Obsolete vocabulary -/

private theorem findFallback_eq_none {events : List Json} :
    findFallback events = .ok none ↔ ∀ event ∈ events, isFallbackHeader event = .ok false := by
  induction events with
  | nil => simp [findFallback]
  | cons event rest ih =>
    rw [findFallback, List.forall_mem_cons, ← ih]
    cases isFallbackHeader event with
    | error e => simp
    | ok b => cases b <;> simp

/-- A log of the current vocabulary: event by event. -/
theorem assertSupportedEvents_eq_ok {events : List Json} {id : JsString} :
    assertSupportedEvents events id = .ok () ↔ ∀ event ∈ events,
      hasType "request/header-delta" event = false ∧ hasType "mode/set" event = false ∧
        isFallbackHeader event = .ok false := by
  simp only [forall_and]
  rw [← findFallback_eq_none, assertSupportedEvents]
  cases h1 : events.find? (hasType "request/header-delta") with
  | some legacy =>
    have hlegacy := List.find?_some h1
    have hmem := List.mem_of_find?_eq_some h1
    simp only [reduceCtorEq, false_iff]
    rintro ⟨hall, -⟩
    rw [hall legacy hmem] at hlegacy
    cases hlegacy
  | none =>
    have hdelta : ∀ event ∈ events, hasType "request/header-delta" event = false := by
      simpa using h1
    cases h2 : events.find? (hasType "mode/set") with
    | some legacy =>
      have hlegacy := List.find?_some h2
      have hmem := List.mem_of_find?_eq_some h2
      simp only [reduceCtorEq, false_iff]
      rintro ⟨-, hall, -⟩
      rw [hall legacy hmem] at hlegacy
      cases hlegacy
    | none =>
      have hmode : ∀ event ∈ events, hasType "mode/set" event = false := by
        simpa using h2
      cases findFallback events with
      | error e => simp
      | ok found =>
        cases found with
        | none => exact iff_of_true rfl ⟨hdelta, hmode, rfl⟩
        | some fallback => simp

/-- **A suffix of a log that upgrades**, none of whose events needs the log before it, upgrades by
itself, to the suffix of the upgraded log. -/
theorem snapshotStoredEvents_drop {events snapshots : List Json} {id : JsString}
    (h : snapshotStoredEvents events id = .ok snapshots) {k : ℕ}
    (hneeds : ∀ event ∈ events.drop k, needsLegacyPrefix event = false) :
    snapshotStoredEvents (events.drop k) id = .ok (snapshots.drop k) := by
  rw [snapshotStoredEvents] at h ⊢
  cases hs : assertSupportedEvents events id with
  | error e => simp [hs] at h
  | ok u =>
    have hall := assertSupportedEvents_eq_ok.mp hs
    have hdrop : assertSupportedEvents (events.drop k) id = .ok () :=
      assertSupportedEvents_eq_ok.mpr fun event he ↦ hall event (List.mem_of_mem_drop he)
    simp only [hs] at h
    obtain ⟨ids, hids⟩ := snapshotStoredFrom_drop (k := k) h
    rw [hdrop]
    exact (snapshotStoredFrom_of_not_needs hneeds).trans hids

/-!
## Live sessions

The log of a session that is in memory: its events are numbered from zero, a store can hold them, and
they have the current shapes, so an upgrade leaves them alone. The upgrades look at an event through
its properties only (`IsCurrent.of_get?`); whatever a store does to the order of keys, it stays so.
-/

open Sqlite

/-- A turn ending of the current vocabulary. -/
def IsCurrentTurnEnd (data : Fields) : Prop :=
  ∃ reason, asRecord (fieldOf (js "reason") data) = some reason ∧
    isSafeIntegerFrom 1 (fieldOf (js "turn") data) = true ∧
    hasOnlyKeys data ["turn", "reason"] [] = true ∧
    Value.isString (fieldOf (js "kind") reason) = true ∧ turnEndReason reason = .current

/-- An event of the current vocabulary, as the types of session events have it. -/
structure IsCurrent (event : Json) : Prop where
  not_headerDelta : hasType "request/header-delta" event = false
  not_modeSet : hasType "mode/set" event = false
  not_fallback : isFallbackHeader event = .ok false
  not_trigger : hasType "turn/start" event = true → ∀ data,
    asRecord (event.get? "data") = some data → hasField "trigger" data = false
  turnEnd : hasType "turn/end" event = true → ∀ data,
    asRecord (event.get? "data") = some data → IsCurrentTurnEnd data
  not_legacy : needsLegacyPrefix event = false
  shape : assertMessageEventShape event = .ok ()

/-- An upgrade leaves a current event alone. -/
theorem snapshotStoredEvent_of_current {event : Json} (h : IsCurrent event) (id : JsString)
    (ids : MessageIds) : snapshotStoredEvent id ids event = .ok event := by
  have hstart : migrateLegacyTurnStartEvent event id = .ok event := by
    rw [migrateLegacyTurnStartEvent]
    split_ifs with htype
    · rfl
    · cases hd : asRecord (event.get? "data") with
      | none => rfl
      | some data =>
        dsimp only
        rw [if_pos (h.not_trigger (by simpa using htype) data hd)]
  have hend : migrateLegacyTurnEndEvent event id = .ok event := by
    rw [migrateLegacyTurnEndEvent]
    split_ifs with htype
    · rfl
    · cases hd : asRecord (event.get? "data") with
      | none => rfl
      | some data =>
        obtain ⟨reason, hreason, hturn, hkeys, hkind, hcurrent⟩ :=
          h.turnEnd (by simpa using htype) data hd
        dsimp only
        rw [hreason]
        dsimp only
        rw [if_neg (by simp [hturn, hkeys, hkind]), hcurrent]
  rw [snapshotStoredEvent, hstart]
  dsimp only
  rw [hend]
  dsimp only
  rw [migrateLegacySteeringEvent_of_not_needs id h.not_legacy]
  dsimp only
  rw [migrateLegacyMessageEvent_of_not_needs id ids h.not_legacy, snapshotSessionEvent, h.shape]

/-- **An upgrade leaves a current log alone.** -/
theorem snapshotStoredEvents_of_current {events : List Json} (h : ∀ event ∈ events, IsCurrent event)
    (id : JsString) : snapshotStoredEvents events id = .ok events := by
  have hsupported : assertSupportedEvents events id = .ok () :=
    assertSupportedEvents_eq_ok.mpr fun event he ↦
      ⟨(h event he).not_headerDelta, (h event he).not_modeSet, (h event he).not_fallback⟩
  have hfrom (ids : MessageIds) : snapshotStoredFrom id ids events = .ok events := by
    clear hsupported
    induction events generalizing ids with
    | nil => rfl
    | cons event rest ih =>
      rw [snapshotStoredFrom, snapshotStoredEvent_of_current (h event List.mem_cons_self)]
      dsimp only
      rw [ih fun e he ↦ h e (List.mem_cons_of_mem event he)]
  rw [snapshotStoredEvents, hsupported]
  exact hfrom []

/-- Being current is a matter of what properties hold, not of their order. -/
theorem IsCurrent.of_get? {x y : Json} (h : ∀ k, y.get? k = x.get? k) (hx : IsCurrent x) :
    IsCurrent y := by
  have htype (type : String) : hasType type y = hasType type x := by
    rw [hasType, hasType, h]
  have hmessage : messageOf y = messageOf x := by
    rw [messageOf, messageOf, h, h]
  refine ⟨?_, ?_, ?_, ?_, ?_, ?_, ?_⟩
  · rw [htype, hx.not_headerDelta]
  · rw [htype, hx.not_modeSet]
  · rw [← hx.not_fallback, isFallbackHeader, isFallbackHeader, htype, h]
  · rw [htype, h]
    exact hx.not_trigger
  · rw [htype, h]
    exact hx.turnEnd
  · rw [← hx.not_legacy, needsLegacyPrefix, needsLegacyPrefix, h]
    simp only [htype]
  · rw [← hx.shape, assertMessageEventShape, assertMessageEventShape, h, hmessage]

/-- A delta event is current. -/
theorem isCurrent_chunk {event : Json} (h : event.get? "type" = some (text "assistant/chunk")) :
    IsCurrent event := by
  have htype (type : String) (hne : "assistant/chunk" ≠ type) : hasType type event = false := by
    rw [hasType, h, decide_eq_false_iff_not]
    exact fun hc ↦ hne (text_inj.mp (Option.some.inj hc))
  have hstart := htype "turn/start" (by decide +kernel)
  have hend := htype "turn/end" (by decide +kernel)
  refine ⟨htype _ (by decide +kernel), htype _ (by decide +kernel), ?_, ?_, ?_, ?_, ?_⟩
  · rw [isFallbackHeader, htype "request/header" (by decide +kernel), if_neg Bool.false_ne_true]
  · rw [hstart]
    exact fun hc ↦ absurd hc Bool.false_ne_true
  · rw [hend]
    exact fun hc ↦ absurd hc Bool.false_ne_true
  · exact needsLegacyPrefix_of_type (decide_eq_true h) (by decide +kernel)
  · have hmessage : isMessageType (some (text "assistant/chunk")) = false := by decide +kernel
    rw [assertMessageEventShape, h]
    exact if_pos hmessage

/-- A session in memory. -/
structure LiveSession where
  /-- Its header. -/
  header : SessionHeader
  /-- Its log. -/
  events : List SessionEvent
  /-- Events are numbered as they are appended. -/
  numbered : ContiguousFrom 0 (events.map SessionEvent.json)
  /-- A store can hold them. -/
  storable : ∀ event ∈ events, Storable event
  /-- They are of the current vocabulary. -/
  current : ∀ event ∈ events, IsCurrent event.json
  /-- An id is text. -/
  id_wellFormed : WellFormed header.id
  /-- So is a directory. -/
  cwd_wellFormed : ∀ s, header.cwd = some s → WellFormed s

/-- The log of a session, as values. -/
def LiveSession.log (session : LiveSession) : List Json := session.events.map SessionEvent.json

end XxAgent
