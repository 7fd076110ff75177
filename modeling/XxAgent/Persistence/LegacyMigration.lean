import XxAgent.Persistence.LiveSession
import XxAgent.Session.DeepEqual

/-!
# Upgrading is done once

Four upgrades feed one another, and what comes out of them is an event of the current vocabulary
(`IsCurrent`), which upgrading leaves alone. The types say which upgrade an event meets: only a
steering message changes its type, into one that only the last upgrade looks at.

A backend may hand over its result for good. Then the upgraded events are written over the stored
ones, and the list that is adopted is the one that would have been copied.
-/

namespace XxAgent

open Ecma

/-! ## Adoption -/

/-- Validate an exclusively owned event. -/
def adoptSessionEvent (event : Json) : Except ShapeFault Json :=
  match assertMessageEventShape event with
  | .error fault => .error fault
  | .ok () => .ok event

/-- Upgrade and validate one event without copying it. -/
def adoptStoredEvent (id : JsString) (messageIds : MessageIds) (event : Json) :
    Except StoredEventError Json :=
  match migrateLegacyTurnStartEvent event id with
  | .error e => .error e
  | .ok migratedStart =>
    match migrateLegacyTurnEndEvent migratedStart id with
    | .error e => .error e
    | .ok migratedTurn =>
      match migrateLegacySteeringEvent migratedTurn id with
      | .error e => .error e
      | .ok migratedSteering =>
        let migrated := migrateLegacyMessageEvent migratedSteering id messageIds
        match adoptSessionEvent migrated with
        | .error fault => .error (.shape (migrated.get? "seq") fault)
        | .ok adopted => .ok adopted

/-- The loop over `events.entries()`, which writes into the list it reads; so many entries are
left from `index` on. -/
def adoptStoredFrom (id : JsString) :
    ℕ → MessageIds → ℕ → List Json → Except StoredEventError (List Json)
  | 0, _, _, events => .ok events
  | left + 1, messageIds, index, events =>
    match events[index]? with
    | none => .ok events
    | some event =>
      match adoptStoredEvent id messageIds event with
      | .error e => .error e
      | .ok adopted =>
        adoptStoredFrom id left (messageIds.record adopted) (index + 1) (events.set index adopted)

/-- Upgrade and validate an exclusively owned backend result without copying it. -/
def adoptStoredEvents (events : List Json) (id : JsString) : Except StoredEventError (List Json) :=
  match assertSupportedEvents events id with
  | .error e => .error e
  | .ok () => adoptStoredFrom id events.length [] 0 events

theorem adoptStoredEvent_eq (id : JsString) (ids : MessageIds) (event : Json) :
    adoptStoredEvent id ids event = snapshotStoredEvent id ids event := rfl

theorem adoptStoredFrom_eq (id : JsString) (rest : List Json) : ∀ (ids : MessageIds)
    (done : List Json), adoptStoredFrom id rest.length ids done.length (done ++ rest) =
      (snapshotStoredFrom id ids rest).map (done ++ ·) := by
  induction rest with
  | nil => exact fun ids done ↦ rfl
  | cons event rest ih =>
    intro ids done
    have hevent : (done ++ event :: rest)[done.length]? = some event := by simp
    rw [List.length_cons, adoptStoredFrom, hevent, snapshotStoredFrom]
    simp only [adoptStoredEvent_eq]
    cases snapshotStoredEvent id ids event with
    | error e => rfl
    | ok snapshot =>
      have hnext := ih (ids.record snapshot) (done ++ [snapshot])
      rw [List.length_append, List.length_singleton, List.append_assoc, List.singleton_append]
        at hnext
      have hset : (done ++ event :: rest).set done.length snapshot = done ++ snapshot :: rest := by
        simp
      simp only [hset, hnext]
      cases snapshotStoredFrom id (ids.record snapshot) rest with
      | error e => rfl
      | ok snapshots => simp [Except.map]

/-- **What is adopted is what would have been copied.** -/
theorem adoptStoredEvents_eq (events : List Json) (id : JsString) :
    adoptStoredEvents events id = snapshotStoredEvents events id := by
  rw [adoptStoredEvents, snapshotStoredEvents]
  cases assertSupportedEvents events id with
  | error e => rfl
  | ok u =>
    refine (adoptStoredFrom_eq id events [] []).trans ?_
    cases snapshotStoredFrom id [] events <;> rfl

/-! ## Types -/

theorem hasType_eq_false {a b : String} {event : Json} (h : hasType a event = true) (hne : a ≠ b) :
    hasType b event = false := by
  rw [hasType, decide_eq_true_iff] at h
  rw [hasType, h, decide_eq_false_iff_not]
  exact fun hc ↦ hne (text_inj.mp (Option.some.inj hc))

/-- A property that is written is there. -/
theorem get?_withFields_self {k : String} {x : Json} {event : Json} {data : Fields}
    (hevent : asRecord (event.get? "data") = some data) (changes : Fields) :
    (withFields event (changes ++ [prop k x])).get? k = some x := by
  cases event with
  | obj fs =>
    rw [withFields, Json.get?_obj, setFields, List.foldl_append]
    exact fieldOf_setField_self _ _ _
  | _ => simp [Json.get?, asRecord] at hevent

theorem hasType_steered {event : Json} {data : Fields}
    (hevent : asRecord (event.get? "data") = some data) (x : Json) :
    hasType "user/message"
      (withFields event [prop "type" (text "user/message"), prop "data" x]) = true := by
  cases event with
  | obj fs =>
    rw [hasType, decide_eq_true_iff, withFields, Json.get?_obj]
    have hdata : js "type" ∉ keys [prop "data" x] := by simp [js_inj]
    rw [setFields, List.foldl_cons, ← setFields, fieldOf_setFields_of_not_mem hdata]
    exact fieldOf_setField_self _ _ _
  | _ => simp [Json.get?, asRecord] at hevent

/-- A steering message becomes a user message; any other event stays what it is. -/
theorem migrateLegacySteeringEvent_type {event result : Json} {id : JsString}
    (h : migrateLegacySteeringEvent event id = .ok result) :
    (hasType "steering/message" event = false ∧ result = event) ∨
      (hasType "steering/message" event = true ∧ hasType "user/message" result = true) := by
  rw [migrateLegacySteeringEvent] at h
  dsimp only at h
  split_ifs at h with htype
  · exact .inl ⟨htype, (Except.ok.inj h).symm⟩
  · rw [Bool.not_eq_false] at htype
    cases hd : asRecord (event.get? "data") with
    | none => simp [hd] at h
    | some data =>
      simp only [hd] at h
      split_ifs at h
      · exact .inr ⟨htype, Except.ok.inj h ▸ hasType_steered hd _⟩
      · exact .inr ⟨htype, Except.ok.inj h ▸ hasType_steered hd _⟩

theorem KeepsEnvelope.hasType {type other : String} {event result : Json}
    (h : KeepsEnvelope type event result) :
    XxAgent.hasType other result = XxAgent.hasType other event := by
  rcases h with rfl | ⟨-, data, rfl⟩
  · rfl
  · exact hasType_withFields rfl other event

theorem KeepsEnvelope.eq_of_type {type other : String} {event result : Json}
    (h : KeepsEnvelope type event result) (hother : XxAgent.hasType other event = true)
    (hne : other ≠ type) : result = event := by
  rcases h with rfl | ⟨htype, -⟩
  · rfl
  · exact nomatch htype.symm.trans (hasType_eq_false hother hne)

theorem hasType_migrateLegacyMessageEvent (type : String) (event : Json) (id : JsString)
    (ids : MessageIds) :
    hasType type (migrateLegacyMessageEvent event id ids) = hasType type event := by
  rcases migrateLegacyMessageEvent_spec event id ids with h | ⟨data, h⟩
  · rw [h]
  · rw [h]
    exact hasType_withFields rfl type event

/-- The upgrades of messages leave the other events alone. -/
theorem migrated_of_type {type : String} {event steered : Json} {id : JsString} (ids : MessageIds)
    (h : migrateLegacySteeringEvent event id = .ok steered) (htype : hasType type event = true)
    (hne : type ∉ ["steering/message", "user/message", "assistant/message", "tool/result"]) :
    migrateLegacyMessageEvent steered id ids = event := by
  have hneeds := needsLegacyPrefix_of_type htype hne
  rw [migrateLegacySteeringEvent_of_not_needs id hneeds] at h
  obtain rfl := Except.ok.inj h
  exact migrateLegacyMessageEvent_of_not_needs id ids hneeds

/-- But for steering messages an event keeps its type. -/
theorem snapshotStoredEvent_hasType {id : JsString} {ids : MessageIds} {event snapshot : Json}
    (h : snapshotStoredEvent id ids event = .ok snapshot) {type : String}
    (hsteering : type ≠ "steering/message") (huser : type ≠ "user/message") :
    hasType type snapshot = hasType type event := by
  obtain ⟨started, ended, steered, h1, h2, h3, rfl, -⟩ := snapshotStoredEvent_eq_ok h
  have hended : hasType type ended = hasType type event := by
    rw [(migrateLegacyTurnEndEvent_spec h2).hasType, (migrateLegacyTurnStartEvent_spec h1).hasType]
  rw [hasType_migrateLegacyMessageEvent, ← hended]
  rcases migrateLegacySteeringEvent_type h3 with ⟨-, rfl⟩ | ⟨hold, hnew⟩
  · rfl
  · rw [hasType_eq_false hold hsteering.symm, hasType_eq_false hnew huser.symm]

/-- An event of another type is not upgraded at all. -/
theorem snapshotStoredEvent_of_type {id : JsString} {ids : MessageIds} {event snapshot : Json}
    (h : snapshotStoredEvent id ids event = .ok snapshot) {type : String}
    (htype : hasType type event = true)
    (hne : type ∉ ["steering/message", "user/message", "assistant/message", "tool/result"])
    (hstart : type ≠ "turn/start") (hend : type ≠ "turn/end") : snapshot = event := by
  obtain ⟨started, ended, steered, h1, h2, h3, rfl, -⟩ := snapshotStoredEvent_eq_ok h
  obtain rfl := (migrateLegacyTurnStartEvent_spec h1).eq_of_type htype hstart
  obtain rfl := (migrateLegacyTurnEndEvent_spec h2).eq_of_type htype hend
  exact migrated_of_type ids h3 htype hne

/-! ## What comes out is current -/

/-- An upgraded turn start has no trigger. -/
theorem not_trigger_of_migrate {event result : Json} {id : JsString}
    (h : migrateLegacyTurnStartEvent event id = .ok result)
    (htype : hasType "turn/start" event = true) {data : Fields}
    (hdata : asRecord (result.get? "data") = some data) : hasField "trigger" data = false := by
  rw [migrateLegacyTurnStartEvent, if_neg (by simp [htype])] at h
  cases hd : asRecord (event.get? "data") with
  | none =>
    simp only [hd] at h
    obtain rfl := Except.ok.inj h
    exact absurd (hd.symm.trans hdata) (by simp)
  | some old =>
    simp only [hd] at h
    split_ifs at h with htrigger
    · obtain rfl := Except.ok.inj h
      obtain rfl : old = data := Option.some.inj (hd.symm.trans hdata)
      exact htrigger
    · obtain rfl := Except.ok.inj h
      have hnew := get?_withFields_self (k := "data") hd []
        (x := .obj (definedFields [("turn", fieldOf (js "turn") old)]))
      rw [List.nil_append] at hnew
      rw [hnew] at hdata
      obtain rfl := Option.some.inj hdata
      rw [hasField, fieldOf_definedFields_of_not_mem (by simp)]
      rfl

theorem legacyErrorReason_eq_some {reason : Fields} {current : Json}
    (h : legacyErrorReason reason = some current) :
    ∃ error, current = .obj [prop "kind" (text "error"), prop "error" error] := by
  rw [legacyErrorReason] at h
  cases hfailure : legacyFailure reason with
  | some failure =>
    simp only [hfailure] at h
    split_ifs at h
    exact ⟨_, (Option.some.inj h).symm⟩
  | none =>
    simp only [hfailure] at h
    split_ifs at h
    all_goals exact ⟨_, (Option.some.inj h).symm⟩

/-- An upgraded reason is a current one. -/
theorem turnEndReason_upgraded {reason : Fields} {current : Json}
    (h : turnEndReason reason = .upgraded current) : ∃ fs, current = .obj fs ∧
      Value.isString (fieldOf (js "kind") fs) = true ∧ turnEndReason fs = .current := by
  rw [turnEndReason] at h
  split_ifs at h
  · cases h
    exact ⟨_, rfl, rfl, rfl⟩
  · cases h
    exact ⟨_, rfl, rfl, rfl⟩
  · cases herror : legacyErrorReason reason with
    | none => simp [herror] at h
    | some upgraded =>
      simp only [herror] at h
      cases h
      obtain ⟨error, rfl⟩ := legacyErrorReason_eq_some herror
      exact ⟨_, rfl, rfl, rfl⟩

/-- The keys of a payload stay when one of its properties is replaced. -/
theorem hasOnlyKeys_setField {fs : Fields} {k : String} {v : Value} (x : Json)
    {required : List String} (hk : fieldOf (js k) fs = v) (hv : v ≠ none)
    (h : hasOnlyKeys fs required [] = true) :
    hasOnlyKeys (setField fs (js k) x) required [] = true := by
  have hmem : js k ∈ keys fs := by
    by_contra hc
    rw [fieldOf_eq_none_iff.mpr hc] at hk
    exact hv hk.symm
  have hkeys : keys (setField fs (js k) x) = keys fs := by
    rw [setField, if_pos hmem, keys_map_set]
  rw [hasOnlyKeys, Bool.and_eq_true, List.all_eq_true] at h ⊢
  refine ⟨by rw [hkeys]; exact h.1, List.all_eq_true.mpr fun l hl ↦ ?_⟩
  have hold := List.all_eq_true.mp h.2 l hl
  rw [Option.isSome_iff_ne_none, ne_eq, fieldOf_eq_none_iff] at hold ⊢
  rwa [hkeys]

/-- An upgraded turn ending is a current one. -/
theorem isCurrentTurnEnd_of_migrate {event result : Json} {id : JsString}
    (h : migrateLegacyTurnEndEvent event id = .ok result)
    (htype : hasType "turn/end" event = true) {data : Fields}
    (hdata : asRecord (result.get? "data") = some data) : IsCurrentTurnEnd data := by
  rw [migrateLegacyTurnEndEvent, if_neg (by simp [htype])] at h
  cases hd : asRecord (event.get? "data") with
  | none =>
    simp only [hd] at h
    obtain rfl := Except.ok.inj h
    exact absurd (hd.symm.trans hdata) (by simp)
  | some old =>
    cases hr : asRecord (fieldOf (js "reason") old) with
    | none => simp [hd, hr] at h
    | some reason =>
      simp only [hd, hr] at h
      split_ifs at h with hmalformed
      simp only [not_or, Bool.not_eq_false] at hmalformed
      obtain ⟨hturn, hkeys, hkind⟩ := hmalformed
      cases hreason : turnEndReason reason with
      | malformed => simp [hreason] at h
      | current =>
        simp only [hreason] at h
        obtain rfl := Except.ok.inj h
        obtain rfl : old = data := Option.some.inj (hd.symm.trans hdata)
        exact ⟨reason, hr, hturn, hkeys, hkind, hreason⟩
      | upgraded current =>
        simp only [hreason] at h
        obtain rfl := Except.ok.inj h
        have hnew := get?_withFields_self (k := "data") hd []
          (x := .obj (setFields old [prop "reason" current]))
        rw [List.nil_append] at hnew
        rw [hnew] at hdata
        obtain rfl := Option.some.inj hdata
        obtain ⟨fs, rfl, hkind', hcurrent⟩ := turnEndReason_upgraded hreason
        refine ⟨fs, ?_, ?_, ?_, hkind', hcurrent⟩
        · exact congrArg asRecord (fieldOf_setField_self _ _ _)
        · have hother : js "reason" ≠ js "turn" := by simp [js_inj]
          rw [show setFields old [prop "reason" (.obj fs)] =
            setField old (js "reason") (.obj fs) from rfl, fieldOf_setField_of_ne hother]
          exact hturn
        · refine hasOnlyKeys_setField _ rfl (fun hc ↦ ?_) hkeys
          rw [hc] at hr
          cases hr

/-- A message event of the current shape has an identified message. -/
theorem identified_of_shape {event : Json} (h : assertMessageEventShape event = .ok ())
    (htype : isMessageType (event.get? "type") = true) : (messageOf event).isRecord = true ∧
      isNonemptyString ((messageOf event).get "id") = true := by
  rw [assertMessageEventShape, if_neg (by simp [htype])] at h
  split_ifs at h with hidentified
  all_goals simpa [not_or] using hidentified

theorem asRecord_eq_some {v : Value} {fs : Fields} (h : asRecord v = some fs) :
    v = some (.obj fs) := by
  cases v with
  | none => cases h
  | some x =>
    cases x with
    | obj gs =>
      obtain rfl : gs = fs := Option.some.inj h
      rfl
    | _ => cases h

theorem hasField_of_isRecord {k : String} {fs : Fields}
    (h : Value.isRecord (fieldOf (js k) fs) = true) : hasField k fs = true := by
  rw [hasField]
  cases hk : fieldOf (js k) fs with
  | none => simp [hk, Value.isRecord] at h
  | some x => rfl

theorem hasField_of_nonempty {k : String} {fs : Fields}
    (h : isNonemptyString (fieldOf (js k) fs) = true) : hasField k fs = true := by
  rw [hasField]
  cases hk : fieldOf (js k) fs with
  | none => simp [hk, isNonemptyString] at h
  | some x => rfl

/-- A message of the current shape needs nothing from before. -/
theorem not_needs_of_shape {event : Json} (hsteering : hasType "steering/message" event = false)
    (h : assertMessageEventShape event = .ok ()) : needsLegacyPrefix event = false := by
  rw [needsLegacyPrefix, if_neg (by simp [hsteering])]
  cases hd : asRecord (event.get? "data") with
  | none => rfl
  | some data =>
    have hdata := asRecord_eq_some hd
    have hmessage {type : String} (htype : hasType type event = true)
        (hne : type ≠ "user/message") : messageOf event = fieldOf (js "message") data := by
      rw [hasType, decide_eq_true_iff] at htype
      rw [messageOf, htype, if_neg (by simp [hne]), hdata]
      rfl
    simp only
    split_ifs with huser hassistant htool
    · have htype := of_decide_eq_true huser
      have hidentified := (identified_of_shape h (by simp [isMessageType, htype])).2
      rw [messageOf, if_pos htype, hdata] at hidentified
      rw [hasField_of_nonempty (k := "id") hidentified]
      rfl
    · have htype := of_decide_eq_true hassistant
      have hrecord := (identified_of_shape h (by simp [isMessageType, htype])).1
      rw [hmessage hassistant (by simp)] at hrecord
      rw [hasField_of_isRecord hrecord]
      rfl
    · have htype := of_decide_eq_true htool
      have hrecord := (identified_of_shape h (by simp [isMessageType, htype])).1
      rw [hmessage htool (by simp)] at hrecord
      rw [hasField_of_isRecord hrecord]
      rfl
    · rfl

/-- **What comes out of the upgrades is current.** -/
theorem isCurrent_snapshot {id : JsString} {ids : MessageIds} {event snapshot : Json}
    (h : snapshotStoredEvent id ids event = .ok snapshot)
    (hdelta : hasType "request/header-delta" event = false)
    (hmode : hasType "mode/set" event = false) (hfallback : isFallbackHeader event = .ok false) :
    IsCurrent snapshot := by
  have hkeeps {type : String} (hne : type ∉ ["steering/message", "user/message"]) :
      hasType type snapshot = hasType type event := by
    rw [List.mem_cons, List.mem_singleton, not_or] at hne
    exact snapshotStoredEvent_hasType h hne.1 hne.2
  have hall := snapshotStoredEvent_eq_ok h
  obtain ⟨started, ended, steered, h1, h2, h3, hsnapshot, hshape⟩ := hall
  refine ⟨?_, ?_, ?_, fun htype data hdata ↦ ?_, fun htype data hdata ↦ ?_, ?_, hshape⟩
  · rw [hkeeps (by simp), hdelta]
  · rw [hkeeps (by simp), hmode]
  · by_cases htype : hasType "request/header" event = true
    · rw [snapshotStoredEvent_of_type h htype (by simp) (by simp) (by simp), hfallback]
    · rw [isFallbackHeader, hkeeps (by simp), if_neg htype]
  · rw [hkeeps (by simp)] at htype
    have hstarted : hasType "turn/start" started = true :=
      (migrateLegacyTurnStartEvent_spec h1).hasType.trans htype
    obtain rfl := (migrateLegacyTurnEndEvent_spec h2).eq_of_type hstarted (by simp)
    rw [hsnapshot, migrated_of_type ids h3 hstarted (by simp)] at hdata
    exact not_trigger_of_migrate h1 htype hdata
  · rw [hkeeps (by simp)] at htype
    obtain rfl := (migrateLegacyTurnStartEvent_spec h1).eq_of_type htype (by simp)
    have hended : hasType "turn/end" ended = true :=
      (migrateLegacyTurnEndEvent_spec h2).hasType.trans htype
    rw [hsnapshot, migrated_of_type ids h3 hended (by simp)] at hdata
    exact isCurrentTurnEnd_of_migrate h2 htype hdata
  · refine not_needs_of_shape ?_ hshape
    rw [hsnapshot, hasType_migrateLegacyMessageEvent]
    rcases migrateLegacySteeringEvent_type h3 with ⟨hother, rfl⟩ | ⟨-, huser⟩
    · exact hother
    · exact hasType_eq_false huser (by simp)

/-! ## Logs -/

/-- The message ids after the events of a list. -/
def MessageIds.recordAll (ids : MessageIds) (snapshots : List Json) : MessageIds :=
  snapshots.foldl MessageIds.record ids

/-- Each event is upgraded with the ids of those before it. -/
theorem snapshotStoredFrom_getElem? {id : JsString} {events : List Json} :
    ∀ {ids : MessageIds} {snapshots : List Json},
      snapshotStoredFrom id ids events = .ok snapshots → snapshots.length = events.length ∧
        ∀ {k : ℕ} {event : Json}, events[k]? = some event → ∃ snapshot,
          snapshots[k]? = some snapshot ∧
          snapshotStoredEvent id (ids.recordAll (snapshots.take k)) event = .ok snapshot := by
  induction events with
  | nil =>
    intro ids snapshots h
    obtain rfl := Except.ok.inj h
    exact ⟨rfl, fun hk ↦ nomatch hk⟩
  | cons event rest ih =>
    intro ids snapshots h
    rw [snapshotStoredFrom] at h
    cases h1 : snapshotStoredEvent id ids event with
    | error e => simp [h1] at h
    | ok snapshot =>
      cases h2 : snapshotStoredFrom id (ids.record snapshot) rest with
      | error e => simp [h1, h2] at h
      | ok others =>
        simp only [h1, h2] at h
        obtain rfl := Except.ok.inj h
        obtain ⟨hlength, hothers⟩ := ih h2
        refine ⟨by rw [List.length_cons, List.length_cons, hlength], fun {k event'} hk ↦ ?_⟩
        cases k with
        | zero =>
          obtain rfl : event = event' := by simpa using hk
          exact ⟨snapshot, rfl, h1⟩
        | succ k => exact hothers (by simpa using hk)

/-- The stored events of a log that was read, each with the one it became. -/
theorem snapshotStoredEvents_getElem? {events snapshots : List Json} {id : JsString}
    (h : snapshotStoredEvents events id = .ok snapshots) : snapshots.length = events.length ∧
      ∀ {k : ℕ} {event : Json}, events[k]? = some event → ∃ snapshot,
        snapshots[k]? = some snapshot ∧
        snapshotStoredEvent id (MessageIds.recordAll [] (snapshots.take k)) event =
          .ok snapshot := by
  rw [snapshotStoredEvents] at h
  cases hs : assertSupportedEvents events id with
  | error e => simp [hs] at h
  | ok u =>
    simp only [hs] at h
    exact snapshotStoredFrom_getElem? h

/-- **An upgraded log is current.** -/
theorem isCurrent_snapshots {events snapshots : List Json} {id : JsString}
    (h : snapshotStoredEvents events id = .ok snapshots) :
    ∀ snapshot ∈ snapshots, IsCurrent snapshot := by
  intro snapshot hmem
  obtain ⟨hlength, hevents⟩ := snapshotStoredEvents_getElem? h
  obtain ⟨k, hk, rfl⟩ := List.mem_iff_getElem.mp hmem
  obtain ⟨snapshot', hsnapshot', hevent⟩ := hevents (List.getElem?_eq_getElem (hlength ▸ hk))
  rw [List.getElem?_eq_getElem hk] at hsnapshot'
  obtain rfl := Option.some.inj hsnapshot'
  have hsupported : assertSupportedEvents events id = .ok () := by
    rw [snapshotStoredEvents] at h
    cases hs : assertSupportedEvents events id with
    | error e => simp [hs] at h
    | ok u => rfl
  obtain ⟨hdelta, hmode, hfallback⟩ :=
    assertSupportedEvents_eq_ok.mp hsupported _ (List.getElem_mem (hlength ▸ hk))
  exact isCurrent_snapshot hevent hdelta hmode hfallback

end XxAgent
